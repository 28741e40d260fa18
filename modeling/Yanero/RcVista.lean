import Yanero.RcMotor

/-! # What the table shows

    A free slot keeps stale keys, lengths and flags that no routine reads.
    `limpia` forgets them, so that a shift of descriptors is a plain list
    surgery on the cleaned table.  This file gives the effect of the shared
    routines on the cleaned table: copy, removal, replacement, cleaning. -/

namespace Rc

open Bucles

/-- A free slot of `largo` bytes at `data`, without stale fields. -/
def libre (data : Nat) (largo : Int) : Particion :=
  { item := { data := data }, bytesDisponibles := largo }

/-- A slot without its stale fields. -/
def limpia (s : Particion) : Particion :=
  if s.ocupado then s
  else { libre s.item.data s.bytesDisponibles with bytesInutilizados := s.bytesInutilizados }

/-- The cleaned table. -/
def vista (self : TableInfo) : List Particion := self.elements.map limpia

/-- Unoccupied, without free or unusable bytes. -/
def muerta (s : Particion) : Prop :=
  s.ocupado = false ∧ s.bytesDisponibles = 0 ∧ s.bytesInutilizados = 0

/-- The start of a partition. -/
def inicio (s : Particion) : Int := s.item.data

/-- The slot after a part of the table. -/
theorem leer_mitad (fuera : Nat → Particion) {t : TableInfo} {A R : List Particion}
    {s : Particion} (hes : t.elements = A ++ s :: R) : t.leer fuera A.length = s := by
  rw [TableInfo.leer, hes]
  exact getD_mitad _ _ _ _

/-- The slot after that one. -/
theorem leer_siguiente (fuera : Nat → Particion) {t : TableInfo} {A R : List Particion}
    {s u : Particion} (hes : t.elements = A ++ s :: u :: R) :
    t.leer fuera (A.length + 1) = u := by
  have hl : A.length + 1 = (A ++ [s]).length := by simp
  have hes' : t.elements = (A ++ [s]) ++ u :: R := by rw [hes]; simp
  rw [hl]
  exact leer_mitad fuera hes'

/-- Two descriptors of one partition: key, times and the stored mark may
    differ. -/
structure MismaForma (s s' : Particion) : Prop where
  ocupado : s'.ocupado = s.ocupado
  data : s'.item.data = s.item.data
  ndata : s'.item.ndata = s.item.ndata
  disponibles : s'.bytesDisponibles = s.bytesDisponibles
  inutilizados : s'.bytesInutilizados = s.bytesInutilizados

/-- A free partition begins where it was put. -/
@[simp] theorem inicio_libre (a : Nat) (n : Int) : inicio (libre a n) = a := rfl

@[simp] theorem limpia_ocupado (s : Particion) : (limpia s).ocupado = s.ocupado := by
  cases h : s.ocupado with
  | true => simp [limpia, h]
  | false => simp [limpia, h, libre]

@[simp] theorem limpia_data (s : Particion) : (limpia s).item.data = s.item.data := by
  cases h : s.ocupado with
  | true => simp [limpia, h]
  | false => simp [limpia, h, libre]

@[simp] theorem limpia_disponibles (s : Particion) :
    (limpia s).bytesDisponibles = s.bytesDisponibles := by
  cases h : s.ocupado with
  | true => simp [limpia, h]
  | false => simp [limpia, h, libre]

@[simp] theorem limpia_inutilizados (s : Particion) :
    (limpia s).bytesInutilizados = s.bytesInutilizados := by
  cases h : s.ocupado with
  | true => simp [limpia, h]
  | false => simp [limpia, h, libre]

@[simp] theorem libre_ocupado (a : Nat) (n : Int) : (libre a n).ocupado = false := rfl
@[simp] theorem libre_data (a : Nat) (n : Int) : (libre a n).item.data = a := rfl
@[simp] theorem libre_disponibles (a : Nat) (n : Int) : (libre a n).bytesDisponibles = n := rfl
@[simp] theorem libre_inutilizados (a : Nat) (n : Int) : (libre a n).bytesInutilizados = 0 := rfl

/-- An occupied slot has no stale fields. -/
theorem limpia_of_ocupado {s : Particion} (h : s.ocupado = true) : limpia s = s := by
  simp [limpia, h]

/-- A clean free slot is a free partition. -/
theorem limpia_of_libre {s : Particion} (h : s.ocupado = false)
    (hi : s.bytesInutilizados = 0) : limpia s = libre s.item.data s.bytesDisponibles := by
  simp [limpia, h, hi, libre]

/-- An occupied source is copied whole. -/
theorem copiarDescriptor_ocupado {src : Particion} (dst : Particion)
    (h : src.ocupado = true) : copiarDescriptor src dst = src := by
  obtain ⟨item, ocupado, disponibles, inutilizados, usada⟩ := src
  obtain rfl : ocupado = true := h
  rfl

/-- A copy shows what its source shows. -/
theorem limpia_copiarDescriptor (src dst : Particion) :
    limpia (copiarDescriptor src dst) = limpia src := by
  cases h : src.ocupado with
  | true => rw [copiarDescriptor_ocupado dst h]
  | false => simp [copiarDescriptor, h, limpia, libre]

/-- A full copy shows its source. -/
theorem limpia_copiarTodo (src dst : Particion) :
    limpia (copiarTodo src dst) = limpia src := rfl

/-- Cleaning a slot keeps it alive. -/
theorem limpia_viva (s : Particion) : (limpia s).viva = s.viva := by
  simp [Particion.viva]

/-- And keeps it dead. -/
theorem muerta_limpia {s : Particion} : muerta (limpia s) ↔ muerta s := by
  simp [muerta]

/-- A dead slot is not alive. -/
theorem muerta_not_viva {s : Particion} (h : muerta s) : s.viva = false := by
  simp [Particion.viva, h.1, h.2.1]

/-- A lookup does not see the difference. -/
theorem coincide_limpia (key : Clave) (s : Particion) :
    coincide key (limpia s) = coincide key s := by
  cases h : s.ocupado with
  | true => rw [limpia_of_ocupado h]
  | false => simp [coincide, h]

@[simp] theorem length_vista (self : TableInfo) :
    (vista self).length = self.tableMaxSize := by
  simp [vista, TableInfo.tableMaxSize]

/-- A point of the cleaned table, lifted to the table itself. -/
theorem vista_parte {self : TableInfo} {A B : List Particion} {s : Particion}
    (h : vista self = A ++ s :: B) :
    ∃ A₀ s₀ B₀, self.elements = A₀ ++ s₀ :: B₀ ∧ A₀.map limpia = A
      ∧ limpia s₀ = s ∧ B₀.map limpia = B := by
  obtain ⟨A₀, R, hes, hA, hR⟩ := List.map_eq_append_iff.mp h
  obtain ⟨s₀, B₀, rfl, hs, hB⟩ := List.map_eq_cons_iff.mp hR
  exact ⟨A₀, s₀, B₀, hes, hA, hs, hB⟩

/-- Rewriting one slot, seen on the cleaned table. -/
theorem vista_modificar {self : TableInfo} {A₀ B₀ : List Particion} {s₀ : Particion}
    (hes : self.elements = A₀ ++ s₀ :: B₀) (f : Particion → Particion) :
    vista (self.modificar A₀.length f)
      = A₀.map limpia ++ limpia (f s₀) :: B₀.map limpia := by
  simp only [vista, TableInfo.modificar, hes, modify_mitad]
  simp

@[simp] theorem modificar_tableMaxSize (self : TableInfo) (i : Nat)
    (f : Particion → Particion) : (self.modificar i f).tableMaxSize = self.tableMaxSize := by
  simp [TableInfo.modificar, TableInfo.tableMaxSize]

/-- A slot that is not dead stands in the live part of the table. -/
theorem parte_viva {A R L D : List Particion} {s : Particion}
    (h : A ++ s :: R = L ++ D) (hD : ∀ d ∈ D, muerta d) (hs : ¬ muerta s) :
    ∃ B, L = A ++ s :: B ∧ R = B ++ D :=
  parte_prefijo (P := fun s => ¬ muerta s) h (fun d hd hn => hn (hD d hd)) hs

/-- The occupied slots of a table, in order. -/
def ocupadas (l : List Particion) : List Particion := l.filter fun s => s.ocupado

@[simp] theorem ocupadas_nil : ocupadas [] = [] := rfl

/-- The occupied slots of two parts. -/
@[simp] theorem ocupadas_append (A B : List Particion) :
    ocupadas (A ++ B) = ocupadas A ++ ocupadas B := by simp [ocupadas]

@[simp] theorem ocupadas_libre (a : Nat) (n : Int) (B : List Particion) :
    ocupadas (libre a n :: B) = ocupadas B := by simp [ocupadas]

/-- An occupied slot counts. -/
theorem ocupadas_cons_of_true {s : Particion} (h : s.ocupado = true) (B : List Particion) :
    ocupadas (s :: B) = s :: ocupadas B := by simp [ocupadas, h]

/-- A free one does not. -/
theorem ocupadas_cons_of_false {s : Particion} (h : s.ocupado = false) (B : List Particion) :
    ocupadas (s :: B) = ocupadas B := by simp [ocupadas, h]

theorem mem_ocupadas {s : Particion} {l : List Particion} :
    s ∈ ocupadas l ↔ s ∈ l ∧ s.ocupado = true := by simp [ocupadas]

/-- Cleaning changes no occupied slot. -/
theorem ocupadas_map_limpia (l : List Particion) : ocupadas (l.map limpia) = ocupadas l := by
  induction l with
  | nil => rfl
  | cons s l ih =>
      cases h : s.ocupado with
      | true =>
          rw [List.map_cons, limpia_of_ocupado h, ocupadas_cons_of_true h,
            ocupadas_cons_of_true h, ih]
      | false =>
          rw [List.map_cons, ocupadas_cons_of_false h,
            ocupadas_cons_of_false (by rw [limpia_ocupado]; exact h), ih]

/-- Cleaning loses no occupied slot. -/
theorem ocupadas_vista (self : TableInfo) : ocupadas (vista self) = ocupadas self.elements :=
  ocupadas_map_limpia self.elements

/-- Among dead slots none is occupied. -/
theorem ocupadas_muertas {D : List Particion} (h : ∀ s ∈ D, muerta s) : ocupadas D = [] := by
  simp only [ocupadas, List.filter_eq_nil_iff]
  intro s hs
  simp [(h s hs).1]

/-- `t'` keeps the memory of `t` and some of its occupied slots, unchanged. -/
def SoloQuita (t t' : TableInfo) : Prop :=
  (ocupadas t'.elements).Sublist (ocupadas t.elements) ∧ t'.memoria = t.memoria

/-- Two removals are one. -/
theorem SoloQuita.trans {t t' t'' : TableInfo} (h : SoloQuita t t') (h' : SoloQuita t' t'') :
    SoloQuita t t'' := ⟨h'.1.trans h.1, h'.2.trans h.2⟩

/-- A change seen on the cleaned tables only. -/
theorem soloQuita_of_vista {t t' : TableInfo}
    (h : (ocupadas (vista t')).Sublist (ocupadas (vista t))) (hm : t'.memoria = t.memoria) :
    SoloQuita t t' := by
  rw [ocupadas_vista, ocupadas_vista] at h
  exact ⟨h, hm⟩

/-- From the elements `l` under log `b` to `l'` under log `b'`: the log only
    grows, and an element that is gone has its key in the new part of it. -/
def Registra {α : Type} (clave : α → Clave) (b : List Clave) (l : List α) (b' : List Clave)
    (l' : List α) : Prop :=
  ∃ evs, b' = b ++ evs ∧ ∀ x ∈ l, clave x ∈ evs ∨ x ∈ l'

/-- Nothing leaves, nothing is recorded. -/
theorem Registra.of_subset {α : Type} {clave : α → Clave} {b b' : List Clave} {l l' : List α}
    (hb : b' = b) (h : l ⊆ l') : Registra clave b l b' l' :=
  ⟨[], by simpa using hb, fun _ hx => Or.inr (h hx)⟩

/-- Two records are one. -/
theorem Registra.trans {α : Type} {clave : α → Clave} {b b' b'' : List Clave}
    {l l' l'' : List α} (h : Registra clave b l b' l') (h' : Registra clave b' l' b'' l'') :
    Registra clave b l b'' l'' := by
  obtain ⟨evs, rfl, h⟩ := h
  obtain ⟨evs', rfl, h'⟩ := h'
  refine ⟨evs ++ evs', by simp, fun x hx => ?_⟩
  rcases h x hx with hk | hx'
  · exact Or.inl (List.mem_append_left _ hk)
  · rcases h' x hx' with hk | hx''
    · exact Or.inl (List.mem_append_right _ hk)
    · exact Or.inr hx''

/-- `t'` keeps the memory of `t` and its occupied slots, but for some whose
    keys it has logged. -/
structure SoloDesaloja (t t' : TableInfo) : Prop where
  quita : SoloQuita t t'
  registra : Registra (·.item.key) t.bitacora (ocupadas t.elements) t'.bitacora
    (ocupadas t'.elements)

/-- The same occupied slots, nothing recorded. -/
theorem SoloDesaloja.of_eq {t t' : TableInfo} (h : ocupadas t'.elements = ocupadas t.elements)
    (hm : t'.memoria = t.memoria) (hb : t'.bitacora = t.bitacora) : SoloDesaloja t t' :=
  ⟨⟨by rw [h], hm⟩, Registra.of_subset hb (by rw [h]; exact fun _ hx => hx)⟩

/-- Nothing happens. -/
theorem SoloDesaloja.refl (t : TableInfo) : SoloDesaloja t t := .of_eq rfl rfl rfl

/-- Two evictions are one. -/
theorem SoloDesaloja.trans {t t' t'' : TableInfo} (h : SoloDesaloja t t')
    (h' : SoloDesaloja t' t'') : SoloDesaloja t t'' :=
  ⟨h.quita.trans h'.quita, h.registra.trans h'.registra⟩

/-! ## Removal -/

/-- A freed slot shows a free partition of its bytes. -/
theorem limpia_liberada (c : Nat) (s : Particion) :
    limpia (liberada c s) = libre s.item.data (bytesLiberados c s) := by
  simp [limpia, liberada, libre]

/-- **REMOVAL**: a removal that returns frees exactly one occupied slot under
    the key, the last one, and touches nothing else. -/
theorem micacheRemove_vista {self self' : TableInfo} {key : Clave}
    (h : micacheRemove self key = some self') :
    ∃ A s B, vista self = A ++ s :: B ∧ s.ocupado = true ∧ s.item.key = key
      ∧ (∀ b ∈ B, coincide key b = false)
      ∧ vista self' = A ++ libre s.item.data (bytesLiberados self.sizeChunk s) :: B
      ∧ self'.espacioLibre = self.espacioLibre + bytesLiberados self.sizeChunk s
      ∧ self'.elementsAmount
          = (if s.item.data = 0 then self.elementsAmount else self.elementsAmount - 1)
      ∧ self'.sizeChunk = self.sizeChunk ∧ self'.memoria = self.memoria
      ∧ self'.bitacora = self.bitacora := by
  unfold micacheRemove micacheRemoveElement at h
  obtain ⟨⟨self₁, data⟩, h1, hself'⟩ := Option.map_eq_some_iff.mp h
  obtain ⟨pos, hpos, h2⟩ := Option.map_eq_some_iff.mp h1
  obtain ⟨A₀, s, B₀, hes, hlen, hs, hB⟩ := ultimoIndice_parte hpos
  have hocup : s.ocupado = true := by
    simp only [coincide, Bool.and_eq_true] at hs; exact hs.1
  have hkey : s.item.key = key := by
    simp only [coincide, Bool.and_eq_true, beq_iff_eq] at hs; exact hs.2
  have hget : self.elements.getD pos Particion.vacia = s := by
    rw [hes, ← hlen]; exact getD_mitad _ _ _ _
  simp only [hget] at h2
  obtain ⟨rfl, rfl⟩ := Prod.mk.inj h2
  refine ⟨A₀.map limpia, s, B₀.map limpia, ?_, hocup, hkey, ?_, ?_, ?_⟩
  · simp only [vista, hes]
    simp [limpia_of_ocupado hocup]
  · intro b hb
    obtain ⟨b₀, hb₀, rfl⟩ := List.mem_map.mp hb
    rw [coincide_limpia]
    exact hB b₀ hb₀
  · have hv := vista_modificar hes (liberada self.sizeChunk)
    rw [hlen, limpia_liberada] at hv
    rw [← hself']
    by_cases h0 : s.item.data = 0
    · simpa [h0, vista] using hv
    · simpa [h0, vista] using hv
  · rw [← hself']
    by_cases h0 : s.item.data = 0 <;> simp [h0, TableInfo.modificar]

/-- A removal takes one item at most. -/
theorem micacheRemove_soloQuita {self self' : TableInfo} {key : Clave}
    (h : micacheRemove self key = some self') : SoloQuita self self' := by
  obtain ⟨A, s, B, hv, -, -, -, hv', -, -, -, hm, -⟩ := micacheRemove_vista h
  refine soloQuita_of_vista ?_ hm
  rw [hv, hv', ocupadas_append, ocupadas_append, ocupadas_libre]
  refine List.Sublist.append (List.Sublist.refl _) ?_
  exact List.Sublist.filter _ (List.sublist_cons_self s B)

/-- A removal takes no slot under another key. -/
theorem micacheRemove_quedan {self self' : TableInfo} {key : Clave}
    (h : micacheRemove self key = some self') :
    ∀ s ∈ ocupadas self.elements, s.item.key = key ∨ s ∈ ocupadas self'.elements := by
  obtain ⟨A, s, B, hv, hoc, hkey, -, hv', -⟩ := micacheRemove_vista h
  intro u hu
  rw [← ocupadas_vista, hv, ocupadas_append, ocupadas_cons_of_true hoc] at hu
  rw [← ocupadas_vista, hv', ocupadas_append, ocupadas_libre]
  rcases List.mem_append.mp hu with hA | hr
  · exact Or.inr (List.mem_append_left _ hA)
  · rcases List.mem_cons.mp hr with rfl | hB
    · exact Or.inl hkey
    · exact Or.inr (List.mem_append_right _ hB)

/-- A removal returns when the key occupies a slot. -/
theorem micacheRemove_vuelve {t : TableInfo} {key : Clave} {s : Particion} (hs : s ∈ t.elements)
    (hoc : s.ocupado = true) (hkey : s.item.key = key) : ∃ t', micacheRemove t key = some t' := by
  unfold micacheRemove micacheRemoveElement
  cases h : ultimoIndice (coincide key) t.elements with
  | none =>
      have := ultimoIndice_eq_none.mp h s hs
      simp [coincide, hoc, hkey] at this
  | some pos => exact ⟨_, rfl⟩

/-- A replacement is the removal of the victim, logged. -/
theorem reemplazar_remove {ahora : Nat} {self self' : TableInfo}
    (h : reemplazar ahora self = some self') :
    ∃ key self₁, victima ahora self = some key ∧ micacheRemove self key = some self₁
      ∧ self' = { self₁ with bitacora := self₁.bitacora ++ [key] } := by
  unfold reemplazar lru at h
  obtain ⟨⟨self₁, key⟩, h1, rfl⟩ := Option.map_eq_some_iff.mp h
  cases hv : victima ahora self with
  | none => rw [hv] at h1; exact nomatch h1
  | some k =>
      rw [hv] at h1
      obtain ⟨self₂, h2, heq⟩ := Option.map_eq_some_iff.mp h1
      obtain ⟨rfl, rfl⟩ := Prod.mk.inj heq
      exact ⟨k, self₂, rfl, h2, rfl⟩

/-- An eviction takes one item at most, and records it. -/
theorem reemplazar_desaloja {ahora : Nat} {self self' : TableInfo}
    (h : reemplazar ahora self = some self') : SoloDesaloja self self' := by
  obtain ⟨key, self₁, -, hr, rfl⟩ := reemplazar_remove h
  obtain ⟨-, -, -, -, -, -, -, -, -, -, -, -, hb⟩ := micacheRemove_vista hr
  have hq : SoloQuita self self₁ := micacheRemove_soloQuita hr
  refine ⟨hq, [key], by rw [← hb], fun s hs => ?_⟩
  rcases micacheRemove_quedan hr s hs with hk | hs'
  · exact Or.inl (List.mem_singleton.mpr hk)
  · exact Or.inr hs'

/-- A replacement leaves one occupied slot less. -/
theorem reemplazar_ocupadas {a : Nat} {t t' : TableInfo} (hr : reemplazar a t = some t') :
    (ocupadas t'.elements).length + 1 = (ocupadas t.elements).length := by
  obtain ⟨key, t₁, -, hrem, rfl⟩ := reemplazar_remove hr
  obtain ⟨A, s, R, hv, hoc, -, -, hv', -⟩ := micacheRemove_vista hrem
  show (ocupadas t₁.elements).length + 1 = _
  rw [← ocupadas_vista, ← ocupadas_vista, hv, hv']
  simp only [ocupadas_append, ocupadas_cons_of_true hoc, ocupadas_libre, List.length_append,
    List.length_cons]
  omega

/-- The drop of an older item is nothing or the removal of its key. -/
theorem quitarPrevio_casos {self self' : TableInfo} {key : Clave}
    (h : quitarPrevio self key = some self') :
    (self' = self ∧ micacheSearchElement self key = none)
      ∨ micacheRemove self key = some self' := by
  unfold quitarPrevio at h
  cases hs : micacheSearchElement self key with
  | none =>
      rw [hs] at h
      exact Or.inl ⟨(Option.some.inj h).symm, rfl⟩
  | some pos =>
      rw [hs] at h
      exact Or.inr h

/-! ## Cleaning -/

/-- A flush kills the slot. -/
theorem limpiada_muerta (s : Particion) : muerta (limpiada s) := by
  cases h : s.ocupado <;> simp [limpiada, h, muerta]

@[simp] theorem limpiada_data (s : Particion) : (limpiada s).item.data = s.item.data := by
  cases h : s.ocupado <;> simp [limpiada, h]

/-- A slot brings the same to a flush when it is cleaned. -/
theorem aporteClean_limpia (c : Nat) (s : Particion) :
    aporteClean c (limpia s) = aporteClean c s := by
  cases h : s.ocupado with
  | true => rw [limpia_of_ocupado h]
  | false => simp [aporteClean, h]

/-- So does the table. -/
theorem map_aporteClean_vista (c : Nat) (self : TableInfo) :
    (vista self).map (aporteClean c) = self.elements.map (aporteClean c) := by
  simp only [vista, List.map_map]
  refine List.map_congr_left ?_
  intro s _
  exact aporteClean_limpia c s

/-- **CLEANING**: the first slot gets all the bytes the table accounts for and
    every other slot is dead. -/
theorem micacheClean_vista {self : TableInfo} {s : Particion} {B : List Particion}
    (h : vista self = s :: B) :
    ∃ D, (∀ d ∈ D, muerta d)
      ∧ vista (micacheClean self)
          = libre s.item.data ((vista self).map (aporteClean self.sizeChunk)).sum :: D
      ∧ D.length = B.length := by
  obtain ⟨s₀, B₀, hes, hs, hB⟩ := List.map_eq_cons_iff.mp h
  refine ⟨(B₀.map limpiada).map limpia, ?_, ?_, ?_⟩
  · intro d hd
    obtain ⟨t, ht, rfl⟩ := List.mem_map.mp hd
    obtain ⟨u, -, rfl⟩ := List.mem_map.mp ht
    exact muerta_limpia.mpr (limpiada_muerta u)
  · rw [map_aporteClean_vista]
    simp only [vista, micacheClean, TableInfo.modificar, hes, List.map_cons, List.modify_zero_cons]
    rw [List.cons.injEq]
    refine ⟨?_, rfl⟩
    have hoc : (limpiada s₀).ocupado = false := (limpiada_muerta s₀).1
    have hd : s₀.item.data = s.item.data := by rw [← hs]; simp
    simp [limpia, hoc, libre, hd]
  · rw [← hB]; simp

/-! ## GET and DELETE, call by call -/

/-- A hit cuts the table at a stored slot with the key. -/
theorem micacheSearchElement_parte {t : TableInfo} {key : Clave} {pos : Nat}
    (h : micacheSearchElement t key = some pos) :
    ∃ A s B, t.elements = A ++ s :: B ∧ A.length = pos ∧ s.ocupado = true
      ∧ s.item.stored = true ∧ s.item.key = key := by
  obtain ⟨A, s, B, hes, hA, hs, -⟩ := findIdx?_parte h
  simp only [coincideStored, Bool.and_eq_true, beq_iff_eq] at hs
  exact ⟨A, s, B, hes, hA, hs.1.1, hs.1.2, hs.2⟩

/-- The slot a rewrite leaves at its position. -/
theorem getD_modificar {t : TableInfo} {A B : List Particion} {s : Particion}
    (hes : t.elements = A ++ s :: B) (f : Particion → Particion) (d : Particion) :
    (t.modificar A.length f).elements.getD A.length d = f s := by
  simp only [TableInfo.modificar, hes, modify_mitad]
  exact getD_mitad d A (f s) B

/-- The `stored` mark of a slot. -/
def marcar (b : Bool) (s : Particion) : Particion :=
  { s with item := { s.item with stored := b } }

/-- The mark of `stored` is not part of the form. -/
theorem mismaForma_marcar (b : Bool) (s : Particion) : MismaForma s (marcar b s) :=
  ⟨rfl, rfl, rfl, rfl, rfl⟩

/-- The clock reading of a slot. -/
def usar (ahora : Nat) (s : Particion) : Particion := { s with ultimaVezUsada := ahora }

/-- The time of use is not part of the form. -/
theorem mismaForma_usar (ahora : Nat) (s : Particion) : MismaForma s (usar ahora s) :=
  ⟨rfl, rfl, rfl, rfl, rfl⟩

/-- A GET that misses changes nothing; one that hits answers with the bytes of
    a stored slot under the key and under `"lru"` renews its clock reading. -/
theorem opGet_casos {cfg : Config} {e : Entorno} {t t' : TableInfo} {key : Clave}
    {r : Respuesta} (h : opGet cfg e t key = some (t', r)) :
    (t' = t ∧ r = .keyEnoent ∧ micacheSearchElement t key = none) ∨
    ∃ A s B, t.elements = A ++ s :: B ∧ s.ocupado = true ∧ s.item.stored = true
      ∧ s.item.key = key ∧ r = .valor (Bytes.leer t.memoria s.item.data s.item.ndata)
      ∧ (cfg.algReemplazo = .fifo ∧ t' = t
        ∨ cfg.algReemplazo = .lru ∧ t' = t.modificar A.length (usar e.relojGet)) := by
  unfold opGet getInfo at h
  cases hs : micacheSearchElement t key with
  | none =>
      rw [hs] at h
      obtain ⟨rfl, rfl⟩ := Prod.mk.inj (Option.some.inj h)
      exact Or.inl ⟨rfl, rfl, rfl⟩
  | some pos =>
      obtain ⟨A, s, B, hes, rfl, hoc, hst, hkey⟩ := micacheSearchElement_parte hs
      rw [hs] at h
      refine Or.inr ⟨A, s, B, hes, hoc, hst, hkey, ?_⟩
      cases ha : cfg.algReemplazo with
      | fifo =>
          have hget : t.elements.getD A.length Particion.vacia = s := by
            rw [hes]; exact getD_mitad _ _ _ _
          rw [ha] at h
          simp only [itemRelease, getItemInfo, hget, hst, if_true, Option.map_some] at h
          obtain ⟨rfl, rfl⟩ := Prod.mk.inj (Option.some.inj h)
          exact ⟨rfl, Or.inl ⟨rfl, rfl⟩⟩
      | lru =>
          have hget := getD_modificar hes (usar e.relojGet) Particion.vacia
          have hlru : lruGet e.relojGet t A.length = t.modificar A.length (usar e.relojGet) := rfl
          have hst' : (usar e.relojGet s).item.stored = true := hst
          rw [ha] at h
          simp only [hlru, itemRelease, getItemInfo, hget, hst', if_true, Option.map_some] at h
          obtain ⟨rfl, rfl⟩ := Prod.mk.inj (Option.some.inj h)
          exact ⟨rfl, Or.inr ⟨rfl, rfl⟩⟩

/-- A DELETE that misses changes nothing; one that hits clears the mark of a
    stored slot under the key and removes the key. -/
theorem deleteOne_casos {t t' : TableInfo} {key : Clave} {b : Bool}
    (h : deleteOne t key = some (t', b)) :
    (t' = t ∧ micacheSearchElement t key = none) ∨
    ∃ A s B, t.elements = A ++ s :: B ∧ s.ocupado = true ∧ s.item.key = key
      ∧ micacheRemove (t.modificar A.length (marcar false)) key = some t' := by
  unfold deleteOne at h
  cases hs : micacheSearchElement t key with
  | none =>
      rw [hs] at h
      obtain ⟨rfl, -⟩ := Prod.mk.inj (Option.some.inj h)
      exact Or.inl ⟨rfl, rfl⟩
  | some pos =>
      obtain ⟨A, s, B, hes, rfl, hoc, -, hkey⟩ := micacheSearchElement_parte hs
      rw [hs] at h
      obtain ⟨t₁, h1, heq⟩ := Option.map_eq_some_iff.mp h
      obtain ⟨rfl, -⟩ := Prod.mk.inj heq
      refine Or.inr ⟨A, s, B, hes, hoc, hkey, ?_⟩
      have h1' : itemRelease (t.modificar A.length (marcar false)) A.length = some t₁ := h1
      simp only [itemRelease, getD_modificar hes (marcar false)] at h1'
      rw [if_neg (by simp [marcar]), show (marcar false s).item.key = key from hkey] at h1'
      exact h1'

end Rc
