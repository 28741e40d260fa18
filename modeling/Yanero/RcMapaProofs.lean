import Yanero.RcVista
import Yanero.Teselado

/-! # The cache as a lossy map

    The abstract model: a map from keys to values that every SET, DELETE and
    `flush_all` updates.  A table represents such a map when every occupied
    slot is stored under a key of its own and reads back the value the map
    has there; it may have lost any entry.  This file states the
    representation and proves it for the calls both schemes share. -/

namespace Rc

open Bucles Bytes Teselado

/-- What one occupied slot holds: key, stored flag and value bytes. -/
def entrada (m : Nat → UInt8) (s : Particion) : Clave × Bool × List UInt8 :=
  (s.item.key, s.item.stored, leer m s.item.data s.item.ndata)

/-- The entries of a table, in slot order. -/
def contenido (t : TableInfo) : List (Clave × Bool × List UInt8) :=
  (ocupadas t.elements).map (entrada t.memoria)

/-- What one operation does to the value under a key. -/
def siguiente (op : Op) (k : Clave) (v : Option (List UInt8)) : Option (List UInt8) :=
  match op with
  | .set k' valor => if k' = k then some valor else v
  | .get _ => v
  | .delete k' => if k' = k then none else v
  | .flushAll => none

/-- The value a history of operations leaves under a key: that of its last
    SET, unless a DELETE of it or a `flush_all` came later. -/
def ultimoSet (k : Clave) (ops : List Op) : Option (List UInt8) :=
  ops.foldl (fun v op => siguiente op k v) none

/-- A table represents a map: its entries are stored, are those of the map,
    and no key occurs twice. -/
structure Representa (σ : Clave → Option (List UInt8)) (t : TableInfo) : Prop where
  guardadas : ∀ x ∈ contenido t, x.2.1 = true ∧ σ x.1 = some x.2.2
  unicas : (contenido t).Pairwise fun x y => x.1 ≠ y.1

theorem Representa.sublist {σ : Clave → Option (List UInt8)} {t t' : TableInfo}
    (h : Representa σ t) (hs : (contenido t').Sublist (contenido t)) : Representa σ t' :=
  ⟨fun x hx => h.guardadas x (hs.subset hx), h.unicas.sublist hs⟩

theorem SoloQuita.contenido {t t' : TableInfo} (h : SoloQuita t t') :
    (contenido t').Sublist (contenido t) := by
  simp only [Rc.contenido, h.2]
  exact h.1.map _

theorem SoloDesaloja.contenido {t t' : TableInfo} (h : SoloDesaloja t t') :
    Registra (·.1) t.bitacora (contenido t) t'.bitacora (contenido t') := by
  obtain ⟨evs, hb, hx⟩ := h.registra
  refine ⟨evs, hb, ?_⟩
  intro x hxm
  obtain ⟨s, hs, rfl⟩ := List.mem_map.mp hxm
  rcases hx s hs with hk | hs'
  · exact Or.inl hk
  · refine Or.inr (List.mem_map.mpr ⟨s, hs', ?_⟩)
    rw [h.quita.2]

/-- The new value under one key. -/
def conValor (σ : Clave → Option (List UInt8)) (k : Clave) (v : Option (List UInt8)) :
    Clave → Option (List UInt8) :=
  fun x => if k = x then v else σ x

theorem Representa.sin {σ : Clave → Option (List UInt8)} {t : TableInfo} {k : Clave}
    (h : Representa σ t) (hk : ∀ x ∈ contenido t, x.1 ≠ k) (v : Option (List UInt8)) :
    Representa (conValor σ k v) t := by
  refine ⟨?_, h.unicas⟩
  intro x hx
  obtain ⟨h1, h2⟩ := h.guardadas x hx
  exact ⟨h1, by simp only [conValor, if_neg (hk x hx).symm]; exact h2⟩

/-- A fresh entry among entries of other keys. -/
theorem representa_alta {σ : Clave → Option (List UInt8)} {t t' : TableInfo} {k : Clave}
    {v : List UInt8} {X Y : List (Clave × Bool × List UInt8)} (h : Representa σ t)
    (hk : ∀ x ∈ contenido t, x.1 ≠ k) (hc : contenido t' = X ++ (k, true, v) :: Y)
    (hs : (X ++ Y).Sublist (contenido t)) : Representa (conValor σ k (some v)) t' := by
  have hXY : ∀ x ∈ X ++ Y, x.1 ≠ k := fun x hx => hk x (hs.subset hx)
  have hpw := h.unicas.sublist hs
  rw [List.pairwise_append] at hpw
  constructor
  · intro x hx
    rw [hc] at hx
    have hcase : x ∈ X ++ Y ∨ x = (k, true, v) := by
      simp only [List.mem_append, List.mem_cons] at hx ⊢
      tauto
    rcases hcase with hx | rfl
    · obtain ⟨h1, h2⟩ := h.guardadas x (hs.subset hx)
      exact ⟨h1, by simp only [conValor, if_neg (hXY x hx).symm]; exact h2⟩
    · exact ⟨rfl, by simp [conValor]⟩
  · rw [hc, List.pairwise_append]
    refine ⟨hpw.1, List.pairwise_cons.mpr ⟨?_, hpw.2.1⟩, ?_⟩
    · intro y hy
      exact (hXY y (by simp [hy])).symm
    · intro x hx y hy
      rcases List.mem_cons.mp hy with rfl | hy
      · exact hXY x (by simp [hx])
      · exact hpw.2.2 x hx y hy

/-- **A WRITE INSIDE ONE PARTITION** changes no entry of the others, when the
    partitions lie apart and every value fits its own. -/
theorem entradas_escribir {len : Particion → Int} {A B : List Particion} {o : Particion}
    {p q : Int} {m : Nat → UInt8} {v : List UInt8}
    (h : Cabe inicio len p (A ++ o :: B) q) (hlen : ∀ s ∈ A ++ o :: B, 0 ≤ len s)
    (hn : ∀ s ∈ A ++ o :: B, s.ocupado = true → (s.item.ndata : Int) ≤ len s)
    (hv : (v.length : Int) ≤ len o) :
    (ocupadas A ++ ocupadas B).map (entrada (escribir m o.item.data v))
      = (ocupadas A ++ ocupadas B).map (entrada m) := by
  refine List.map_congr_left ?_
  intro s hs
  have hfuera : s.item.data + s.item.ndata ≤ o.item.data
      ∨ o.item.data + v.length ≤ s.item.data := by
    rcases List.mem_append.mp hs with hs | hs
    · obtain ⟨hs, hoc⟩ := mem_ocupadas.mp hs
      obtain ⟨A₁, A₂, rfl⟩ := List.append_of_mem hs
      have hsep := cabe_separadas (A := A₁) (s := s) (B := A₂) (t := o) (C := B)
        (by simpa using h) (fun u hu => hlen u (by simp [hu]))
      have hns := hn s (by simp) hoc
      simp only [inicio] at hsep
      exact Or.inl (by omega)
    · obtain ⟨hs, -⟩ := mem_ocupadas.mp hs
      obtain ⟨B₁, B₂, rfl⟩ := List.append_of_mem hs
      have hsep := cabe_separadas (A := A) (s := o) (B := B₁) (t := s) (C := B₂)
        h (fun u hu => hlen u (by simp [hu]))
      simp only [inicio] at hsep
      exact Or.inr (by omega)
  simp only [entrada, leer_escribir_ajeno hfuera]

/-- Copy of the value, `store_info` and `item_release` on the handle of a new
    item: the bytes are written and the mark is set, so the release leaves the
    slot alone. -/
theorem guardar_some {t : TableInfo} {A R : List Particion} {o : Particion}
    (valor : List UInt8) (hes : t.elements = A ++ o :: R) :
    itemRelease (storeInfo (copiarValor t A.length valor) A.length) A.length = some { t with
      elements := A ++ marcar true o :: R
      memoria := escribir t.memoria o.item.data valor } := by
  have hsto : storeInfo (copiarValor t A.length valor) A.length = { t with
      elements := A ++ marcar true o :: R
      memoria := escribir t.memoria o.item.data valor } := by
    simp only [storeInfo, copiarValor, TableInfo.modificar, hes, getD_mitad, modify_mitad, marcar]
  rw [hsto]
  simp only [itemRelease, getD_mitad]
  rw [if_pos (by rfl)]

theorem guardar_eq {t t' : TableInfo} {A R : List Particion} {o : Particion}
    {valor : List UInt8} (hes : t.elements = A ++ o :: R)
    (h : itemRelease (storeInfo (copiarValor t A.length valor) A.length) A.length = some t') :
    t' = { t with
      elements := A ++ marcar true o :: R
      memoria := escribir t.memoria o.item.data valor } := by
  rw [guardar_some valor hes] at h
  exact (Option.some.inj h).symm

/-- **THE END OF A SET**, on the entries: the new one is there and the others
    are what they were. -/
theorem guardar_contenido {len : Particion → Int} {t t' : TableInfo}
    {A R L B D : List Particion} {o : Particion} {valor : List UInt8} {p q : Int}
    (hes : t.elements = A ++ o :: R) (hA : A.map limpia = L) (hR : R.map limpia = B ++ D)
    (hD : ∀ d ∈ D, muerta d) (hoc : o.ocupado = true) (hnd : o.item.ndata = valor.length)
    (hcabe : Cabe inicio len p (L ++ o :: B) q) (hlen : ∀ s ∈ L ++ o :: B, 0 ≤ len s)
    (hn : ∀ s ∈ L ++ o :: B, s.ocupado = true → (s.item.ndata : Int) ≤ len s)
    (h : itemRelease (storeInfo (copiarValor t A.length valor) A.length) A.length = some t') :
    ∃ X Y, contenido t' = X ++ (o.item.key, true, valor) :: Y
      ∧ X ++ Y = (ocupadas L ++ ocupadas B).map (entrada t.memoria) := by
  have hv : (valor.length : Int) ≤ len o := by rw [← hnd]; exact hn o (by simp) hoc
  have hsame := entradas_escribir (m := t.memoria) (v := valor) hcabe hlen hn hv
  have hoA : ocupadas A = ocupadas L := by rw [← hA, ocupadas_map_limpia]
  have hoR : ocupadas R = ocupadas B := by
    rw [← ocupadas_map_limpia, hR, ocupadas_append, ocupadas_muertas hD, List.append_nil]
  refine ⟨(ocupadas L).map (entrada (escribir t.memoria o.item.data valor)),
    (ocupadas B).map (entrada (escribir t.memoria o.item.data valor)), ?_, ?_⟩
  · rw [guardar_eq hes h]
    have hoc' : (marcar true o).ocupado = true := hoc
    have hent : entrada (escribir t.memoria o.item.data valor) (marcar true o)
        = (o.item.key, true, valor) := by
      simp only [entrada, marcar, hnd, leer_escribir]
    simp only [contenido, ocupadas_append, ocupadas_cons_of_true hoc', hoA, hoR,
      List.map_append, List.map_cons, hent]
  · rw [← List.map_append]
    exact hsame

/-! ## Search -/

/-- A key that is not found is not there, when every entry is stored. -/
theorem micacheSearchElement_none {σ : Clave → Option (List UInt8)} {t : TableInfo}
    {key : Clave} (hr : Representa σ t) (h : micacheSearchElement t key = none) :
    ∀ x ∈ contenido t, x.1 ≠ key := by
  intro x hx hk
  obtain ⟨hst, -⟩ := hr.guardadas x hx
  obtain ⟨s, hs, rfl⟩ := List.mem_map.mp hx
  obtain ⟨hs, hoc⟩ := mem_ocupadas.mp hs
  have hno := List.findIdx?_eq_none_iff.mp h s hs
  simp only [entrada] at hst hk
  simp [coincideStored, hoc, hst, hk] at hno

/-- Rewriting an occupied slot that stays occupied. -/
theorem contenido_modificar {t : TableInfo} {A B : List Particion} {s : Particion}
    (hes : t.elements = A ++ s :: B) (hoc : s.ocupado = true) (f : Particion → Particion)
    (hf : (f s).ocupado = true) :
    contenido t = (ocupadas A).map (entrada t.memoria) ++ entrada t.memoria s
        :: (ocupadas B).map (entrada t.memoria)
      ∧ contenido (t.modificar A.length f)
        = (ocupadas A).map (entrada t.memoria) ++ entrada t.memoria (f s)
          :: (ocupadas B).map (entrada t.memoria) := by
  constructor
  · simp [contenido, hes, ocupadas_cons_of_true hoc]
  · simp [contenido, TableInfo.modificar, hes, modify_mitad, ocupadas_cons_of_true hf]

/-! ## Removal -/

/-- After the removal of a key that occurs once, it does not occur. -/
theorem micacheRemove_contenido {t t' : TableInfo} {key : Clave}
    (hu : (contenido t).Pairwise fun x y => x.1 ≠ y.1) (h : micacheRemove t key = some t') :
    (contenido t').Sublist (contenido t) ∧ ∀ x ∈ contenido t', x.1 ≠ key := by
  refine ⟨(micacheRemove_soloQuita h).contenido, ?_⟩
  obtain ⟨A, s, B, hv, hoc, hkey, -, hv', -, -, -, hm, -⟩ := micacheRemove_vista h
  have hc : contenido t = (ocupadas A).map (entrada t.memoria) ++ entrada t.memoria s
      :: (ocupadas B).map (entrada t.memoria) := by
    rw [contenido, ← ocupadas_vista, hv, ocupadas_append, ocupadas_cons_of_true hoc]
    simp
  have hc' : contenido t' = (ocupadas A).map (entrada t.memoria)
      ++ (ocupadas B).map (entrada t.memoria) := by
    rw [contenido, hm, ← ocupadas_vista, hv', ocupadas_append, ocupadas_libre]
    simp
  rw [hc, List.pairwise_append, List.pairwise_cons] at hu
  obtain ⟨-, ⟨hB, -⟩, hA⟩ := hu
  have hek : (entrada t.memoria s).1 = key := hkey
  intro x hx
  rw [hc'] at hx
  rcases List.mem_append.mp hx with hx | hx
  · rw [← hek]; exact hA x hx _ (by simp)
  · rw [← hek]; exact (hB x hx).symm

/-- The drop of an older item at the start of `item_allocate`. -/
theorem quitarPrevio_representa {σ : Clave → Option (List UInt8)} {t t' : TableInfo}
    {key : Clave} (hr : Representa σ t) (h : quitarPrevio t key = some t') :
    Representa σ t' ∧ ∀ x ∈ contenido t', x.1 ≠ key := by
  rcases quitarPrevio_casos h with ⟨rfl, hs⟩ | hrem
  · exact ⟨hr, micacheSearchElement_none hr hs⟩
  · obtain ⟨h1, h2⟩ := micacheRemove_contenido hr.unicas hrem
    exact ⟨hr.sublist h1, h2⟩

/-! ## GET, DELETE and flush_all -/

/-- **GET** answers with the value of the map or not at all, and keeps the
    entries. -/
theorem opGet_representa {σ : Clave → Option (List UInt8)} {cfg : Config} {e : Entorno}
    {t t' : TableInfo} {key : Clave} {r : Respuesta} (hr : Representa σ t)
    (h : opGet cfg e t key = some (t', r)) :
    Representa σ t' ∧ (r = .keyEnoent ∨ ∃ v, r = .valor v ∧ σ key = some v) := by
  rcases opGet_casos h with ⟨rfl, rfl, -⟩ | ⟨A, s, B, hes, hoc, -, hkey, rfl, ht⟩
  · exact ⟨hr, Or.inl rfl⟩
  · have hσ : σ key = some (leer t.memoria s.item.data s.item.ndata) := by
      rw [← hkey]
      exact (hr.guardadas (entrada t.memoria s)
        (List.mem_map.mpr ⟨s, mem_ocupadas.mpr ⟨by rw [hes]; simp, hoc⟩, rfl⟩)).2
    refine ⟨?_, Or.inr ⟨_, rfl, hσ⟩⟩
    rcases ht with ⟨-, rfl⟩ | ⟨-, rfl⟩
    · exact hr
    · obtain ⟨hc, hc'⟩ := contenido_modificar hes hoc (usar e.relojGet) hoc
      have hsame : contenido (t.modificar A.length (usar e.relojGet)) = contenido t :=
        hc'.trans hc.symm
      exact hr.sublist (by rw [hsame])

/-- **DELETE** leaves no entry under the key. -/
theorem deleteOne_contenido {σ : Clave → Option (List UInt8)} {t t' : TableInfo} {key : Clave}
    {b : Bool} (hr : Representa σ t) (h : deleteOne t key = some (t', b)) :
    (contenido t').Sublist (contenido t) ∧ ∀ x ∈ contenido t', x.1 ≠ key := by
  rcases deleteOne_casos h with ⟨rfl, hs⟩ | ⟨A, s, B, hes, hoc, hkey, h1⟩
  · exact ⟨List.Sublist.refl _, micacheSearchElement_none hr hs⟩
  · obtain ⟨hc, hc'⟩ := contenido_modificar hes hoc (marcar false) hoc
    have hu' : (contenido (t.modificar A.length (marcar false))).Pairwise
        fun x y => x.1 ≠ y.1 := by
      have hkeys : (contenido (t.modificar A.length (marcar false))).map (·.1)
          = (contenido t).map (·.1) := by
        rw [hc, hc']; simp [entrada, marcar]
      have hu := hr.unicas
      rw [← List.pairwise_map (f := fun x : Clave × Bool × List UInt8 => x.1)
        (R := fun a b => a ≠ b)] at hu ⊢
      rw [hkeys]
      exact hu
    obtain ⟨hsub, hno⟩ := micacheRemove_contenido hu' h1
    refine ⟨?_, hno⟩
    -- the entry with the cleared mark is the one that went
    have hno' : entrada t.memoria (marcar false s) ∉ contenido t' := fun hx => hno _ hx hkey
    rw [hc'] at hsub
    rw [hc]
    obtain ⟨X, Y, hXY, hX, hY⟩ := List.sublist_append_iff.mp hsub
    have hY' : Y.Sublist ((ocupadas B).map (entrada t.memoria)) := by
      rcases List.sublist_cons_iff.mp hY with hY | ⟨Y', rfl, -⟩
      · exact hY
      · exact absurd (by rw [hXY]; simp) hno'
    rw [hXY]
    exact hX.append (hY'.cons _)

/-- **flush_all** leaves no entry. -/
theorem micacheClean_contenido (t : TableInfo) : contenido (micacheClean t) = [] := by
  have hno : ∀ s ∈ (micacheClean t).elements, s.ocupado = false := by
    intro s hs
    simp only [micacheClean, TableInfo.modificar] at hs
    obtain ⟨i, hi, rfl⟩ := List.mem_iff_getElem.mp hs
    rw [List.getElem_modify]
    split
    · simp only [List.getElem_map]; exact (limpiada_muerta _).1
    · simp only [List.getElem_map]; exact (limpiada_muerta _).1
  have : ocupadas (micacheClean t).elements = [] := by
    simp only [ocupadas, List.filter_eq_nil_iff]
    intro s hs
    simp [hno s hs]
  simp [contenido, this]

/-! ## Whole runs -/

/-- Every operation of a run meets `C` in the table it starts from. -/
def Cumple (cfg : Config) (C : Op → Entorno → TableInfo → Prop) :
    List (Op × Entorno) → TableInfo → Prop
  | [], _ => True
  | (op, e) :: resto, t =>
      C op e t ∧ ∀ x ∈ ejecutar cfg op e t, Cumple cfg C resto x.1

instance decidableCumple {cfg : Config} {C : Op → Entorno → TableInfo → Prop}
    [∀ op e t, Decidable (C op e t)] :
    ∀ (ops : List (Op × Entorno)) (t : TableInfo), Decidable (Cumple cfg C ops t)
  | [], _ => inferInstanceAs (Decidable True)
  | (op, e) :: resto, t =>
      have : ∀ t, Decidable (Cumple cfg C resto t) := decidableCumple resto
      inferInstanceAs
        (Decidable (C op e t ∧ ∀ x ∈ ejecutar cfg op e t, Cumple cfg C resto x.1))

/-- The key of a request fits the buffer of a slot. -/
def ClaveCorta : Op → Prop
  | .set key _ => key.length ≤ 60
  | .get key => key.length ≤ 60
  | .delete key => key.length ≤ 60
  | .flushAll => True

instance : DecidablePred ClaveCorta
  | .set key _ => inferInstanceAs (Decidable (key.length ≤ 60))
  | .get key => inferInstanceAs (Decidable (key.length ≤ 60))
  | .delete key => inferInstanceAs (Decidable (key.length ≤ 60))
  | .flushAll => inferInstanceAs (Decidable True)

/-- A value is no longer than the cache, and has at least `minimo` bytes. -/
def ValorEntra (cfg : Config) (minimo : Nat) : Op → Prop
  | .set _ valor => minimo ≤ valor.length ∧ valor.length ≤ cfg.blockSizeMax
  | .get _ => True
  | .delete _ => True
  | .flushAll => True

instance (cfg : Config) (minimo : Nat) : DecidablePred (ValorEntra cfg minimo)
  | .set _ valor =>
      inferInstanceAs (Decidable (minimo ≤ valor.length ∧ valor.length ≤ cfg.blockSizeMax))
  | .get _ => inferInstanceAs (Decidable True)
  | .delete _ => inferInstanceAs (Decidable True)
  | .flushAll => inferInstanceAs (Decidable True)

theorem cumple_of_forall {cfg : Config} {V : Op → Prop} :
    ∀ (ops : List (Op × Entorno)) (t : TableInfo), (∀ x ∈ ops, V x.1) →
      Cumple cfg (fun op _ _ => V op) ops t := by
  intro ops
  induction ops with
  | nil => intro t _; trivial
  | cons x ops ih =>
      intro t h
      exact ⟨h x (by simp), fun x' _ => ih x'.1 (fun y hy => h y (by simp [hy]))⟩

/-- **RUN RULE**: what every complete operation keeps, along its history,
    holds after every run. -/
theorem correr_regla {cfg : Config} {C : Op → Entorno → TableInfo → Prop}
    {P : List Op → TableInfo → Prop}
    (paso : ∀ {hist op e t t' r}, C op e t → P hist t →
      ejecutar cfg op e t = some (t', r) → P (hist ++ [op]) t') :
    ∀ (ops : List (Op × Entorno)) (hist : List Op) {t t' : TableInfo}, P hist t →
      Cumple cfg C ops t → correr cfg ops t = some t' → P (hist ++ ops.map Prod.fst) t' := by
  intro ops
  induction ops with
  | nil =>
      intro hist t t' hP _ h
      obtain rfl := Option.some.inj h
      simpa using hP
  | cons x ops ih =>
      intro hist t t' hP hC h
      obtain ⟨op, e⟩ := x
      obtain ⟨⟨t₁, r⟩, h1, h2⟩ := Option.bind_eq_some_iff.mp h
      have := ih (hist ++ [op]) (paso hC.1 hP h1) (hC.2 (t₁, r) h1) h2
      simpa using this

theorem ultimoSet_concat (k : Clave) (hist : List Op) (op : Op) :
    ultimoSet k (hist ++ [op]) = siguiente op k (ultimoSet k hist) := by
  simp [ultimoSet]

/-- **ONE OPERATION** on the map: all of them but SET, for either scheme. -/
theorem ejecutar_representa {cfg : Config} {op : Op} {e : Entorno} {hist : List Op}
    {t t' : TableInfo} {r : Respuesta} (hr : Representa (fun k => ultimoSet k hist) t)
    (hset : ∀ k v, op = .set k v → Representa (conValor (fun k => ultimoSet k hist) k (some v)) t')
    (h : ejecutar cfg op e t = some (t', r)) :
    Representa (fun k => ultimoSet k (hist ++ [op])) t' := by
  simp only [ultimoSet_concat]
  cases op with
  | set k v => exact hset k v rfl
  | get k => exact (opGet_representa hr h).1
  | delete k =>
      obtain ⟨⟨t₁, b⟩, h1, heq⟩ := Option.map_eq_some_iff.mp h
      obtain ⟨rfl, -⟩ := Prod.mk.inj heq
      obtain ⟨hsub, hno⟩ := deleteOne_contenido hr h1
      exact (hr.sublist hsub).sin hno none
  | flushAll =>
      obtain ⟨rfl, -⟩ := Prod.mk.inj (Option.some.inj h)
      constructor
      · intro x hx; rw [micacheClean_contenido] at hx; exact nomatch hx
      · rw [micacheClean_contenido]; exact List.Pairwise.nil

/-- The first table represents the empty history. -/
theorem cacheInitialize_representa (cfg : Config) :
    Representa (fun k => ultimoSet k []) (cacheInitialize cfg) := by
  have hno : ocupadas (cacheInitialize cfg).elements = [] := by
    simp only [ocupadas, List.filter_eq_nil_iff, cacheInitialize]
    intro s hs
    obtain ⟨i, hi, rfl⟩ := List.mem_iff_getElem.mp hs
    rw [List.getElem_modify]
    split <;> simp [Particion.vacia]
  constructor
  · intro x hx; simp [contenido, hno] at hx
  · simp [contenido, hno]

end Rc
