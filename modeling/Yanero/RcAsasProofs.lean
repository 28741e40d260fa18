import Yanero.RcConexiones
import Yanero.RcParticionesRunProofs
import Yanero.RcBuddyRunProofs

/-! # Handles over the table

    `item_allocate` returns the address of a slot, and the connection keeps it
    until `store_info`.  A handle is good while its slot stays occupied with
    its key, length and address (`Asa`).  Each routine of the engine is
    followed on one slot: which rewrites it makes elsewhere, and under which
    condition it leaves this one alone. -/

namespace Rc

open Bucles Corridas

/-- Slot `pos` is occupied by an item of `n` bytes at `a` under `key`. -/
def Asa (es : List Particion) (pos : Nat) (key : Clave) (n a : Nat) : Prop :=
  ∃ s, es[pos]? = some s ∧ s.ocupado = true ∧ s.item.key = key ∧ s.item.ndata = n
    ∧ s.item.data = a

/-- A rewrite of a slot that a handle does not see. -/
structure Ignora (f : Particion → Particion) : Prop where
  ocupado : ∀ s, (f s).ocupado = s.ocupado
  key : ∀ s, (f s).item.key = s.item.key
  ndata : ∀ s, (f s).item.ndata = s.item.ndata
  data : ∀ s, (f s).item.data = s.item.data

section Marco

variable {pos n a : Nat} {key : Clave} {es es' : List Particion}

/-- A handle depends on its own slot alone. -/
theorem Asa.of_eq (h : Asa es pos key n a) (he : es'[pos]? = es[pos]?) :
    Asa es' pos key n a := by
  obtain ⟨s, hs, hr⟩ := h
  exact ⟨s, he.trans hs, hr⟩

/-- The slot is in the table. -/
theorem Asa.lt (h : Asa es pos key n a) : pos < es.length := by
  obtain ⟨s, hs, -⟩ := h
  exact (List.getElem?_eq_some_iff.mp hs).1

/-- What the slot holds, read with any default. -/
theorem Asa.getD (h : Asa es pos key n a) (d : Particion) :
    (es.getD pos d).ocupado = true ∧ (es.getD pos d).item.data = a := by
  obtain ⟨s, hs, ho, -, -, hd⟩ := h
  have hg : es.getD pos d = s := by rw [List.getD_eq_getElem?_getD, hs]; rfl
  rw [hg]
  exact ⟨ho, hd⟩

/-- A change of another slot, or of a field a handle does not see, keeps it. -/
theorem Asa.modify {f : Particion → Particion} {i : Nat} (h : Asa es pos key n a)
    (hf : i ≠ pos ∨ Ignora f) : Asa (es.modify i f) pos key n a := by
  by_cases hi : i = pos
  · subst hi
    have hig : Ignora f := by
      rcases hf with hne | hig
      · exact absurd rfl hne
      · exact hig
    obtain ⟨s, hs, ho, hk, hn, hd⟩ := h
    refine ⟨f s, ?_, (hig.ocupado s).trans ho, (hig.key s).trans hk, (hig.ndata s).trans hn,
      (hig.data s).trans hd⟩
    rw [List.getElem?_modify, hs]
    simp
  · exact h.of_eq (getElem?_modify_otra f es hi)

/-- A loop of rewrites none of which the handle sees. -/
theorem Asa.iterar {f : Nat → List Particion → List Particion} {m : Nat}
    (h : Asa es pos key n a)
    (hf : ∀ i es, i < m → Asa es pos key n a → Asa (f i es) pos key n a) :
    Asa (iterar f m es) pos key n a :=
  iterar_invariante (f := f) (fun _ es => Asa es pos key n a) h hf

/-- A handle does not see the free bytes. -/
theorem ignora_disponibles (b : Particion → Int) :
    Ignora fun s => { s with bytesDisponibles := b s } := ⟨fun _ => rfl, fun _ => rfl,
  fun _ => rfl, fun _ => rfl⟩

/-- Nor the bytes lost. -/
theorem ignora_inutilizados (b : Particion → Int) :
    Ignora fun s => { s with bytesInutilizados := b s } := ⟨fun _ => rfl, fun _ => rfl,
  fun _ => rfl, fun _ => rfl⟩

end Marco

/-! ## Removal -/

/-- The removal of `key` frees a slot other than `pos`. -/
def bajaLejos (t : TableInfo) (key : Clave) (pos : Nat) : Prop :=
  ultimoIndice (coincide key) t.elements ≠ some pos

instance (t : TableInfo) (key : Clave) (pos : Nat) : Decidable (bajaLejos t key pos) :=
  inferInstanceAs (Decidable (_ ≠ _))

section Rutinas

variable {pos n a : Nat} {key : Clave} {t t' : TableInfo}

/-- A removal does not change the size of the table. -/
theorem micacheRemove_tableMaxSize {k : Clave} (h : micacheRemove t k = some t') :
    t'.tableMaxSize = t.tableMaxSize := by
  obtain ⟨A, s, B, hv, -, -, -, hv', -⟩ := micacheRemove_vista h
  rw [← length_vista, ← length_vista, hv, hv']
  simp

/-- A removal away from the slot keeps the handle. -/
theorem micacheRemove_asa {k : Clave} (h : Asa t.elements pos key n a) (hl : bajaLejos t k pos)
    (hr : micacheRemove t k = some t') : Asa t'.elements pos key n a := by
  unfold micacheRemove micacheRemoveElement at hr
  obtain ⟨⟨t₁, data⟩, h1, ht'⟩ := Option.map_eq_some_iff.mp hr
  obtain ⟨q, hq, h2⟩ := Option.map_eq_some_iff.mp h1
  obtain ⟨rfl, -⟩ := Prod.mk.inj h2
  have hne : q ≠ pos := by
    rintro rfl
    exact hl hq
  have hmod := h.modify (f := liberada t.sizeChunk) (Or.inl hne)
  rw [← ht']
  dsimp only
  split <;> exact hmod

/-- An eviction does not change the size either. -/
theorem reemplazar_tableMaxSize {ahora : Nat} (hr : reemplazar ahora t = some t') :
    t'.tableMaxSize = t.tableMaxSize := by
  obtain ⟨k, t₁, -, h1, rfl⟩ := reemplazar_remove hr
  show t₁.tableMaxSize = _
  exact micacheRemove_tableMaxSize h1

/-- An eviction whose victim is away from the slot keeps the handle. -/
theorem reemplazar_asa {ahora : Nat} (h : Asa t.elements pos key n a)
    (hl : ∀ k ∈ victima ahora t, bajaLejos t k pos) (hr : reemplazar ahora t = some t') :
    Asa t'.elements pos key n a := by
  obtain ⟨k, t₁, hv, h1, rfl⟩ := reemplazar_remove hr
  show Asa t₁.elements pos key n a
  exact micacheRemove_asa h (hl k hv) h1

/-! ## The dynamic scheme -/

/-- The merge of the hole of `k` slots at `p` leaves slot `pos` in its place:
    there is nothing to merge, or the slot stands before the hole, or it is
    one of the last, which the merge does not reach. -/
def huecoLejos (t : TableInfo) (p k pos : Nat) : Prop :=
  k ≤ 1 ∨ pos ≤ p ∨ (p + k ≤ pos ∧ t.tableMaxSize ≤ pos + k)

instance (t : TableInfo) (p k pos : Nat) : Decidable (huecoLejos t p k pos) :=
  inferInstanceAs (Decidable (_ ∨ _ ∨ _))

/-- A merge of free slots keeps the size. -/
theorem unirHueco_tableMaxSize (t : TableInfo) (p k : Nat) (total : Int) :
    (unirHueco t p k total).tableMaxSize = t.tableMaxSize := by
  unfold unirHueco
  dsimp only
  split
  · simp only [TableInfo.tableMaxSize, juntarParticionesVacias]
    rw [length_iterar (fun i es => by simp), length_iterar (fun i es => by simp)]
    simp
  · simp [TableInfo.tableMaxSize]

/-- A merge away from the slot keeps the handle. -/
theorem unirHueco_asa {p k : Nat} {total : Int} (h : Asa t.elements pos key n a)
    (hl : huecoLejos t p k pos) : Asa (unirHueco t p k total).elements pos key n a := by
  have h₁ : Asa (t.elements.modify p fun s => { s with bytesDisponibles := total }) pos key n a :=
    h.modify (Or.inr (ignora_disponibles _))
  have hlt := h.lt
  unfold unirHueco
  dsimp only
  split
  · -- every slot the two loops rewrite stands away from `pos`
    rename_i hk
    have hlej : pos ≤ p ∨ (p + k ≤ pos ∧ t.tableMaxSize ≤ pos + k) := by
      rcases hl with h1 | h1
      · omega
      · exact h1
    refine (h₁.iterar ?_).iterar ?_
    · intro i es hi hes
      exact hes.modify (Or.inl (by omega))
    · intro i es hi hes
      exact hes.modify (Or.inl (by simp only [TableInfo.tableMaxSize] at *; omega))
  · exact h₁

/-- A shift above the slot keeps the handle. -/
theorem desplazarArriba_asa {topos cantVacios : Nat} (h : Asa t.elements pos key n a)
    (hp : pos < topos) : Asa (desplazarArriba t topos cantVacios).elements pos key n a :=
  (h.modify (Or.inl (by omega))).modify (Or.inl (by omega))

/-- One turn of the sweep keeps the size. -/
theorem compactar_tableMaxSize (t : TableInfo) (i : Nat) :
    (compactar t i).1.tableMaxSize = t.tableMaxSize := by
  have hmov : ∀ (m k : Nat) (es : List Particion), es.length = t.tableMaxSize →
      (iterar (fun j u => desplazarArriba u (i + j) k) m
        { t with elements := es }).tableMaxSize = t.tableMaxSize := by
    intro m k es hes
    refine iterar_invariante (f := fun j u => desplazarArriba u (i + j) k)
      (s := { t with elements := es })
      (fun _ (u : TableInfo) => u.tableMaxSize = t.tableMaxSize) hes ?_
    intro j u _ hu
    simpa [desplazarArriba, TableInfo.tableMaxSize] using hu
  unfold compactar
  dsimp only
  split
  · simp only [TableInfo.tableMaxSize, List.length_modify]
    rw [length_iterar (fun i es => by simp)]
  · split
    · simp only [TableInfo.tableMaxSize]
      rw [length_iterar (fun i es => by simp), length_iterar (fun i es => by simp)]
    · split <;>
      · rw [modificar_tableMaxSize]
        refine hmov _ _ _ ?_
        rw [length_iterar (fun i es => by simp), length_iterar (fun i es => by simp)]
        rfl

/-- A compaction at a later slot. -/
theorem compactar_asa {i : Nat} (h : Asa t.elements pos key n a) (hi : pos < i) :
    Asa (compactar t i).1.elements pos key n a := by
  have hmov : ∀ (m k : Nat) (es : List Particion), Asa es pos key n a →
      Asa (iterar (fun j u => desplazarArriba u (i + j) k) m
        { t with elements := es }).elements pos key n a := by
    intro m k es hes
    exact iterar_invariante (f := fun j u => desplazarArriba u (i + j) k)
      (s := { t with elements := es }) (fun _ (u : TableInfo) => Asa u.elements pos key n a) hes
      (fun j u _ hu => desplazarArriba_asa hu (by omega))
  have h₁ : ∀ m, Asa (iterar (fun j es => es.modify (i + j)
      fun s => { s with bytesDisponibles := 0 }) m t.elements) pos key n a :=
    fun m => h.iterar fun j es _ hes => hes.modify (Or.inr (ignora_disponibles _))
  have h₂ : ∀ m k es, Asa es pos key n a → Asa (iterar (fun j es => es.modify (i + k + j)
      fun s => { s with bytesInutilizados := 0 }) m es) pos key n a :=
    fun m k es hes => hes.iterar fun j es _ hes => hes.modify (Or.inr (ignora_inutilizados _))
  unfold compactar
  dsimp only
  split
  · exact (h₁ _).modify (Or.inl (by omega))
  · split
    · exact h₂ _ _ _ (h₁ _)
    · split
      · exact (hmov _ _ _ (h₂ _ _ _ (h₁ _))).modify (Or.inr (ignora_inutilizados _))
      · exact (hmov _ _ _ (h₂ _ _ _ (h₁ _))).modify (Or.inl (by omega))

/-- A sweep leaves slot `pos` in its place: no free slot stands before it. -/
def barridoLejos (t : TableInfo) (pos : Nat) : Prop :=
  ∀ s ∈ t.elements.take pos, s.ocupado = true

instance (t : TableInfo) (pos : Nat) : Decidable (barridoLejos t pos) :=
  inferInstanceAs (Decidable (∀ s ∈ t.elements.take pos, s.ocupado = true))

/-- The whole sweep keeps the size. -/
theorem barrer_tableMaxSize {fuera : Nat → Particion} {vueltas i : Nat}
    (hr : barrer fuera vueltas i t = some t') : t'.tableMaxSize = t.tableMaxSize := by
  obtain ⟨-, hb⟩ := barrer_regla (P := fun _ u => u.tableMaxSize = t.tableMaxSize)
    (fun _ _ hu _ => hu) (fun i u hu _ => (compactar_tableMaxSize u i).trans hu) vueltas i rfl hr
  exact hb

/-- A sweep of the part above the slot keeps the handle. -/
theorem barrer_asa {fuera : Nat → Particion} {vueltas : Nat} (h : Asa t.elements pos key n a)
    (hl : barridoLejos t pos) (hr : barrer fuera vueltas 0 t = some t') :
    Asa t'.elements pos key n a := by
  -- every slot up to `pos` is occupied, so the sweep compacts after it only
  obtain ⟨-, hj⟩ := barrer_regla
    (P := fun _ u => ∀ q ≤ pos, ∀ key n a, Asa t.elements q key n a → Asa u.elements q key n a)
    (fun _ _ hu _ => hu)
    (fun i u hu ho q hq key n a hq' => by
      refine compactar_asa (hu q hq key n a hq') ?_
      by_contra hle
      have hi : i < t.elements.length := by have := h.lt; omega
      have hocup : (t.elements[i]).ocupado = true := by
        by_cases hip : i = pos
        · obtain ⟨s, hs, hso, -⟩ := h
          have := List.getElem?_eq_some_iff.mp hs
          subst hip
          rw [this.2]
          exact hso
        · exact hl _ (List.mem_take_iff_getElem.mpr ⟨i, by omega, rfl⟩)
      obtain ⟨s, hs, hso, -⟩ := hu i (by omega) _ _ _
        ⟨t.elements[i], List.getElem?_eq_getElem hi, hocup, rfl, rfl, rfl⟩
      rw [TableInfo.leer, List.getD_eq_getElem?_getD, hs] at ho
      rw [show (some s).getD (fuera i) = s from rfl, hso] at ho
      cases ho) vueltas 0 (fun _ _ _ _ _ hq => hq) hr
  exact hj pos (Nat.le_refl _) key n a h

/-- A hole lies inside the table and has room. -/
theorem hueco_cota {alg : AlgBusqueda} {m p k : Nat} {total : Int}
    (h : hueco alg t m = some (p, k, total)) :
    p < t.tableMaxSize ∧ p + k ≤ t.tableMaxSize ∧ (m : Int) ≤ total := by
  have hcorrida := hueco_regla (P := fun i _ k p => p ≤ i - 1 ∧ p + k ≤ i) (by simp) ?_ ?_ ?_ h
  · obtain ⟨i, hi, ⟨hp, hpk⟩, hm, -⟩ := hcorrida
    exact ⟨by omega, by omega, hm⟩
  · rintro i b k p s - ⟨hp, hpk⟩
    exact ⟨by omega, by omega⟩
  · rintro i b k p s - - - ⟨hp, hpk⟩
    exact ⟨by omega, by omega⟩
  · rintro i b k p s - - - ⟨hp, hpk⟩
    split
    · exact ⟨by omega, by omega⟩
    · exact ⟨by omega, by omega⟩

/-- A hole starts inside the table. -/
theorem hueco_lt {alg : AlgBusqueda} {m p k : Nat} {total : Int}
    (h : hueco alg t m = some (p, k, total)) : p < t.tableMaxSize := (hueco_cota h).1

/-- The placement loop of the dynamic scheme keeps the size of the table and
    returns one of its slots. -/
theorem compactacion_lt {cfg : Config} {e : Entorno} {m : Nat} :
    ∀ (vueltas fallidas : Nat) {t t' : TableInfo} {i : Nat},
      compactacion cfg e m vueltas fallidas t = some (t', i) →
      t'.tableMaxSize = t.tableMaxSize ∧ i < t.tableMaxSize := by
  intro vueltas
  induction vueltas with
  | zero => intro fallidas t t' i h; exact nomatch h
  | succ v ih =>
      intro fallidas t t' i h
      have hbarrer : (barrer e.fuera e.vueltas 0 t).bind (compactacion cfg e m v (fallidas + 1))
          = some (t', i) → t'.tableMaxSize = t.tableMaxSize ∧ i < t.tableMaxSize := by
        intro h
        obtain ⟨t₁, h1, h2⟩ := Option.bind_eq_some_iff.mp h
        have := ih _ h2
        rwa [barrer_tableMaxSize h1] at this
      simp only [compactacion, buscarLugar_hueco] at h
      cases hh : hueco cfg.algBusqueda t m with
      | some r =>
          obtain ⟨p, k, total⟩ := r
          rw [hh] at h
          obtain ⟨rfl, rfl⟩ := Prod.mk.inj (Option.some.inj h)
          exact ⟨unirHueco_tableMaxSize t p k total, hueco_lt hh⟩
      | none =>
          simp only [hh, Option.map_none] at h
          split at h
          · exact hbarrer h
          · split at h
            · obtain ⟨t₁, h1, h2⟩ := Option.bind_eq_some_iff.mp h
              have := ih _ h2
              rwa [reemplazar_tableMaxSize h1] at this
            · exact hbarrer h

/-- The placement of the dynamic partitions keeps the handle, when every turn keeps
    away from its slot. -/
theorem compactacion_asa {cfg : Config} {e : Entorno} {m : Nat} :
    ∀ (vueltas fallidas : Nat) {t t' : TableInfo} {i : Nat}, Asa t.elements pos key n a →
      EnCadaVuelta cfg e m (fun t p k _ => huecoLejos t p k pos) (fun t => barridoLejos t pos)
        (fun t k => bajaLejos t k pos) vueltas fallidas t →
      compactacion cfg e m vueltas fallidas t = some (t', i) → Asa t'.elements pos key n a := by
  intro vueltas
  induction vueltas with
  | zero => intro fallidas t t' i _ _ h; exact nomatch h
  | succ v ih =>
      intro fallidas t t' i h hv hr
      simp only [compactacion, buscarLugar_hueco] at hr
      simp only [EnCadaVuelta] at hv
      cases hh : hueco cfg.algBusqueda t m with
      | some r =>
          obtain ⟨p, k, total⟩ := r
          rw [hh] at hr
          obtain ⟨rfl, rfl⟩ := Prod.mk.inj (Option.some.inj hr)
          exact unirHueco_asa h (hv.1 (p, k, total) hh)
      | none =>
          replace hv := hv.2 hh
          simp only [hh, Option.map_none] at hr
          have hbarrer : ((fallidas + 1 : Nat) : Int) = cfg.frecuenciaCompactacion
                ∨ t.elementsAmount = 0 →
              (barrer e.fuera e.vueltas 0 t).bind (compactacion cfg e m v (fallidas + 1))
                = some (t', i) → Asa t'.elements pos key n a := by
            intro hcond hb
            obtain ⟨t₁, h1, h2⟩ := Option.bind_eq_some_iff.mp hb
            rw [if_pos hcond] at hv
            exact ih _ (barrer_asa h hv.1 h1) (hv.2 t₁ h1) h2
          by_cases hfrec : ((fallidas + 1 : Nat) : Int) = cfg.frecuenciaCompactacion
          · rw [if_pos hfrec] at hr
            exact hbarrer (Or.inl hfrec) hr
          · rw [if_neg hfrec] at hr
            by_cases hcant : t.elementsAmount ≠ 0
            · rw [if_pos hcant] at hr
              rw [if_neg (by tauto)] at hv
              obtain ⟨t₁, h1, h2⟩ := Option.bind_eq_some_iff.mp hr
              exact ih _ (reemplazar_asa h hv.1 h1) (hv.2 t₁ h1) h2
            · rw [if_neg hcant] at hr
              exact hbarrer (Or.inr (by simpa using hcant)) hr

/-! ## The buddy scheme -/

/-- The shift of a split keeps the size. -/
theorem desplazarUnoAbajo_tableMaxSize (e : Entorno) (t : TableInfo) (i : Nat) (part : Int) :
    (desplazarUnoAbajo e t i part).tableMaxSize = t.tableMaxSize := by
  unfold desplazarUnoAbajo
  dsimp only
  split <;>
  · simp only [TableInfo.tableMaxSize, List.length_modify]
    rw [length_iterar (fun i es => by simp)]

/-- A split at a later slot. -/
theorem desplazarUnoAbajo_asa {e : Entorno} {i : Nat} {part : Int}
    (h : Asa t.elements pos key n a) (hi : pos < i) :
    Asa (desplazarUnoAbajo e t i part).elements pos key n a := by
  have h₁ : Asa (iterar (fun j es => es.modify (t.tableMaxSize - 1 - j)
      (copiarDescriptor (es.getD (t.tableMaxSize - 1 - j - 1) Particion.vacia)))
      (t.tableMaxSize - 1 - i) t.elements) pos key n a :=
    h.iterar fun j es hj hes => hes.modify (Or.inl (by omega))
  have h₂ : ∀ (f g k : Particion → Particion), Asa ((((iterar (fun j es =>
      es.modify (t.tableMaxSize - 1 - j)
        (copiarDescriptor (es.getD (t.tableMaxSize - 1 - j - 1) Particion.vacia)))
      (t.tableMaxSize - 1 - i) t.elements).modify i f).modify i g).modify (i + 1) k)
      pos key n a := fun f g k =>
    ((h₁.modify (Or.inl (by omega))).modify (Or.inl (by omega))).modify (Or.inl (by omega))
  unfold desplazarUnoAbajo
  dsimp only
  split
  · exact (h₂ _ _ _).modify (Or.inl (by omega))
  · exact h₂ _ _ _

/-- All splits of a search keep the size. -/
theorem partir_tableMaxSize {e : Entorno} {m i : Nat} :
    ∀ (vueltas : Nat) {part : Int} {t t' : TableInfo}, partir e m i vueltas part t = some t' →
      t'.tableMaxSize = t.tableMaxSize := by
  intro vueltas
  induction vueltas with
  | zero => intro part t t' h; exact nomatch h
  | succ v ih =>
      intro part t t' h
      rw [partir] at h
      split at h
      · split at h
        · exact (ih h).trans (desplazarUnoAbajo_tableMaxSize e t i part)
        · exact ih h
      · rw [Option.some.inj h]

/-- The splits happen above the slot they start from. -/
theorem partir_asa {e : Entorno} {m i : Nat} (hi : pos < i) :
    ∀ (vueltas : Nat) {part : Int} {t t' : TableInfo}, Asa t.elements pos key n a →
      partir e m i vueltas part t = some t' → Asa t'.elements pos key n a := by
  intro vueltas
  induction vueltas with
  | zero => intro part t t' _ h; exact nomatch h
  | succ v ih =>
      intro part t t' h hr
      rw [partir] at hr
      split at hr
      · split at hr
        · exact ih (desplazarUnoAbajo_asa h hi) hr
        · exact ih h hr
      · rw [← Option.some.inj hr]
        exact h

/-- With no half to split off, the halving loop does nothing. -/
theorem partir_entera {e : Entorno} {m i : Nat} {part : Int}
    (h : part < m ∨ part < t.sizeChunk) :
    ∀ (vueltas : Nat), partir e m i vueltas part t = some t' → t' = t := by
  intro vueltas hr
  cases vueltas with
  | zero => exact nomatch hr
  | succ v =>
      rw [partir] at hr
      split at hr
      · rw [if_neg (by omega)] at hr
        cases v with
        | zero => cases hr
        | succ v =>
            rw [partir, if_neg (by omega)] at hr
            exact (Option.some.inj hr).symm
      · exact (Option.some.inj hr).symm

/-- The block of slot `i` is halved for `m` bytes without moving slot `pos`:
    the slot stands before it, or there is nothing to halve. -/
def mitadLejos (t : TableInfo) (m i pos : Nat) : Prop :=
  let mitad := (t.elements.getD i Particion.vacia).bytesDisponibles.tdiv 2
  pos < i ∨ mitad < m ∨ mitad < t.sizeChunk

instance (t : TableInfo) (m i pos : Nat) : Decidable (mitadLejos t m i pos) :=
  inferInstanceAs (Decidable (_ ∨ _ ∨ _))

/-- A search of the buddy scheme keeps the size and answers a slot of the table. -/
theorem buscarHueco_lt {e : Entorno} {m i : Nat} (h : buscarHueco e t m = some (some (t', i))) :
    t'.tableMaxSize = t.tableMaxSize ∧ i < t.tableMaxSize := by
  unfold buscarHueco at h
  cases hh : huecoBuddy t m with
  | none => rw [hh] at h; exact nomatch h
  | some j =>
      rw [hh] at h
      obtain ⟨t₁, hp, heq⟩ := Option.map_eq_some_iff.mp h
      obtain ⟨rfl, rfl⟩ := Prod.mk.inj (Option.some.inj heq)
      obtain ⟨A, s, B, hes, rfl, -⟩ := findIdx?_parte hh
      refine ⟨partir_tableMaxSize _ hp, ?_⟩
      rw [TableInfo.tableMaxSize, hes]
      simp

/-- A search whose splits are above the slot keeps the handle. -/
theorem buscarHueco_asa {e : Entorno} {m i : Nat} (h : Asa t.elements pos key n a)
    (hl : ∀ j ∈ huecoBuddy t m, mitadLejos t m j pos)
    (hr : buscarHueco e t m = some (some (t', i))) : Asa t'.elements pos key n a := by
  unfold buscarHueco at hr
  cases hh : huecoBuddy t m with
  | none => rw [hh] at hr; exact nomatch hr
  | some j =>
      rw [hh] at hr
      obtain ⟨t₁, hp, heq⟩ := Option.map_eq_some_iff.mp hr
      obtain ⟨rfl, rfl⟩ := Prod.mk.inj (Option.some.inj heq)
      rcases hl j hh with hlt | hent
      · exact partir_asa hlt _ h hp
      · rw [partir_entera hent _ hp]
        exact h

/-- A search without an answer saw no free slot that fits. -/
theorem buscarHueco_none {e : Entorno} {m : Nat} (h : buscarHueco e t m = some none) :
    huecoBuddy t m = none := by
  unfold buscarHueco at h
  cases hh : huecoBuddy t m with
  | none => rfl
  | some j =>
      rw [hh] at h
      obtain ⟨t₁, -, heq⟩ := Option.map_eq_some_iff.mp h
      exact nomatch heq

/-- The bytes before slot `i`, as a merging pass counts them. -/
def acumHasta (t : TableInfo) (i : Nat) : Int :=
  ((t.elements.take i).map (largoBuddy t.sizeChunk)).sum

/-- The sister a merging pass looks at for slot `i`. -/
def hermanaDe (t : TableInfo) (i : Nat) : Particion :=
  let s := t.elements.getD i Particion.vacia
  if ((acumHasta t i).tdiv s.bytesDisponibles).tmod 2 = 0 then
    t.elements.getD (i + 1) Particion.vacia
  else t.elements.getD (i - 1) Particion.vacia

/-- Slot `i` and its sister are free blocks of one length. -/
def tieneHermana (t : TableInfo) (i : Nat) : Prop :=
  let s := t.elements.getD i Particion.vacia
  s.ocupado = false ∧ s.bytesDisponibles ≠ 0 ∧ (hermanaDe t i).ocupado = false
    ∧ (hermanaDe t i).bytesDisponibles = s.bytesDisponibles

instance (t : TableInfo) (i : Nat) : Decidable (tieneHermana t i) :=
  inferInstanceAs (Decidable (_ ∧ _ ∧ _ ∧ _))

/-- The merges leave slot `pos` in its place: no two sisters stand before
    it. -/
def unionLejos (t : TableInfo) (pos : Nat) : Prop := ∀ i < pos, ¬ tieneHermana t i

instance (t : TableInfo) (pos : Nat) : Decidable (unionLejos t pos) :=
  inferInstanceAs (Decidable (∀ i < pos, ¬ tieneHermana t i))

/-- Two tables agree on their first slots. -/
structure MismoInicio (pos : Nat) (t t' : TableInfo) : Prop where
  slots : ∀ q ≤ pos, t'.elements[q]? = t.elements[q]?
  chunk : t'.sizeChunk = t.sizeChunk
  largo : t'.tableMaxSize = t.tableMaxSize

/-- A table has its own beginning. -/
theorem MismoInicio.refl (pos : Nat) (t : TableInfo) : MismoInicio pos t t :=
  ⟨fun _ _ => rfl, rfl, rfl⟩

/-- Two changes above the slot are one. -/
theorem MismoInicio.trans {t'' : TableInfo} (h : MismoInicio pos t t')
    (h' : MismoInicio pos t' t'') : MismoInicio pos t t'' :=
  ⟨fun q hq => (h'.slots q hq).trans (h.slots q hq), h'.chunk.trans h.chunk,
    h'.largo.trans h.largo⟩

/-- Every slot up to the position reads the same. -/
theorem MismoInicio.getD (h : MismoInicio pos t t') {q : Nat} (hq : q ≤ pos) (d : Particion) :
    t'.elements.getD q d = t.elements.getD q d := by
  rw [List.getD_eq_getElem?_getD, List.getD_eq_getElem?_getD, h.slots q hq]

/-- Whether a merge is away depends on the beginning alone. -/
theorem MismoInicio.unionLejos (h : MismoInicio pos t t') (hl : unionLejos t pos) :
    unionLejos t' pos := by
  intro i hi
  have htake : t'.elements.take i = t.elements.take i := by
    refine List.ext_getElem? fun q => ?_
    rw [List.getElem?_take, List.getElem?_take]
    split
    · exact h.slots q (by omega)
    · rfl
  have hacum : acumHasta t' i = acumHasta t i := by
    unfold acumHasta
    rw [htake, h.chunk]
  have hherm : hermanaDe t' i = hermanaDe t i := by
    unfold hermanaDe
    rw [hacum, h.getD (by omega), h.getD (by omega), h.getD (by omega)]
  have := hl i hi
  unfold tieneHermana at this ⊢
  rw [hherm, h.getD (by omega)]
  exact this

/-- The shift of a merge moves the slots above. -/
theorem desplazarUnoArriba_inicio {p : Nat} (hp : pos < p) :
    MismoInicio pos t (desplazarUnoArriba t p) := by
  refine ⟨fun q hq => ?_, rfl, ?_⟩
  · refine iterar_modify_otra (fun i es _ => ?_) t.elements
    rw [getElem?_modify_otra _ _ (by omega), getElem?_modify_otra _ _ (by omega)]
  · exact length_iterar (fun i es => by simp) t.elements

/-- A merge with the buddy above keeps the beginning. -/
theorem unirHermana_inicio {arriba : Nat} {s : Particion} (hp : pos < arriba) :
    MismoInicio pos t (unirHermana t arriba s) := by
  have hmod : ∀ f, MismoInicio pos t (t.modificar (arriba + 1) f) := fun f =>
    ⟨fun q hq => getElem?_modify_otra _ _ (by omega), rfl, modificar_tableMaxSize _ _ _⟩
  exact (hmod _).trans (desplazarUnoArriba_inicio hp)

/-- The bytes before the next slot. -/
theorem acumHasta_succ {i : Nat} (hi : i < t.elements.length) :
    acumHasta t (i + 1)
      = acumHasta t i + largoBuddy t.sizeChunk (t.elements.getD i Particion.vacia) := by
  unfold acumHasta
  rw [List.take_succ_eq_append_getElem hi, List.getD_eq_getElem _ _ hi, List.map_append,
    List.sum_append]
  simp

/-- A turn of a merging pass at a slot without a sister only counts it. -/
theorem unirTurno_quieta {fuera : Nat → Particion} {i : Nat} {b : Bool}
    (hi : i + 1 < t.elements.length) (hs : ¬ tieneHermana t i) :
    unirTurno fuera i ⟨t, acumHasta t i, b⟩ = ⟨t, acumHasta t (i + 1), b⟩ := by
  have hleer : ∀ j, j ≤ i + 1 → t.leer fuera j = t.elements.getD j Particion.vacia := by
    intro j hj
    rw [TableInfo.leer, List.getD_eq_getElem _ _ (by omega), List.getD_eq_getElem _ _ (by omega)]
  rw [acumHasta_succ (by omega)]
  unfold tieneHermana hermanaDe at hs
  unfold unirTurno
  dsimp only at hs ⊢
  rw [hleer i (by omega), hleer (i + 1) (by omega), hleer (i - 1) (by omega)]
  generalize t.elements.getD i Particion.vacia = s at hs ⊢
  cases ho : s.ocupado with
  | true => simp [largoBuddy, ho]
  | false =>
      by_cases hb : s.bytesDisponibles = 0
      · simp [largoBuddy, ho, hb]
      · by_cases hpar : ((acumHasta t i).tdiv s.bytesDisponibles).tmod 2 = 0
        · simp only [hpar, if_true] at hs
          simp only [Bool.not_false, Bool.true_and, bne_iff_ne, ne_eq, hb,
            not_false_eq_true, if_true, hpar, largoBuddy_of_libre ho]
          rw [if_neg]
          simp only [Bool.and_eq_true, Bool.not_eq_true', beq_iff_eq]
          exact fun h => hs ⟨ho, hb, h.1, h.2⟩
        · simp only [hpar, if_false] at hs
          simp only [Bool.not_false, Bool.true_and, bne_iff_ne, ne_eq, hb,
            not_false_eq_true, if_true, hpar, if_false, largoBuddy_of_libre ho]
          rw [if_neg]
          simp only [Bool.and_eq_true, Bool.not_eq_true', beq_iff_eq]
          exact fun h => hs ⟨ho, hb, h.1, h.2⟩

/-- A turn of a merging pass at an occupied slot or after it. -/
theorem unirTurno_inicio {fuera : Nat → Particion} {p : Pasada} {i : Nat}
    (h : Asa p.self.elements pos key n a) (hi : pos ≤ i) :
    MismoInicio pos p.self (unirTurno fuera i p).self := by
  have hocup : ∀ j, j = pos → (p.self.leer fuera j).ocupado = true := by
    rintro j rfl
    exact (h.getD _).1
  unfold unirTurno
  dsimp only
  split
  · rename_i hlib
    simp only [Bool.and_eq_true, Bool.not_eq_true'] at hlib
    have hne : i ≠ pos := fun heq => by rw [hocup i heq] at hlib; exact nomatch hlib.1
    split
    · split
      · exact unirHermana_inicio (by omega)
      · exact MismoInicio.refl _ _
    · split
      · -- the slot above is free, so it is not `pos` either
        rename_i hh
        simp only [Bool.and_eq_true, Bool.not_eq_true'] at hh
        have hne' : i - 1 ≠ pos := fun heq => by rw [hocup _ heq] at hh; exact nomatch hh.1
        exact unirHermana_inicio (by omega)
      · exact MismoInicio.refl _ _
  · split <;> exact MismoInicio.refl _ _

/-- One pass of merges away from the slot keeps the beginning. -/
theorem unirPasada_inicio {fuera : Nat → Particion} (h : Asa t.elements pos key n a)
    (hl : unionLejos t pos) : MismoInicio pos t (unirPasada fuera t).self := by
  have := iterar_invariante (f := unirTurno fuera) (n := t.tableMaxSize)
    (s := (⟨t, 0, false⟩ : Pasada))
    (fun i p => (i ≤ pos → p = ⟨t, acumHasta t i, false⟩) ∧ MismoInicio pos t p.self)
    ⟨fun _ => by simp [acumHasta], MismoInicio.refl pos t⟩
    (by
      rintro i p hi ⟨hquieta, hini⟩
      by_cases hip : i < pos
      · have hlt := h.lt
        rw [hquieta (by omega), unirTurno_quieta (by omega) (hl i hip)]
        exact ⟨fun _ => rfl, MismoInicio.refl pos t⟩
      · refine ⟨fun hle => absurd hle (by omega), hini.trans ?_⟩
        exact unirTurno_inicio (h.of_eq (hini.slots pos (Nat.le_refl _))) (by omega))
  exact this.2

/-- So do all passes. -/
theorem unirTodasLasHermanas_inicio {fuera : Nat → Particion} :
    ∀ (vueltas : Nat) {t t' : TableInfo}, Asa t.elements pos key n a → unionLejos t pos →
      unirTodasLasHermanas fuera vueltas t = some t' → MismoInicio pos t t' := by
  intro vueltas
  induction vueltas with
  | zero => intro t t' _ _ h; exact nomatch h
  | succ v ih =>
      intro t t' h hl hr
      have hp : MismoInicio pos t (unirPasada fuera t).self := unirPasada_inicio h hl
      simp only [unirTodasLasHermanas] at hr
      split at hr
      · exact hp.trans (ih (h.of_eq (hp.slots pos (Nat.le_refl _))) (hp.unionLejos hl) hr)
      · rw [← Option.some.inj hr]
        exact hp

/-- One turn of a pass keeps the size. -/
theorem unirTurno_tableMaxSize {fuera : Nat → Particion} (i : Nat) (p : Pasada) :
    (unirTurno fuera i p).self.tableMaxSize = p.self.tableMaxSize := by
  have hunir : ∀ arriba s, (unirHermana p.self arriba s).tableMaxSize = p.self.tableMaxSize := by
    intro arriba s
    rw [unirHermana]
    exact (length_iterar (fun i es => by simp) _).trans (modificar_tableMaxSize _ _ _)
  unfold unirTurno
  dsimp only
  split
  · split <;> split
    · exact hunir _ _
    · rfl
    · exact hunir _ _
    · rfl
  · split <;> rfl

/-- So do all passes. -/
theorem unirTodasLasHermanas_tableMaxSize {fuera : Nat → Particion} :
    ∀ (vueltas : Nat) {t t' : TableInfo}, unirTodasLasHermanas fuera vueltas t = some t' →
      t'.tableMaxSize = t.tableMaxSize := by
  intro vueltas
  induction vueltas with
  | zero => intro t t' h; exact nomatch h
  | succ v ih =>
      intro t t' hr
      have hp : (unirPasada fuera t).self.tableMaxSize = t.tableMaxSize :=
        iterar_invariante (f := unirTurno fuera) (s := (⟨t, 0, false⟩ : Pasada))
          (fun _ p => p.self.tableMaxSize = t.tableMaxSize) rfl
          (fun i p _ hp => (unirTurno_tableMaxSize i p).trans hp)
      simp only [unirTodasLasHermanas] at hr
      split at hr
      · exact (ih hr).trans hp
      · rw [← Option.some.inj hr]
        exact hp

/-- Every turn of the placement loop of the buddy scheme meets its condition:
    `hallado` on the block that ends it, `union` before a merge, `baja` on the
    key of a replacement. -/
def EnCadaVueltaBuddy (e : Entorno) (m : Nat) (hallado : TableInfo → Nat → Prop)
    (union : TableInfo → Prop) (baja : TableInfo → Clave → Prop) :
    Nat → Nat → TableInfo → Prop
  | 0, _, _ => True
  | vueltas + 1, j, t =>
      (∀ i ∈ huecoBuddy t m, hallado t i) ∧
      (huecoBuddy t m = none → union t ∧ ∀ t₁ ∈ unirTodasLasHermanas e.fuera e.vueltas t,
        (∀ i ∈ huecoBuddy t₁ m, hallado t₁ i) ∧
        (huecoBuddy t₁ m = none →
          if t₁.elementsAmount ≠ 0 then
            (∀ k ∈ victima (e.relojLru j) t₁, baja t₁ k) ∧
              ∀ t₂ ∈ reemplazar (e.relojLru j) t₁,
                EnCadaVueltaBuddy e m hallado union baja vueltas (j + 1) t₂
          else EnCadaVueltaBuddy e m hallado union baja vueltas (j + 1) t₁))

instance decidableEnCadaVueltaBuddy {e : Entorno} {m : Nat} {hallado : TableInfo → Nat → Prop}
    {union : TableInfo → Prop} {baja : TableInfo → Clave → Prop}
    [∀ t i, Decidable (hallado t i)] [DecidablePred union] [∀ t k, Decidable (baja t k)] :
    ∀ (vueltas j : Nat) (t : TableInfo),
      Decidable (EnCadaVueltaBuddy e m hallado union baja vueltas j t)
  | 0, _, _ => inferInstanceAs (Decidable True)
  | vueltas + 1, j, _ =>
      have : ∀ t', Decidable (EnCadaVueltaBuddy e m hallado union baja vueltas (j + 1) t') :=
        fun t' => decidableEnCadaVueltaBuddy vueltas (j + 1) t'
      inferInstanceAs (Decidable (_ ∧ (_ → _)))

/-- The buddy placement keeps the size and answers a slot of the table. -/
theorem buddysystem_lt {e : Entorno} {m : Nat} :
    ∀ (vueltas j : Nat) {t t' : TableInfo} {i : Nat},
      buddysystem e m vueltas j t = some (t', i) →
      t'.tableMaxSize = t.tableMaxSize ∧ i < t.tableMaxSize := by
  intro vueltas
  induction vueltas with
  | zero => intro j t t' i h; exact nomatch h
  | succ v ih =>
      intro j t t' i hr
      obtain ⟨r₁, h1, hr₁⟩ := Option.bind_eq_some_iff.mp hr
      cases r₁ with
      | some r =>
          obtain rfl := Option.some.inj hr₁
          exact buscarHueco_lt h1
      | none =>
          obtain ⟨t₁, h2, hr₂⟩ := Option.bind_eq_some_iff.mp hr₁
          rw [← unirTodasLasHermanas_tableMaxSize e.vueltas h2]
          obtain ⟨r₃, h3, hr₃⟩ := Option.bind_eq_some_iff.mp hr₂
          cases r₃ with
          | some r =>
              obtain rfl := Option.some.inj hr₃
              exact buscarHueco_lt h3
          | none =>
              by_cases he : t₁.elementsAmount ≠ 0
              · simp only [if_pos he] at hr₃
                obtain ⟨t₂, h4, hr₄⟩ := Option.bind_eq_some_iff.mp hr₃
                rw [← reemplazar_tableMaxSize h4]
                exact ih _ hr₄
              · simp only [if_neg he] at hr₃
                exact ih _ hr₃

/-- The buddy placement keeps the handle, when every turn keeps away from its slot. -/
theorem buddysystem_asa {e : Entorno} {m : Nat} :
    ∀ (vueltas j : Nat) {t t' : TableInfo} {i : Nat}, Asa t.elements pos key n a →
      EnCadaVueltaBuddy e m (fun t i => mitadLejos t m i pos) (fun t => unionLejos t pos)
        (fun t k => bajaLejos t k pos) vueltas j t →
      buddysystem e m vueltas j t = some (t', i) → Asa t'.elements pos key n a := by
  intro vueltas
  induction vueltas with
  | zero => intro j t t' i _ _ h; exact nomatch h
  | succ v ih =>
      intro j t t' i h hv hr
      simp only [EnCadaVueltaBuddy] at hv
      obtain ⟨r₁, h1, hr₁⟩ := Option.bind_eq_some_iff.mp hr
      cases r₁ with
      | some r =>
          obtain rfl := Option.some.inj hr₁
          exact buscarHueco_asa h hv.1 h1
      | none =>
          obtain ⟨t₁, h2, hr₂⟩ := Option.bind_eq_some_iff.mp hr₁
          obtain ⟨hunion, hv₁⟩ := hv.2 (buscarHueco_none h1)
          obtain ⟨hmitad, hv₂⟩ := hv₁ t₁ h2
          have h₁ : Asa t₁.elements pos key n a :=
            h.of_eq ((unirTodasLasHermanas_inicio e.vueltas h hunion h2).slots pos (Nat.le_refl _))
          obtain ⟨r₃, h3, hr₃⟩ := Option.bind_eq_some_iff.mp hr₂
          cases r₃ with
          | some r =>
              obtain rfl := Option.some.inj hr₃
              exact buscarHueco_asa h₁ hmitad h3
          | none =>
              replace hv₂ := hv₂ (buscarHueco_none h3)
              by_cases he : t₁.elementsAmount ≠ 0
              · simp only [if_pos he] at hr₃
                rw [if_pos he] at hv₂
                obtain ⟨t₂, h4, hr₄⟩ := Option.bind_eq_some_iff.mp hr₃
                exact ih _ (reemplazar_asa h₁ hv₂.1 h4) (hv₂.2 t₂ h4) hr₄
              · simp only [if_neg he] at hr₃
                rw [if_neg he] at hv₂
                exact ih _ h₁ hv₂ hr₃

/-! ## Creation -/

/-- The creation of `m` bytes at slot `p` leaves slot `pos` in its place: it
    is another slot, and it does not stand after one that is split. -/
def creaLejos (cfg : Config) (t : TableInfo) (p m pos : Nat) : Prop :=
  let disponibles := (t.elements.getD p Particion.vacia).bytesDisponibles
  p ≠ pos ∧ (cfg.esquema = .particionesDinamicas →
    pos < p ∨ (t.elements.getD (p + 1) Particion.vacia).ocupado = false
      ∨ disponibles < m ∨ disponibles - ocupa cfg.chunkSize m < cfg.chunkSize)

instance (cfg : Config) (t : TableInfo) (p m pos : Nat) : Decidable (creaLejos cfg t p m pos) :=
  inferInstanceAs (Decidable (_ ∧ (_ → _ ∨ _ ∨ _ ∨ _)))

/-- A shift that makes room above the slot keeps the handle. -/
theorem desplazarAbajo_asa {p : Nat} {d : Int} (h : Asa t.elements pos key n a) (hp : pos < p) :
    Asa (desplazarAbajo t p d).elements pos key n a := by
  refine Asa.modify (Asa.iterar h fun i es hi hes => hes.modify (Or.inl ?_)) (Or.inl ?_)
  · omega
  · omega

/-- The leftover of slot `p` is dealt with on its right: a slot up to `p`
    stays, and so does one after it that need not be shifted. -/
theorem repartirSobra_asa {fuera : Nat → Particion} {p m c : Nat}
    (h : Asa t.elements pos key n a)
    (hl : pos ≤ p ∨ (t.leer fuera (p + 1)).ocupado = false
      ∨ (t.leer fuera p).bytesDisponibles - ocupa c m < c) :
    Asa (repartirSobra fuera t p m c).elements pos key n a := by
  have hsig : (t.leer fuera (p + 1)).ocupado ≠ true → p + 1 ≠ pos := by
    rintro ho rfl
    exact ho (h.getD _).1
  unfold repartirSobra
  dsimp only
  split
  · rename_i ho
    split
    · rename_i hd
      refine desplazarAbajo_asa (t := { t with espacioLibre := _ }) h ?_
      rcases hl with hle | hno | hno
      · omega
      · exact absurd (show (t.leer fuera (p + 1)).ocupado = true from ho) (by rw [hno]; simp)
      · omega
    · exact h.modify (Or.inr (ignora_inutilizados _))
  · rename_i ho
    have hne := hsig ho
    split
    · exact (h.modify (Or.inl hne)).modify (Or.inr (ignora_disponibles _))
    · exact (h.modify (Or.inl hne)).modify (Or.inr (ignora_inutilizados _))

/-- A handle does not see the time of use. -/
theorem ignora_usada (b : Particion → Nat) :
    Ignora fun s => { s with ultimaVezUsada := b s } := ⟨fun _ => rfl, fun _ => rfl,
  fun _ => rfl, fun _ => rfl⟩

/-- Nor the mark of `stored`. -/
theorem ignora_stored (b : Bool) :
    Ignora fun s => { s with item := { s.item with stored := b } } := ⟨fun _ => rfl, fun _ => rfl,
  fun _ => rfl, fun _ => rfl⟩

/-- A GET elsewhere, or of the same slot, keeps the handle. -/
theorem lruGet_asa {ahora p : Nat} (h : Asa t.elements pos key n a) :
    Asa (lruGet ahora t p).elements pos key n a :=
  h.modify (Or.inr (ignora_usada _))

/-- The slot a creation writes first. -/
theorem crea_slot {f : Particion → Particion} (hp : pos < t.tableMaxSize)
    (ho : ∀ s, (f s).ocupado = true) (hk : ∀ s, (f s).item.key = key)
    (hn : ∀ s, (f s).item.ndata = n) :
    ∃ a, Asa (t.modificar pos f).elements pos key n a := by
  have hlt : pos < t.elements.length := hp
  refine ⟨_, f t.elements[pos], ?_, ho _, hk _, hn _, rfl⟩
  show (t.elements.modify pos f)[pos]? = _
  rw [List.getElem?_modify, List.getElem?_eq_getElem hlt]
  simp

/-- A change of a slot is not read in another one. -/
theorem leer_modificar_otra {fuera : Nat → Particion} {p q : Nat} (f : Particion → Particion)
    (h : q ≠ p) : (t.modificar q f).leer fuera p = t.leer fuera p := by
  rw [TableInfo.leer, TableInfo.leer, TableInfo.modificar, List.getD_eq_getElem?_getD,
    List.getD_eq_getElem?_getD, getElem?_modify_otra f _ h]

/-- A change that keeps the free bytes is not read in them. -/
theorem disponibles_modificar {fuera : Nat → Particion} {p q : Nat} {f : Particion → Particion}
    (hf : ∀ s, (f s).bytesDisponibles = s.bytesDisponibles) :
    p < t.tableMaxSize → ((t.modificar q f).leer fuera p).bytesDisponibles
      = (t.leer fuera p).bytesDisponibles := by
  intro hp
  have hlt : p < t.elements.length := hp
  have hlt' : p < (t.elements.modify q f).length := by simpa using hlt
  rw [TableInfo.leer, TableInfo.leer, TableInfo.modificar, List.getD_eq_getElem _ _ hlt',
    List.getD_eq_getElem _ _ hlt, List.getElem_modify]
  split
  · exact hf _
  · rfl

/-- Inside the table nothing outside of it is read. -/
theorem leer_vacia {fuera : Nat → Particion} {p : Nat} (hp : p < t.tableMaxSize) :
    t.leer fuera p = t.elements.getD p Particion.vacia := by
  have hlt : p < t.elements.length := hp
  rw [TableInfo.leer, List.getD_eq_getElem _ _ hlt, List.getD_eq_getElem _ _ hlt]

/-- **CREATION** makes its own slot a good handle. -/
theorem crear_propia {cfg : Config} {e : Entorno} {k : Clave} {p m : Nat}
    (hp : p < t.tableMaxSize) : ∃ a, Asa (crear cfg e t k p m).elements p k m a := by
  obtain ⟨a, ha⟩ : ∃ a, Asa (t.modificar p fun s =>
      { s with item := { s.item with key := k, ndata := m }, ocupado := true }).elements p k m a :=
    crea_slot hp (fun _ => rfl) (fun _ => rfl) (fun _ => rfl)
  refine ⟨a, ?_⟩
  unfold crear
  cases cfg.esquema with
  | particionesDinamicas =>
      dsimp only [micacheCreateElement]
      refine Asa.modify ?_ (Or.inr (ignora_disponibles _))
      split
      · exact repartirSobra_asa (lruGet_asa ha) (Or.inl (Nat.le_refl _))
      · exact lruGet_asa ha
  | buddySystem =>
      dsimp only [buddyCreateElement]
      refine Asa.modify ?_ (Or.inr (ignora_disponibles _))
      exact (lruGet_asa ha).modify (Or.inr (ignora_inutilizados _))

/-- What a creation that leaves slot `pos` in its place finds at its own slot,
    once it has written key and length there. -/
theorem creaLejos_sobra {cfg : Config} {e : Entorno} {k : Clave} {p m : Nat}
    (hl : creaLejos cfg t p m pos) (hesq : cfg.esquema = .particionesDinamicas)
    (hlt : pos < t.elements.length)
    (hcabe : (m : Int) ≤ ((lruGet e.relojGet (t.modificar p fun s =>
      { s with item := { s.item with key := k, ndata := m }, ocupado := true }) p).leer
        e.fuera p).bytesDisponibles) :
    pos ≤ p ∨ ((lruGet e.relojGet (t.modificar p fun s =>
        { s with item := { s.item with key := k, ndata := m }, ocupado := true }) p).leer
          e.fuera (p + 1)).ocupado = false
      ∨ ((lruGet e.relojGet (t.modificar p fun s =>
        { s with item := { s.item with key := k, ndata := m }, ocupado := true }) p).leer
          e.fuera p).bytesDisponibles - ocupa cfg.chunkSize m < cfg.chunkSize := by
  rw [lruGet, leer_modificar_otra _ (by omega), leer_modificar_otra _ (by omega)]
  by_cases hpp : pos ≤ p
  · exact Or.inl hpp
  · have hdisp : ((lruGet e.relojGet (t.modificar p fun s =>
        { s with item := { s.item with key := k, ndata := m }, ocupado := true }) p).leer
          e.fuera p).bytesDisponibles
        = (t.elements.getD p Particion.vacia).bytesDisponibles := by
      have hp : p < t.tableMaxSize := by simp only [TableInfo.tableMaxSize]; omega
      have hleer : t.leer e.fuera p = t.elements.getD p Particion.vacia := leer_vacia hp
      rw [← hleer]
      refine (disponibles_modificar ?_ ?_).trans (disponibles_modificar ?_ ?_)
      · exact fun _ => rfl
      · rw [modificar_tableMaxSize]
        exact hp
      · exact fun _ => rfl
      · exact hp
    rcases hl.2 hesq with h1 | h1 | h1 | h1
    · omega
    · rw [leer_vacia (by simp only [TableInfo.tableMaxSize]; omega)]
      exact Or.inr (Or.inl h1)
    · rw [hdisp] at hcabe
      omega
    · refine Or.inr (Or.inr ?_)
      rw [← hdisp] at h1
      exact h1

/-- **CREATION** at another slot that shifts nothing over this one. -/
theorem crear_asa {cfg : Config} {e : Entorno} {k : Clave} {p m : Nat}
    (h : Asa t.elements pos key n a) (hl : creaLejos cfg t p m pos) :
    Asa (crear cfg e t k p m).elements pos key n a := by
  have h₁ : Asa (lruGet e.relojGet (t.modificar p fun s =>
      { s with item := { s.item with key := k, ndata := m }, ocupado := true }) p).elements
      pos key n a := lruGet_asa (h.modify (Or.inl hl.1))
  unfold crear
  cases hesq : cfg.esquema with
  | particionesDinamicas =>
      dsimp only [micacheCreateElement]
      refine Asa.modify ?_ (Or.inl hl.1)
      split
      · rename_i hcabe
        exact repartirSobra_asa h₁ (creaLejos_sobra hl hesq h.lt hcabe)
      · exact h₁
  | buddySystem =>
      dsimp only [buddyCreateElement]
      exact (h₁.modify (Or.inl hl.1)).modify (Or.inl hl.1)

/-- A new element keeps the size. -/
theorem crear_tableMaxSize {cfg : Config} {e : Entorno} {k : Clave} {p m : Nat} :
    (crear cfg e t k p m).tableMaxSize = t.tableMaxSize := by
  have hrep : ∀ (u : TableInfo) c, (repartirSobra e.fuera u p m c).tableMaxSize
      = u.tableMaxSize := by
    intro u c
    unfold repartirSobra desplazarAbajo
    dsimp only
    split
    · split
      · simp only [TableInfo.tableMaxSize, List.length_modify]
        rw [length_iterar (fun i es => by simp)]
      · simp [TableInfo.tableMaxSize, TableInfo.modificar]
    · split <;> simp [TableInfo.tableMaxSize, TableInfo.modificar]
  unfold crear
  cases cfg.esquema with
  | particionesDinamicas =>
      dsimp only [micacheCreateElement]
      refine (modificar_tableMaxSize _ _ _).trans ?_
      split
      · rw [hrep, lruGet, modificar_tableMaxSize, modificar_tableMaxSize]
      · rw [lruGet, modificar_tableMaxSize, modificar_tableMaxSize]
  | buddySystem =>
      dsimp only [buddyCreateElement]
      refine (modificar_tableMaxSize _ _ _).trans ?_
      refine (modificar_tableMaxSize _ _ _).trans ?_
      rw [lruGet, modificar_tableMaxSize, modificar_tableMaxSize]

end Rutinas

end Rc
