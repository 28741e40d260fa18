import Yanero.RcIndices
import Yanero.RcAsasProofs

/-! # Which operations stay inside the table

    The searches, the merge of a hole and the shifts never leave the table.
    Two routines do: the creation looks at the slot after the one it fills,
    and a sweep stops only at a free run that reaches the end.  So the slots
    of an operation are all in the table exactly when no hole it takes is the
    last slot and no sweep starts with the last slot occupied
    (`IndiceSeguro`), and the same holds of whole runs. -/

namespace Rc

open Bucles

variable {cfg : Config} {e : Entorno} {t t' : TableInfo} {N : Nat}

/-! ## Lists of indices -/

@[simp] theorem enTabla_nil : EnTabla N [] := by
  intro i hi
  cases hi

@[simp] theorem enTabla_cons {i : Int} {l : List Int} :
    EnTabla N (i :: l) ↔ (0 ≤ i ∧ i < N) ∧ EnTabla N l := by
  simp [EnTabla]

@[simp] theorem enTabla_append {l l' : List Int} :
    EnTabla N (l ++ l') ↔ EnTabla N l ∧ EnTabla N l' := by
  simp only [EnTabla, List.forall_mem_append]

/-- The indices of a loop, turn by turn. -/
theorem enTabla_flatMap {n : Nat} {f : Nat → List Int} (h : ∀ i < n, EnTabla N (f i)) :
    EnTabla N ((List.range n).flatMap f) := by
  intro x hx
  obtain ⟨i, hi, hx⟩ := List.mem_flatMap.mp hx
  exact h i (List.mem_range.mp hi) x hx

/-- A stretch of the table. -/
theorem enTabla_tramo {pos n : Nat} (h : pos + n ≤ N) : EnTabla N (tramo pos n) := by
  intro x hx
  obtain ⟨i, hi, rfl⟩ := List.mem_map.mp hx
  have := List.mem_range.mp hi
  omega

/-! ## Creation -/

/-- A shift down from a slot that is not the first. -/
theorem indicesDesplazarAbajo_enTabla {pos : Nat} (h0 : 0 < pos) (h : pos < N) :
    EnTabla N (indicesDesplazarAbajo N pos) := by
  unfold indicesDesplazarAbajo
  rw [enTabla_append]
  refine ⟨enTabla_flatMap ?_, ?_⟩
  · intro i hi
    simp only [enTabla_cons, enTabla_nil, and_true]
    omega
  · simp only [enTabla_cons, enTabla_nil, and_true]
    omega

/-- **CREATION** with room stays in the table unless the slot is the last. -/
theorem indicesCrear_enTabla {fuera : Nat → Particion} {pos n c : Nat}
    (hn : (n : Int) ≤ (t.leer fuera pos).bytesDisponibles) :
    EnTabla t.tableMaxSize (indicesCrear fuera t pos n c) ↔ pos + 1 < t.tableMaxSize := by
  unfold indicesCrear
  simp only [if_pos hn, enTabla_cons]
  constructor
  · rintro ⟨-, h, -⟩
    omega
  · intro h
    refine ⟨by omega, by omega, ?_⟩
    split
    · exact indicesDesplazarAbajo_enTabla (by omega) h
    · exact enTabla_nil

/-! ## Searches -/

/-- A merge of slots of the table. -/
theorem indicesUnirHueco_enTabla {p k : Nat} (hp : p < t.tableMaxSize)
    (hk : p + k ≤ t.tableMaxSize) : EnTabla t.tableMaxSize (indicesUnirHueco t p k) := by
  unfold indicesUnirHueco
  rw [enTabla_cons]
  refine ⟨by omega, ?_⟩
  split
  · rw [enTabla_append]
    refine ⟨enTabla_tramo (by omega), enTabla_flatMap ?_⟩
    intro i hi
    simp only [indicesJuntar, enTabla_cons, enTabla_nil, and_true]
    omega
  · exact enTabla_nil

/-- The search of the first place stays in the table. -/
theorem indicesFirstFit_enTabla {c n : Nat} :
    ∀ (l : List Particion) (i : Nat) (libres : Int), i + l.length ≤ N →
      EnTabla N (indicesFirstFit c n l i libres) := by
  intro l
  induction l with
  | nil => intro i libres _; exact enTabla_nil
  | cons s l ih =>
      intro i libres h
      rw [List.length_cons] at h
      rw [indicesFirstFit, enTabla_cons]
      refine ⟨by omega, ?_⟩
      split
      · exact ih _ _ (by omega)
      · dsimp only
        generalize (if (s.bytesDisponibles != 0) = true then libres + s.bytesDisponibles
          else libres) = libres'
        split
        · exact enTabla_nil
        · exact ih _ _ (by omega)

/-- **A SEARCH** and its merge stay in the table. -/
theorem indicesBuscar_enTabla (alg : AlgBusqueda) (t : TableInfo) (n : Nat) :
    EnTabla t.tableMaxSize (indicesBuscar alg t n) := by
  unfold indicesBuscar
  rw [enTabla_append]
  constructor
  · cases alg with
    | firstFit => exact indicesFirstFit_enTabla _ _ _ (by simp [TableInfo.tableMaxSize])
    | bestFit => exact enTabla_tramo (by omega)
  · cases hh : hueco alg t n with
    | none => exact enTabla_nil
    | some r =>
        obtain ⟨p, k, total⟩ := r
        obtain ⟨h1, h2, -⟩ := hueco_cota hh
        exact indicesUnirHueco_enTabla h1 h2

/-! ## Compaction -/

/-- The occupied flag of a slot, `none` past the table. -/
def ocupadoEn (t : TableInfo) (i : Nat) : Option Bool := t.elements[i]?.map (·.ocupado)

/-- A run of slots whose flag is `b` ends where the flag changes. -/
theorem corrida_corte {p : Particion → Bool} {b : Bool} (hp : ∀ s, p s = (s.ocupado == b))
    (t : TableInfo) {pos : Nat} (hpos : pos ≤ t.tableMaxSize) :
    let k := ((t.elements.drop pos).takeWhile p).length
    pos + k ≤ t.tableMaxSize
      ∧ (∀ q, pos ≤ q → q < pos + k → ocupadoEn t q = some b)
      ∧ (pos + k < t.tableMaxSize → ocupadoEn t (pos + k) = some (!b)) := by
  intro k
  obtain ⟨h1, h2, h3⟩ := takeWhile_corte p (t.elements.drop pos)
  rw [List.length_drop] at h1
  unfold TableInfo.tableMaxSize at hpos ⊢
  refine ⟨by omega, ?_, ?_⟩
  · intro q hq hlt
    obtain ⟨j, rfl⟩ : ∃ j, q = pos + j := ⟨q - pos, by omega⟩
    have hj : pos + j < t.elements.length := by omega
    have hb := h2 j (t.elements[pos + j]) (by omega) (by
      rw [List.getElem?_drop, List.getElem?_eq_getElem hj])
    rw [hp, beq_iff_eq] at hb
    rw [ocupadoEn, List.getElem?_eq_getElem hj, Option.map_some, hb]
  · intro hlt
    have hb := h3 (t.elements[pos + k]) (by
      rw [List.getElem?_drop, List.getElem?_eq_getElem hlt])
    rw [hp, beq_eq_false_iff_ne] at hb
    rw [ocupadoEn, List.getElem?_eq_getElem hlt, Option.map_some, Bool.eq_not.mpr hb]

/-- The free slots from a position on: how many, and what stops them. -/
theorem vaciosDesde_corte (t : TableInfo) {pos : Nat} (hpos : pos ≤ t.tableMaxSize) :
    pos + (vaciosDesde t pos).length ≤ t.tableMaxSize
      ∧ (∀ q, pos ≤ q → q < pos + (vaciosDesde t pos).length → ocupadoEn t q = some false)
      ∧ (pos + (vaciosDesde t pos).length < t.tableMaxSize →
        ocupadoEn t (pos + (vaciosDesde t pos).length) = some true) :=
  corrida_corte (b := false) (fun s => by cases s.ocupado <;> rfl) t hpos

/-- The occupied ones. -/
theorem ocupadosDesde_corte (t : TableInfo) {pos : Nat} (hpos : pos ≤ t.tableMaxSize) :
    pos + (ocupadosDesde t pos).length ≤ t.tableMaxSize
      ∧ (∀ q, pos ≤ q → q < pos + (ocupadosDesde t pos).length → ocupadoEn t q = some true)
      ∧ (pos + (ocupadosDesde t pos).length < t.tableMaxSize →
        ocupadoEn t (pos + (ocupadosDesde t pos).length) = some false) :=
  corrida_corte (b := true) (fun s => by cases s.ocupado <;> rfl) t hpos

/-- An occupied run follows a free one that does not reach the end. -/
theorem ocupadosDesde_pos {pos : Nat} (h : pos + (vaciosDesde t pos).length < t.tableMaxSize) :
    0 < (ocupadosDesde t (pos + (vaciosDesde t pos).length)).length := by
  by_contra h0
  have hle : pos ≤ t.tableMaxSize := by omega
  have hv := (vaciosDesde_corte t hle).2.2 h
  have ho := (ocupadosDesde_corte t (Nat.le_of_lt h)).2.2 (by omega)
  rw [Nat.eq_zero_of_not_pos h0, Nat.add_zero, hv] at ho
  cases ho

/-- What one call of `compactar` met at a free slot: the free run from there
    on reaches the end of the table, or an occupied run follows it. -/
theorem compactar_casos (t : TableInfo) (pos : Nat) :
    let v := (vaciosDesde t pos).length
    let o := (ocupadosDesde t (pos + v)).length
    (t.tableMaxSize ≤ pos + v → (compactar t pos).2 = false) ∧
    (pos + v < t.tableMaxSize → 0 < v → (compactar t pos).2 = true
      ∧ ∀ q, pos + v + o ≤ q → (compactar t pos).1.elements[q]? = t.elements[q]?) := by
  intro v o
  have hv : ((t.elements.drop pos).takeWhile fun s => !s.ocupado).length = v := rfl
  constructor
  · intro hfin
    simp only [compactar, hv]
    rw [if_pos hfin]
  · intro hsig hpos
    have hopos : 0 < o := ocupadosDesde_pos hsig
    simp only [compactar, hv]
    generalize hes : iterar (fun i es => es.modify (pos + i) fun s =>
      { s with bytesDisponibles := 0 }) v t.elements = es
    have hq : ∀ q, pos + v ≤ q → es[q]? = t.elements[q]? := by
      intro q hq
      rw [← hes]
      exact iterar_modify_otra (fun i es hi => getElem?_modify_otra _ _ (by omega)) _
    have ho : ((es.drop (pos + v)).takeWhile fun s => s.ocupado).length = o := by
      have hdrop : es.drop (pos + v) = t.elements.drop (pos + v) := by
        refine List.ext_getElem? fun j => ?_
        rw [List.getElem?_drop, List.getElem?_drop, hq _ (by omega)]
      rw [hdrop]
      rfl
    rw [if_neg (by omega)]
    simp only [ho]
    rw [if_neg (by omega)]
    generalize hes₂ : iterar (fun i es => es.modify (pos + v + i) fun s =>
      { s with bytesInutilizados := 0 }) o es = es₂
    have hq₂ : ∀ q, pos + v + o ≤ q → es₂[q]? = t.elements[q]? := by
      intro q hle
      rw [← hes₂, iterar_modify_otra (fun i es hi => getElem?_modify_otra _ _ (by omega)) _,
        hq q (by omega)]
    have hmov : ∀ q, pos + v + o ≤ q →
        (iterar (fun i u => desplazarArriba u (pos + i) v) o
          { t with elements := es₂ }).elements[q]? = t.elements[q]? := by
      intro q hle
      refine iterar_invariante (f := fun i u => desplazarArriba u (pos + i) v)
        (fun _ (u : TableInfo) => u.elements[q]? = t.elements[q]?) (hq₂ q hle) ?_
      intro i u hi hu
      simp only [desplazarArriba]
      rw [getElem?_modify_otra _ _ (by omega), getElem?_modify_otra _ _ (by omega), hu]
    split
    · refine ⟨rfl, fun q hle => ?_⟩
      simp only [TableInfo.modificar]
      rw [getElem?_modify_otra _ _ (by omega), hmov q hle]
    · refine ⟨rfl, fun q hle => ?_⟩
      simp only [TableInfo.modificar]
      rw [getElem?_modify_otra _ _ (by omega), hmov q hle]

/-- **A COMPACTION** at a free slot stays in the table unless the occupied run
    it moves reaches the end. -/
theorem indicesCompactar_enTabla {pos v o : Nat} (hpos : pos < t.tableMaxSize)
    (hv : (vaciosDesde t pos).length = v) (ho : (ocupadosDesde t (pos + v)).length = o)
    (hv0 : 0 < v) :
    (t.tableMaxSize ≤ pos + v ∨ pos + v + o < t.tableMaxSize →
      EnTabla t.tableMaxSize (indicesCompactar t pos)) ∧
    (pos + v < t.tableMaxSize → t.tableMaxSize ≤ pos + v + o →
      (t.tableMaxSize : Int) ∈ indicesCompactar t pos) := by
  have hle := (vaciosDesde_corte t (Nat.le_of_lt hpos)).1
  rw [hv] at hle
  unfold indicesCompactar
  simp only [hv, ho]
  constructor
  · intro h
    by_cases hfin : t.tableMaxSize ≤ pos + v
    · rw [if_pos hfin, enTabla_cons]
      exact ⟨by omega, enTabla_tramo hle⟩
    · have hop : 0 < o := by
        subst hv ho
        exact ocupadosDesde_pos (by omega)
      have hvistos : EnTabla t.tableMaxSize (tramo pos (v + 1) ++ tramo (pos + v) o) := by
        rw [enTabla_append]
        exact ⟨enTabla_tramo (by omega), enTabla_tramo (by omega)⟩
      rw [if_neg hfin, if_neg (by omega), enTabla_append, enTabla_append, enTabla_cons]
      refine ⟨⟨hvistos, by omega, enTabla_flatMap ?_⟩, ?_⟩
      · intro i hi
        simp only [indicesDesplazarArriba, enTabla_append, enTabla_cons, enTabla_nil, and_true]
        refine ⟨⟨by omega, by omega⟩, ?_⟩
        split
        · exact enTabla_nil
        · simp only [enTabla_cons, enTabla_nil, and_true]
          omega
      · split
        · simp only [enTabla_cons, enTabla_nil, and_true]
          omega
        · simp only [enTabla_cons, enTabla_nil, and_true]
          omega
  · intro hfin hrun
    have hrun' := (ocupadosDesde_corte t (Nat.le_of_lt hfin)).1
    rw [if_neg (by omega), if_neg (by omega)]
    have heq : (t.tableMaxSize : Int) = (pos : Int) + v + o := by omega
    rw [heq]
    simp

/-! ## The sweep -/

/-- The last slot of the table is free. -/
def ultimaLibre (t : TableInfo) : Prop := ocupadoEn t (t.tableMaxSize - 1) = some false

instance : DecidablePred ultimaLibre := fun t =>
  inferInstanceAs (Decidable (ocupadoEn t (t.tableMaxSize - 1) = some false))

/-- A flag that is read in the table. -/
theorem leer_ocupado {fuera : Nat → Particion} {i : Nat} (hi : i < t.tableMaxSize) :
    ocupadoEn t i = some (t.leer fuera i).ocupado := by
  have hi' : i < t.elements.length := hi
  simp [ocupadoEn, TableInfo.leer, List.getElem?_eq_getElem hi', List.getD_eq_getElem?_getD]

/-- The free run at a free slot. -/
theorem vaciosDesde_pos {pos : Nat} (hpos : pos < t.tableMaxSize)
    (hl : ocupadoEn t pos = some false) : 0 < (vaciosDesde t pos).length := by
  by_contra h0
  have hv := (vaciosDesde_corte t (Nat.le_of_lt hpos)).2.2 (by omega)
  rw [Nat.eq_zero_of_not_pos h0, Nat.add_zero, hl] at hv
  cases hv

/-- The slots after the moved run are what they were. -/
theorem compactar_ocupadoEn {pos q : Nat} (hv : 0 < (vaciosDesde t pos).length)
    (hsig : pos + (vaciosDesde t pos).length < t.tableMaxSize)
    (hq : pos + (vaciosDesde t pos).length
      + (ocupadosDesde t (pos + (vaciosDesde t pos).length)).length ≤ q) :
    ocupadoEn (compactar t pos).1 q = ocupadoEn t q := by
  unfold ocupadoEn
  rw [((compactar_casos t pos).2 hsig hv).2 q hq]

/-- A sweep that starts with the last slot free ends there at the latest. -/
theorem indicesBarrer_enTabla {fuera : Nat → Particion} :
    ∀ (vueltas i : Nat) {t : TableInfo}, i < t.tableMaxSize → ultimaLibre t →
      EnTabla t.tableMaxSize (indicesBarrer fuera vueltas i t) := by
  intro vueltas
  induction vueltas with
  | zero => intro i t _ _; exact enTabla_nil
  | succ v ih =>
      intro i t hi hul
      rw [indicesBarrer, enTabla_cons]
      refine ⟨by omega, ?_⟩
      have hoc : ocupadoEn t i = some (t.leer fuera i).ocupado := leer_ocupado hi
      cases ho : (t.leer fuera i).ocupado with
      | true =>
          rw [if_pos rfl]
          refine ih (i + 1) ?_ hul
          -- an occupied slot is not the last one
          by_contra hge
          have hlast : i = t.tableMaxSize - 1 := by omega
          rw [ultimaLibre, ← hlast, hoc, ho] at hul
          cases hul
      | false =>
          rw [if_neg (by simp), enTabla_append]
          rw [ho] at hoc
          have hv := vaciosDesde_pos hi hoc
          obtain ⟨hfin, hsig⟩ := compactar_casos t i
          by_cases hend : t.tableMaxSize ≤ i + (vaciosDesde t i).length
          · refine ⟨(indicesCompactar_enTabla hi rfl rfl hv).1 (Or.inl hend), ?_⟩
            rcases hc : compactar t i with ⟨t₁, sigue⟩
            have hfalse := hfin hend
            rw [hc] at hfalse
            obtain rfl : sigue = false := hfalse
            exact enTabla_nil
          · have hlt : i + (vaciosDesde t i).length < t.tableMaxSize := by omega
            obtain ⟨htrue, -⟩ := hsig hlt hv
            -- the run does not reach the last slot, which is free
            obtain ⟨hle, hrun, -⟩ := ocupadosDesde_corte t (Nat.le_of_lt hlt)
            have hcorta : i + (vaciosDesde t i).length
                + (ocupadosDesde t (i + (vaciosDesde t i).length)).length < t.tableMaxSize := by
              by_contra hge
              have hop := ocupadosDesde_pos hlt
              have := hrun (t.tableMaxSize - 1) (by omega) (by omega)
              rw [ultimaLibre, this] at hul
              cases hul
            refine ⟨(indicesCompactar_enTabla hi rfl rfl hv).1 (Or.inr hcorta), ?_⟩
            have htam := compactar_tableMaxSize t i
            have hul' : ultimaLibre (compactar t i).1 := by
              rw [ultimaLibre, htam, compactar_ocupadoEn hv hlt (by omega)]
              exact hul
            rcases hc : compactar t i with ⟨t₁, sigue⟩
            rw [hc] at htrue htam hul'
            obtain rfl : sigue = true := htrue
            simp only
            rw [← show t₁.tableMaxSize = t.tableMaxSize from htam]
            exact ih (i + 1) (by rw [show t₁.tableMaxSize = t.tableMaxSize from htam]; omega) hul'

/-- A sweep that starts with the last slot occupied and ends has left the
    table. -/
theorem indicesBarrer_fuera {fuera : Nat → Particion} :
    ∀ (vueltas i : Nat) {t t' : TableInfo}, i ≤ t.tableMaxSize → ¬ ultimaLibre t →
      barrer fuera vueltas i t = some t' →
      (t.tableMaxSize : Int) ∈ indicesBarrer fuera vueltas i t := by
  intro vueltas
  induction vueltas with
  | zero => intro i t t' _ _ h; cases h
  | succ v ih =>
      intro i t t' hi hul hr
      rw [indicesBarrer]
      by_cases hN : i = t.tableMaxSize
      · rw [hN]
        exact List.mem_cons_self
      refine List.mem_cons_of_mem _ ?_
      have hilt : i < t.tableMaxSize := by omega
      have hoc : ocupadoEn t i = some (t.leer fuera i).ocupado := leer_ocupado hilt
      simp only [barrer] at hr
      cases ho : (t.leer fuera i).ocupado with
      | true =>
          rw [ho, if_pos rfl] at hr
          rw [if_pos rfl]
          exact ih (i + 1) (by omega) hul hr
      | false =>
          rw [ho, if_neg (by simp)] at hr
          rw [if_neg (by simp)]
          rw [ho] at hoc
          have hv := vaciosDesde_pos hilt hoc
          obtain ⟨-, hfree, -⟩ := vaciosDesde_corte t (Nat.le_of_lt hilt)
          -- the last slot is occupied, so the free run ends before it
          have hlt : i + (vaciosDesde t i).length < t.tableMaxSize := by
            by_contra hge
            exact hul (hfree (t.tableMaxSize - 1) (by omega) (by omega))
          by_cases hrun : t.tableMaxSize ≤ i + (vaciosDesde t i).length
              + (ocupadosDesde t (i + (vaciosDesde t i).length)).length
          · exact List.mem_append_left _ ((indicesCompactar_enTabla hilt rfl rfl hv).2 hlt hrun)
          · refine List.mem_append_right _ ?_
            obtain ⟨htrue, -⟩ := (compactar_casos t i).2 hlt hv
            have htam := compactar_tableMaxSize t i
            have hul' : ¬ ultimaLibre (compactar t i).1 := by
              rw [ultimaLibre, htam, compactar_ocupadoEn hv hlt (by omega)]
              exact hul
            rcases hc : compactar t i with ⟨t₁, sigue⟩
            rw [hc] at htrue htam hul' hr
            obtain rfl : sigue = true := htrue
            simp only at htam hul' hr ⊢
            rw [← htam]
            exact ih (i + 1) (by omega) hul' hr

/-- **A SWEEP** that ends stays in the table exactly when the last slot is
    free at its start. -/
theorem indicesBarrer_iff {fuera : Nat → Particion} {vueltas : Nat}
    (hr : barrer fuera vueltas 0 t = some t') :
    EnTabla t.tableMaxSize (indicesBarrer fuera vueltas 0 t) ↔ ultimaLibre t := by
  constructor
  · intro h
    by_contra hul
    have := h _ (indicesBarrer_fuera vueltas 0 (Nat.zero_le _) hul hr)
    omega
  · intro hul
    refine indicesBarrer_enTabla vueltas 0 ?_ hul
    by_contra h0
    have hnil : t.elements = [] := List.length_eq_zero_iff.mp (Nat.eq_zero_of_not_pos h0)
    simp [ultimaLibre, ocupadoEn, hnil] at hul

/-! ## Placement -/

/-- The merged slot has the bytes of its hole. -/
theorem unirHueco_disponibles {fuera : Nat → Particion} {p k : Nat} {total : Int}
    (hp : p < t.tableMaxSize) :
    ((unirHueco t p k total).leer fuera p).bytesDisponibles = total := by
  have hp' : p < t.elements.length := hp
  have hfin : ∀ es : List Particion, es[p]? = (t.elements.modify p fun s =>
      { s with bytesDisponibles := total })[p]? →
        (es.getD p (fuera p)).bytesDisponibles = total := by
    intro es hes
    rw [List.getD_eq_getElem?_getD, hes, List.getElem?_modify, List.getElem?_eq_getElem hp']
    simp
  unfold unirHueco
  dsimp only
  split
  · refine hfin _ ?_
    -- the merge rewrites slots after `p` only
    have h₁ : ∀ l : List Particion, (iterar (fun i es => juntarParticionesVacias es (p + k + i) k)
        (t.tableMaxSize - 1 - (p + k)) l)[p]? = l[p]? :=
      iterar_modify_otra fun i es _ => getElem?_modify_otra _ _ (by omega)
    have h₂ : ∀ l : List Particion, (iterar (fun i es => es.modify (p + 1 + i) fun s =>
        { s with ocupado := false, bytesDisponibles := 0 }) (k - 1) l)[p]? = l[p]? :=
      iterar_modify_otra fun i es _ => getElem?_modify_otra _ _ (by omega)
    exact (h₁ _).trans (h₂ _)
  · exact hfin _ rfl

variable {n i : Nat}

/-- The slot a placement answers has the bytes. -/
theorem compactacion_disponibles {v j : Nat} {fuera : Nat → Particion}
    (hr : compactacion cfg e n v j t = some (t', i)) :
    (n : Int) ≤ (t'.leer fuera i).bytesDisponibles := by
  refine compactacion_regla (P := fun _ _ _ => True)
    (Q := fun t' i => (n : Int) ≤ (t'.leer fuera i).bytesDisponibles) ?_ ?_ ?_ v j trivial hr
  · intro v j t p k total _ hh
    obtain ⟨hp, -, hn⟩ := hueco_cota hh
    rw [unirHueco_disponibles hp]
    exact hn
  · intro v j t t₁ _ _ _ _
    trivial
  · intro v j t t₁ _ _ _ _
    trivial

/-- Every turn of the placement stays in the table: the hole it takes is not
    the last slot, and a sweep starts with the last slot free. -/
def VueltasEnTabla (cfg : Config) (e : Entorno) (n : Nat) : Nat → Nat → TableInfo → Prop :=
  EnCadaVuelta cfg e n (fun t p _ _ => p + 1 < t.tableMaxSize) ultimaLibre (fun _ _ => True)

/-- Turns that stay in the table touch no index outside. -/
theorem VueltasEnTabla.indices :
    ∀ (v j : Nat) {t : TableInfo}, VueltasEnTabla cfg e n v j t →
      EnTabla t.tableMaxSize (indicesCompactacion cfg e n v j t) := by
  intro v
  induction v with
  | zero => intro j t _; exact enTabla_nil
  | succ v ih =>
      intro j t h
      rw [indicesCompactacion, enTabla_append]
      refine ⟨indicesBuscar_enTabla _ _ _, ?_⟩
      cases hh : hueco cfg.algBusqueda t n with
      | some r => exact enTabla_nil
      | none =>
          dsimp only
          split
          · rename_i hc
            have hb := h.2 hh
            rw [if_pos hc] at hb
            rw [enTabla_append]
            refine ⟨?_, ?_⟩
            · refine indicesBarrer_enTabla e.vueltas 0 ?_ hb.1
              by_contra h0
              have hnil : t.elements = [] := List.length_eq_zero_iff.mp (Nat.eq_zero_of_not_pos h0)
              have := hb.1
              simp [ultimaLibre, ocupadoEn, hnil] at this
            · cases h1 : barrer e.fuera e.vueltas 0 t with
              | none => exact enTabla_nil
              | some t₁ =>
                  have := ih (j + 1) (hb.2 t₁ h1)
                  rwa [barrer_tableMaxSize h1] at this
          · rename_i hc
            have hq := h.2 hh
            rw [if_neg hc] at hq
            cases h1 : reemplazar (e.relojLru (j + 1)) t with
            | none => exact enTabla_nil
            | some t₁ =>
                have := ih (j + 1) (hq.2 t₁ h1)
                rwa [reemplazar_tableMaxSize h1] at this

/-- There is a slot after the one they answer. -/
theorem VueltasEnTabla.lugar {v j : Nat} (h : VueltasEnTabla cfg e n v j t)
    (hr : compactacion cfg e n v j t = some (t', i)) : i + 1 < t'.tableMaxSize := by
  refine compactacion_regla (P := fun v j t => VueltasEnTabla cfg e n v j t)
    (Q := fun t' i => i + 1 < t'.tableMaxSize) ?_ ?_ ?_ v j h hr
  · intro v j t p k total h hh
    rw [unirHueco_tableMaxSize]
    exact h.halla hh
  · intro v j t t₁ h hh hc h1
    exact (h.barre hh hc h1).2
  · intro v j t t₁ h hh hc h1
    exact (h.quita hh hc h1).2

/-- A placement that ends and stays in the table met the condition in every
    turn. -/
theorem vueltasEnTabla_of_indices :
    ∀ (v j : Nat) {t t' : TableInfo} {i : Nat}, compactacion cfg e n v j t = some (t', i) →
      i + 1 < t'.tableMaxSize → EnTabla t.tableMaxSize (indicesCompactacion cfg e n v j t) →
      VueltasEnTabla cfg e n v j t := by
  intro v
  induction v with
  | zero => intro j t t' i h _ _; cases h
  | succ v ih =>
      intro j t t' i hr hi hidx
      rw [indicesCompactacion, enTabla_append] at hidx
      replace hidx := hidx.2
      simp only [compactacion, buscarLugar_hueco] at hr
      cases hh : hueco cfg.algBusqueda t n with
      | some r =>
          obtain ⟨p, k, total⟩ := r
          rw [hh] at hr
          obtain ⟨rfl, rfl⟩ := Prod.mk.inj (Option.some.inj hr)
          rw [unirHueco_tableMaxSize] at hi
          refine ⟨fun r hr => ?_, fun hno => ?_⟩
          · rw [hh] at hr
            obtain rfl := Option.some.inj hr
            exact hi
          · rw [hh] at hno
            cases hno
      | none =>
          rw [hh] at hidx
          refine ⟨fun r hr => ?_, fun _ => ?_⟩
          · rw [hh] at hr
            cases hr
          · simp only [hh, Option.map_none] at hr
            dsimp only at hidx
            by_cases hc : ((j + 1 : Nat) : Int) = cfg.frecuenciaCompactacion ∨ t.elementsAmount = 0
            · rw [if_pos hc, enTabla_append] at hidx
              have hb : (barrer e.fuera e.vueltas 0 t).bind (compactacion cfg e n v (j + 1))
                  = some (t', i) := by
                rcases hc with hf | hz
                · rwa [if_pos hf] at hr
                · rw [if_neg (show ¬ t.elementsAmount ≠ 0 by simpa using hz)] at hr
                  split at hr <;> exact hr
              obtain ⟨t₁, h1, h2⟩ := Option.bind_eq_some_iff.mp hb
              rw [h1] at hidx
              rw [if_pos hc]
              refine ⟨(indicesBarrer_iff h1).mp hidx.1, fun t₂ ht₂ => ?_⟩
              obtain rfl := Option.some.inj (h1.symm.trans ht₂)
              refine ih (j + 1) h2 hi ?_
              rw [barrer_tableMaxSize h1]
              exact hidx.2
            · rw [if_neg hc] at hidx
              obtain ⟨hf, hz⟩ := not_or.mp hc
              rw [if_neg hf, if_pos hz] at hr
              obtain ⟨t₁, h1, h2⟩ := Option.bind_eq_some_iff.mp hr
              rw [h1] at hidx
              rw [if_neg hc]
              refine ⟨fun _ _ => trivial, fun t₂ ht₂ => ?_⟩
              obtain rfl := Option.some.inj (h1.symm.trans ht₂)
              refine ih (j + 1) h2 hi ?_
              rw [reemplazar_tableMaxSize h1]
              exact hidx

/-! ## Operations and runs -/

/-- No hole the operation takes is the last slot, and no sweep of it starts
    with the last slot occupied. -/
def IndiceSeguro (cfg : Config) (op : Op) (e : Entorno) (t : TableInfo) : Prop :=
  match op with
  | .set key valor => valor.length ≤ cfg.blockSizeMax → ∀ t' ∈ quitarPrevio t key,
      EnCadaVuelta cfg e valor.length (fun t p _ _ => p + 1 < t.tableMaxSize) ultimaLibre
        (fun _ _ => True) e.vueltas 0 t'
  | .get _ | .delete _ | .flushAll => True

instance (cfg : Config) (op : Op) (e : Entorno) (t : TableInfo) :
    Decidable (IndiceSeguro cfg op e t) :=
  match op with
  | .set key valor => inferInstanceAs (Decidable (valor.length ≤ cfg.blockSizeMax →
      ∀ t' ∈ quitarPrevio t key, EnCadaVuelta cfg e valor.length
        (fun t p _ _ => p + 1 < t.tableMaxSize) ultimaLibre (fun _ _ => True) e.vueltas 0 t'))
  | .get _ | .delete _ | .flushAll => inferInstanceAs (Decidable True)

theorem quitarPrevio_tableMaxSize {key : Clave} (h : quitarPrevio t key = some t') :
    t'.tableMaxSize = t.tableMaxSize := by
  rcases quitarPrevio_casos h with ⟨rfl, -⟩ | hr
  · rfl
  · exact micacheRemove_tableMaxSize hr

/-- One operation that meets the condition stays in the table. -/
theorem IndiceSeguro.enTabla {op : Op} (h : IndiceSeguro cfg op e t) :
    EnTabla t.tableMaxSize (indicesOp cfg op e t) := by
  cases op with
  | get key => exact enTabla_nil
  | delete key => exact enTabla_nil
  | flushAll => exact enTabla_nil
  | set key valor =>
      simp only [indicesOp]
      split
      · exact enTabla_nil
      · rename_i hmax
        cases hq : quitarPrevio t key with
        | none => exact enTabla_nil
        | some t₁ =>
            have hv : VueltasEnTabla cfg e valor.length e.vueltas 0 t₁ := h (by omega) t₁ hq
            rw [← quitarPrevio_tableMaxSize hq, enTabla_append]
            refine ⟨hv.indices _ _, ?_⟩
            cases hc : compactacion cfg e valor.length e.vueltas 0 t₁ with
            | none => exact enTabla_nil
            | some r =>
                obtain ⟨t₂, pos⟩ := r
                rw [← (compactacion_lt _ _ hc).1]
                exact (indicesCrear_enTabla (compactacion_disponibles hc)).mpr (hv.lugar hc)

/-- One operation that ends and stays in the table met the condition. -/
theorem indiceSeguro_of_enTabla {op : Op} {r : Respuesta}
    (hesq : cfg.esquema = .particionesDinamicas) (hr : ejecutar cfg op e t = some (t', r))
    (h : EnTabla t.tableMaxSize (indicesOp cfg op e t)) : IndiceSeguro cfg op e t := by
  cases op with
  | get key => trivial
  | delete key => trivial
  | flushAll => trivial
  | set key valor =>
      intro hmax t₁ hq
      have hr' : opSet cfg e t key valor = some (t', r) := hr
      unfold opSet at hr'
      rw [if_neg (by omega)] at hr'
      obtain ⟨⟨t₂, pos⟩, h1, -⟩ := Option.bind_eq_some_iff.mp hr'
      unfold colocar at h1
      rw [show quitarPrevio t key = some t₁ from hq, Option.bind_some] at h1
      simp only [hesq] at h1
      simp only [indicesOp] at h
      rw [if_neg (by omega), show quitarPrevio t key = some t₁ from hq] at h
      simp only [h1] at h
      rw [← quitarPrevio_tableMaxSize hq, enTabla_append] at h
      refine vueltasEnTabla_of_indices _ _ h1 ?_ h.1
      have h2 := h.2
      rw [← (compactacion_lt _ _ h1).1] at h2
      exact (indicesCrear_enTabla (compactacion_disponibles h1)).mp h2

/-- A condition passes to another that every operation of the run, where it
    ends, gives. -/
theorem Cumple.mono {C C' : Op → Entorno → TableInfo → Prop} :
    ∀ (ops : List (Op × Entorno)) {t t' : TableInfo}, correr cfg ops t = some t' →
      (∀ op e t x, (op, e) ∈ ops → ejecutar cfg op e t = some x → C op e t → C' op e t) →
      Cumple cfg C ops t → Cumple cfg C' ops t := by
  intro ops
  induction ops with
  | nil => intro t t' _ _ _; trivial
  | cons x ops ih =>
      intro t t' hr h hC
      obtain ⟨op, e⟩ := x
      obtain ⟨⟨t₁, r⟩, h1, h2⟩ := Option.bind_eq_some_iff.mp hr
      refine ⟨h op e t _ (by simp) h1 hC.1, fun x hx => ?_⟩
      obtain rfl := Option.some.inj (h1.symm.trans hx)
      exact ih h2 (fun op e t x hm => h op e t x (by simp [hm])) (hC.2 _ h1)

/-- A weaker condition is met as well. -/
theorem Cumple.imp {C C' : Op → Entorno → TableInfo → Prop}
    (h : ∀ op e t, C op e t → C' op e t) :
    ∀ (ops : List (Op × Entorno)) {t : TableInfo}, Cumple cfg C ops t → Cumple cfg C' ops t := by
  intro ops
  induction ops with
  | nil => intro t _; trivial
  | cons x ops ih =>
      intro t hC
      exact ⟨h _ _ _ hC.1, fun y hy => ih (hC.2 y hy)⟩

/-- **INDEX SAFETY**: the operations of a run touch only slots of the table
    when each of them takes no hole at the last slot and starts no sweep with
    the last slot occupied; and a run that ends does so only then. -/
theorem indices_en_tabla {cfg : Config} (hcfg : ConfigDin cfg) (ops : List (Op × Entorno)) :
    (Cumple cfg (fun op e t => ClaveCorta op ∧ IndiceSeguro cfg op e t) ops (cacheInitialize cfg) →
      Cumple cfg (fun op e t => EnTabla t.tableMaxSize (indicesOp cfg op e t)) ops
        (cacheInitialize cfg)) ∧
    ∀ t, correr cfg ops (cacheInitialize cfg) = some t → (∀ x ∈ ops, ClaveCorta x.1) →
      Cumple cfg (fun op e t => EnTabla t.tableMaxSize (indicesOp cfg op e t)) ops
        (cacheInitialize cfg) →
      Cumple cfg (fun op e t => ClaveCorta op ∧ IndiceSeguro cfg op e t) ops
        (cacheInitialize cfg) := by
  constructor
  · exact Cumple.imp (fun op e t h => h.2.enTabla) ops
  · intro t hr hcl h
    refine Cumple.mono ops hr ?_ h
    intro op e t x hm hx ht
    exact ⟨hcl (op, e) hm, indiceSeguro_of_enTabla hcfg.esquema hx ht⟩

/-- A run with sweeps and evictions that stays in the table. -/
theorem indices_en_tabla_barridos :
    Cumple (cacheDiez 1) (fun op e t => EnTabla t.tableMaxSize (indicesOp (cacheDiez 1) op e t))
      pedidosBarridos (cacheInitialize (cacheDiez 1)) :=
  (indices_en_tabla (cacheDiez_config 1) pedidosBarridos).1 (by decide)

/-- A cache of one chunk. -/
def cacheUna : Config :=
  { esquema := .particionesDinamicas, algBusqueda := .firstFit, algReemplazo := .lru
    frecuenciaCompactacion := -1, blockSizeMax := 2, chunkSize := 2, ptrdata := 100 }

/-- **INDEX SAFETY FAILS**: in a table of one slot the first SET reads the slot
    after it. -/
theorem indices_en_tabla_falla :
    (cacheInitialize cacheUna).tableMaxSize = 1
    ∧ 1 ∈ indicesOp cacheUna (.set [1] [1]) entornoDiez (cacheInitialize cacheUna)
    ∧ ¬ Cumple cacheUna (fun op e t => EnTabla t.tableMaxSize (indicesOp cacheUna op e t))
      [(.set [1] [1], entornoDiez)] (cacheInitialize cacheUna) := by
  decide

end Rc
