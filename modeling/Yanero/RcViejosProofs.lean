import Yanero.RcCompactarProofs
import Yanero.RcReglas
import Yanero.RcAsasProofs

/-! # Enough to evict

    `lru` assigns its victim only when some stored item was last used before
    its clock reading, and the placement loops call it as long as
    `elements_amount` is not zero.  This file counts the slots it can choose
    at every reading of one call.  A replacement takes one from the amount and
    at most one from the count, and neither a sweep nor a merge takes any, so
    a count that covers the amount before the loop covers it at every call. -/

namespace Rc

open Bucles

/-- A slot `lru` can choose at any reading of the call: occupied, stored, with
    its data, and last used before all of them. -/
def viejo (e : Entorno) (s : Particion) : Bool :=
  s.ocupado && s.item.stored && s.item.data != 0 &&
    (List.range (e.vueltas + 1)).all fun j => decide (s.ultimaVezUsada < e.relojLru j)

/-- The slots of the table `lru` can choose. -/
def viejos (e : Entorno) (t : TableInfo) : Nat := t.elements.countP (viejo e)

/-- The amount of elements is covered by slots `lru` can choose. -/
structure Cubierta (e : Entorno) (t : TableInfo) : Prop where
  nonneg : 0 ≤ t.elementsAmount
  le : t.elementsAmount ≤ viejos e t

/-- The data area starts somewhere and a chunk has bytes: no compaction gives
    an item a null address. -/
structure Direccionada (t : TableInfo) : Prop where
  chunk : 0 < t.sizeChunk
  inicio : EnCada (fun j s => j = 0 → s.item.data ≠ 0) t.elements

instance (e : Entorno) (t : TableInfo) : Decidable (Cubierta e t) :=
  decidable_of_iff (0 ≤ t.elementsAmount ∧ t.elementsAmount ≤ viejos e t)
    ⟨fun ⟨h₁, h₂⟩ => ⟨h₁, h₂⟩, fun ⟨h₁, h₂⟩ => ⟨h₁, h₂⟩⟩

instance (t : TableInfo) : Decidable (Direccionada t) :=
  decidable_of_iff (0 < t.sizeChunk ∧ ∀ s ∈ t.elements[0]?, s.item.data ≠ 0)
    ⟨fun ⟨h₁, h₂⟩ => ⟨h₁, fun _ s hs h => h₂ s (h ▸ hs)⟩,
      fun ⟨h₁, h₂⟩ => ⟨h₁, fun s hs => h₂ 0 s hs rfl⟩⟩

section Cuenta

variable {e : Entorno} {t t' : TableInfo} {s s' : Particion} {l : List Particion}

theorem viejo_iff : viejo e s = true ↔ s.ocupado = true ∧ s.item.stored = true
    ∧ s.item.data ≠ 0 ∧ ∀ j ≤ e.vueltas, s.ultimaVezUsada < e.relojLru j := by
  simp only [viejo, Bool.and_eq_true, bne_iff_ne, List.all_eq_true, List.mem_range,
    decide_eq_true_eq, Nat.lt_succ_iff, and_assoc]

theorem viejo_libre (h : s.ocupado = false) : viejo e s = false := by simp [viejo, h]

theorem countP_viejo_libres (h : ∀ s ∈ l, s.ocupado = false) : l.countP (viejo e) = 0 := by
  rw [List.countP_eq_zero]
  intro s hs
  simp [viejo_libre (h s hs)]

/-- Only occupied slots count. -/
theorem countP_viejo_ocupadas (l : List Particion) :
    (ocupadas l).countP (viejo e) = l.countP (viejo e) := by
  rw [ocupadas, List.countP_filter]
  refine List.countP_congr fun s _ => ?_
  simp only [Bool.and_eq_true, and_iff_left_iff_imp]
  exact fun h => (viejo_iff.mp h).1

/-- A rewrite that keeps a slot as old as it was loses none. -/
theorem countP_viejo_modify {f : Particion → Particion}
    (hf : ∀ s, viejo e s = true → viejo e (f s) = true) :
    ∀ (l : List Particion) (i : Nat), l.countP (viejo e) ≤ (l.modify i f).countP (viejo e) := by
  intro l
  induction l with
  | nil => intro i; simp
  | cons s l ih =>
      intro i
      cases i with
      | zero =>
          rw [List.modify_zero_cons, List.countP_cons, List.countP_cons]
          have := hf s
          split <;> split <;> simp_all
      | succ i =>
          rw [List.modify_succ_cons, List.countP_cons, List.countP_cons]
          exact Nat.add_le_add_right (ih i) _

end Cuenta

/-! ## Removal and replacement -/

section Bajas

variable {e : Entorno} {t t' : TableInfo}

/-- A removal frees one occupied slot, and counts it off when it has data. -/
theorem micacheRemove_parte {key : Clave} (h : micacheRemove t key = some t') :
    ∃ A s B, t.elements = A ++ s :: B ∧ t'.elements = A ++ liberada t.sizeChunk s :: B
      ∧ t'.elementsAmount = (if s.item.data = 0 then t.elementsAmount else t.elementsAmount - 1)
      ∧ t'.sizeChunk = t.sizeChunk := by
  unfold micacheRemove micacheRemoveElement at h
  obtain ⟨⟨t₁, data⟩, h1, ht'⟩ := Option.map_eq_some_iff.mp h
  obtain ⟨q, hq, h2⟩ := Option.map_eq_some_iff.mp h1
  obtain ⟨A, s, B, hes, hlen, -, -⟩ := ultimoIndice_parte hq
  have hget : t.elements.getD q Particion.vacia = s := by
    rw [hes, ← hlen]
    exact getD_mitad _ _ _ _
  rw [hget] at h2
  obtain ⟨rfl, rfl⟩ := Prod.mk.inj h2
  have hmod : t.elements.modify q (liberada t.sizeChunk) = A ++ liberada t.sizeChunk s :: B := by
    rw [hes, ← hlen, modify_mitad]
  refine ⟨A, s, B, hes, ?_⟩
  rw [← ht']
  by_cases h0 : s.item.data = 0
  · simp only [h0, if_true]
    exact ⟨hmod, rfl, rfl⟩
  · simp only [h0, if_false]
    exact ⟨hmod, rfl, rfl⟩

theorem Cubierta.remove {key : Clave} (h : Cubierta e t) (hcant : t.elementsAmount ≠ 0)
    (hr : micacheRemove t key = some t') : Cubierta e t' := by
  obtain ⟨A, s, B, hes, hes', hamount, -⟩ := micacheRemove_parte hr
  have hle := h.le
  have hnn := h.nonneg
  have hlib : viejo e (liberada t.sizeChunk s) = false := viejo_libre rfl
  simp only [viejos, hes, List.countP_append, List.countP_cons] at hle
  constructor
  · rw [hamount]
    split <;> omega
  · simp only [viejos, hes', List.countP_append, List.countP_cons, hlib, hamount]
    by_cases h0 : s.item.data = 0
    · have hs : viejo e s = false := by
        rw [← Bool.not_eq_true]
        exact fun hv => (viejo_iff.mp hv).2.2.1 h0
      simp only [hs] at hle
      simp only [h0, if_true]
      simpa using hle
    · simp only [h0, if_false]
      split at hle <;> simp at hle ⊢ <;> omega

theorem Direccionada.modifica {i : Nat} {f : Particion → Particion} (h : Direccionada t)
    (hf : ∀ s, s.item.data ≠ 0 → (f s).item.data ≠ 0) (he : t'.elements = t.elements.modify i f)
    (hc : t'.sizeChunk = t.sizeChunk) : Direccionada t' := by
  refine ⟨by rw [hc]; exact h.chunk, ?_⟩
  rw [he]
  exact h.inicio.modify fun s _ hs h0 => hf s (hs h0)

theorem Direccionada.remove {key : Clave} (h : Direccionada t)
    (hr : micacheRemove t key = some t') : Direccionada t' := by
  obtain ⟨A, s, B, hes, hes', -, hc⟩ := micacheRemove_parte hr
  refine h.modifica (i := A.length) (f := liberada t.sizeChunk) ?_ ?_ hc
  · exact fun _ hs => hs
  · rw [hes', hes, modify_mitad]

theorem Cubierta.reemplazar {ahora : Nat} (h : Cubierta e t) (hcant : t.elementsAmount ≠ 0)
    (hr : reemplazar ahora t = some t') : Cubierta e t' := by
  obtain ⟨key, t₁, -, hrem, rfl⟩ := reemplazar_remove hr
  have h₁ := h.remove hcant hrem
  exact ⟨h₁.nonneg, h₁.le⟩

theorem Direccionada.reemplazar {ahora : Nat} (h : Direccionada t)
    (hr : reemplazar ahora t = some t') : Direccionada t' := by
  obtain ⟨key, t₁, -, hrem, rfl⟩ := reemplazar_remove hr
  have h₁ := h.remove hrem
  exact ⟨h₁.chunk, h₁.inicio⟩

/-- **A VICTIM**: while there are elements, `lru` has a stored item to choose
    at every reading of the call. -/
theorem Cubierta.hay {j : Nat} (h : Cubierta e t) (hcant : t.elementsAmount ≠ 0)
    (hj : j ≤ e.vueltas) : ∃ s ∈ t.elements, s.ocupado = true ∧ s.item.stored = true
      ∧ s.ultimaVezUsada < e.relojLru j := by
  have hpos : 0 < t.elements.countP (viejo e) := by
    have hle := h.le
    have hnn := h.nonneg
    simp only [viejos] at hle
    omega
  obtain ⟨s, hs, hv⟩ := List.countP_pos_iff.mp hpos
  obtain ⟨ho, hst, -, hreloj⟩ := viejo_iff.mp hv
  exact ⟨s, hs, ho, hst, hreloj j hj⟩

end Bajas

/-! ## The sweep -/

section Barrido

variable {e : Entorno} {t t' : TableInfo}

/-- A slot moved to an address that is not null stays as old as it was. -/
theorem viejo_movida {s : Particion} {q : Nat} (hq : q ≠ 0) (h : viejo e s = true) :
    viejo e { s with item := { s.item with data := q } } = true := by
  obtain ⟨ho, hst, -, hreloj⟩ := viejo_iff.mp h
  exact viejo_iff.mpr ⟨ho, hst, hq, hreloj⟩

/-- The items moved up are as old as before. -/
theorem countP_viejo_recolocar {c : Nat} (O : List Particion) : ∀ {q : Nat}, q ≠ 0 →
    O.countP (viejo e) ≤ (recolocar c q (O.map sinInutiles)).countP (viejo e) := by
  induction O with
  | nil => intro q _; simp
  | cons o O ih =>
      intro q hq
      rw [List.map_cons, recolocar, List.countP_cons, List.countP_cons]
      have hO := ih (q := q + ocupa c (sinInutiles o).item.ndata) (by omega)
      refine Nat.add_le_add hO ?_
      cases hv : viejo e o with
      | false => exact Nat.zero_le _
      | true =>
          have hv' : viejo e { sinInutiles o with
              item := { (sinInutiles o).item with data := q } } = true :=
            viejo_movida (s := sinInutiles o) hq hv
          rw [if_pos rfl, if_pos hv']

/-- Where the next item goes, and that it is not the null address. -/
theorem comienza_de {c : Nat} (A : List Particion) (g : Particion) (hc : 0 < c)
    (hg : A = [] → g.item.data ≠ 0) : ∃ q, Comienza c A g q ∧ q ≠ 0 := by
  rcases List.eq_nil_or_concat A with rfl | ⟨P, s, rfl⟩
  · exact ⟨g.item.data, ⟨fun _ => rfl, fun P' s hs => absurd hs (by simp)⟩, hg rfl⟩
  · refine ⟨comienzoSiguiente c s, ⟨fun h => absurd h (by simp), ?_⟩, ?_⟩
    · intro P' s' hs
      rw [List.concat_eq_append] at hs
      obtain ⟨-, hs⟩ := List.append_inj' hs rfl
      rw [(List.cons.inj hs).1]
    · rw [comienzoSiguiente_eq, ocupa]
      split <;> omega

/-- The end of a compaction keeps what is old and the start of the area. -/
theorem cargarTotal_viejos {u : TableInfo} (posAux : Nat) (total : Int) (hu : Direccionada u) :
    Direccionada (cargarTotal u posAux total)
      ∧ viejos e u ≤ viejos e (cargarTotal u posAux total) := by
  have hsig : comienzoSiguiente u.sizeChunk (u.elements.getD posAux Particion.vacia) ≠ 0 := by
    have := hu.chunk
    rw [comienzoSiguiente_eq, ocupa]
    split <;> omega
  unfold cargarTotal
  split
  · constructor
    · refine hu.modifica (f := fun s => { s with bytesInutilizados := total }) ?_ rfl rfl
      exact fun _ hs => hs
    · refine countP_viejo_modify ?_ u.elements posAux
      exact fun _ hs => hs
  · constructor
    · refine hu.modifica (i := posAux + 1) (f := fun s => { s with
        bytesDisponibles := total
        item := { s.item with
          data := comienzoSiguiente u.sizeChunk (u.elements.getD posAux Particion.vacia) } }) ?_
        rfl rfl
      exact fun _ _ => hsig
    · refine countP_viejo_modify (fun s hs => ?_) u.elements (posAux + 1)
      obtain ⟨ho, hst, -, hreloj⟩ := viejo_iff.mp hs
      exact viejo_iff.mpr ⟨ho, hst, hsig, hreloj⟩

section Compacta

variable {A G : List Particion} {g : Particion}

/-- The part of a table behind its first slot does not change where the table
    starts. -/
theorem Direccionada.cabeza (h : Direccionada t) {X Y : List Particion} (hA : A ≠ [])
    (hes : t.elements = A ++ X) : EnCada (fun j s => j = 0 → s.item.data ≠ 0) (A ++ Y) := by
  obtain ⟨a, A, rfl⟩ := List.exists_cons_of_ne_nil hA
  intro j s hj hj0
  subst hj0
  obtain rfl := Option.some.inj hj
  exact h.inicio 0 _ (by rw [hes]; rfl) rfl

/-- The last compaction of a sweep loses no old item. -/
theorem compactar_viejos_fin (h : Direccionada t) (hes : t.elements = A ++ g :: G)
    (hV : ∀ s ∈ g :: G, s.ocupado = false) :
    Direccionada (compactar t A.length).1 ∧ viejos e t ≤ viejos e (compactar t A.length).1 := by
  rw [compactar_fin hes hV]
  have hcuenta : viejos e t = (A ++ (g :: G).map sinLibres).countP (viejo e) := by
    rw [viejos, hes, List.countP_append, List.countP_append, List.countP_map]
    rfl
  have hini : EnCada (fun j s => j = 0 → s.item.data ≠ 0) (A ++ (g :: G).map sinLibres) := by
    by_cases hA : A = []
    · subst hA
      intro j s hj hj0
      subst hj0
      obtain rfl := Option.some.inj hj
      exact h.inicio 0 g (by rw [hes]; rfl) rfl
    · exact h.cabeza hA hes
  refine ⟨⟨h.chunk, hini.modify fun _ _ hs => hs⟩, ?_⟩
  rw [hcuenta]
  refine countP_viejo_modify ?_ _ _
  exact fun _ hs => hs

/-- A compaction that moves items loses no old one. -/
theorem compactar_viejos_corrida {O R : List Particion} (h : Direccionada t)
    (hes : t.elements = A ++ (g :: G ++ (O ++ R))) (hV : ∀ s ∈ g :: G, s.ocupado = false)
    (hO : O ≠ []) (hOoc : ∀ s ∈ O, s.ocupado = true)
    (hR : ∀ s, R.head? = some s → s.ocupado = false) :
    Direccionada (compactar t A.length).1 ∧ viejos e t ≤ viejos e (compactar t A.length).1 := by
  have hdata : A = [] → g.item.data ≠ 0 := by
    rintro rfl
    exact h.inicio 0 g (by rw [hes]; rfl) rfl
  obtain ⟨q, hq, hq0⟩ := comienza_de A g h.chunk hdata
  obtain ⟨g', G', hG', -, hcom⟩ := compactar_corrida (Q := fun s => s.ocupado = false)
    (fun _ => rfl) hes hV hV hO hOoc hR hq
  rw [hcom]
  have hbase : Direccionada { t with
      elements := A ++ (recolocar t.sizeChunk q (O.map sinInutiles) ++ (g' :: G' ++ R))
      memoria := moverTodas t.sizeChunk q (O.map sinInutiles) t.memoria } := by
    refine ⟨h.chunk, ?_⟩
    by_cases hA : A = []
    · subst hA
      obtain ⟨o, O, rfl⟩ := List.exists_cons_of_ne_nil hO
      intro j s hj hj0
      subst hj0
      obtain rfl := Option.some.inj hj
      exact hq0
    · exact h.cabeza hA hes
  obtain ⟨hdir, hle⟩ := cargarTotal_viejos (e := e) (A.length + O.length - 1)
    ((O.map (·.bytesInutilizados)).sum + ((g :: G).map (·.bytesDisponibles)).sum) hbase
  refine ⟨hdir, le_trans ?_ hle⟩
  have hmueve := countP_viejo_recolocar (e := e) (c := t.sizeChunk) O hq0
  simp only [viejos, hes, List.countP_append, countP_viejo_libres hG',
    countP_viejo_libres hV]
  omega

/-- **A COMPACTION** loses no old item. -/
theorem compactar_viejos {i : Nat} (h : Direccionada t)
    (ho : ∀ s, t.elements[i]? = some s → s.ocupado = false) :
    Direccionada (compactar t i).1 ∧ viejos e t ≤ viejos e (compactar t i).1 := by
  by_cases hi : t.tableMaxSize ≤ i
  · rw [compactar_fuera hi]
    exact ⟨h, Nat.le_refl _⟩
  obtain ⟨A, g, X, hes, rfl⟩ : ∃ A g X, t.elements = A ++ g :: X ∧ A.length = i := by
    have hi' : i < t.elements.length := Nat.lt_of_not_le hi
    exact ⟨t.elements.take i, t.elements[i], t.elements.drop (i + 1), by simp, by simp; omega⟩
  have hg : g.ocupado = false := ho g (by rw [hes]; simp)
  by_cases hX : ocupadas X = []
  · refine compactar_viejos_fin h hes fun s hs => ?_
    rcases List.mem_cons.mp hs with rfl | hs
    · exact hg
    · exact ocupadas_eq_nil.mp hX s hs
  · -- the free run, the occupied run after it, the rest
    obtain ⟨G, O, R, rfl, hG, hO, hOoc, hR⟩ := parte_ocupada hX
    refine compactar_viejos_corrida h hes (fun s hs => ?_) hO hOoc hR
    rcases List.mem_cons.mp hs with rfl | hs
    · exact hg
    · exact hG s hs

end Compacta

/-- **THE SWEEP** loses no old item. -/
theorem barrer_viejos {fuera : Nat → Particion} {vueltas i : Nat} (h : Direccionada t)
    (hr : barrer fuera vueltas i t = some t') : Direccionada t' ∧ viejos e t ≤ viejos e t' := by
  obtain ⟨-, hb⟩ := barrer_regla
    (P := fun _ u => Direccionada u ∧ viejos e t ≤ viejos e u) (fun _ _ hu _ => hu)
    (fun i u hu ho => by
      have hlibre : ∀ s, u.elements[i]? = some s → s.ocupado = false := by
        intro s hs
        rwa [TableInfo.leer, List.getD_eq_getElem?_getD, hs] at ho
      obtain ⟨hdir, hle⟩ := compactar_viejos (e := e) hu.1 hlibre
      exact ⟨hdir, hu.2.trans hle⟩)
    vueltas i ⟨h, Nat.le_refl _⟩ hr
  exact hb

theorem Cubierta.barrer {fuera : Nat → Particion} {vueltas i : Nat} (h : Cubierta e t)
    (hd : Direccionada t) (hr : barrer fuera vueltas i t = some t') : Cubierta e t' := by
  obtain ⟨-, hle⟩ := barrer_viejos (e := e) hd hr
  have hcant : t'.elementsAmount = t.elementsAmount := by rw [barrer_marco hr]
  have := h.le
  exact ⟨by rw [hcant]; exact h.nonneg, by omega⟩

end Barrido

/-! ## The merges -/

section Uniones

variable {e : Entorno} {fuera : Nat → Particion} {t t' : TableInfo}

/-- A merge of two free slots changes no occupied one. -/
theorem unirHermana_ocupadas {A R : List Particion} {u w : Particion} (s : Particion)
    (hes : t.elements = A ++ u :: w :: R) (hu : u.ocupado = false) (hw : w.ocupado = false) :
    ocupadas (unirHermana t A.length s).elements = ocupadas t.elements := by
  let w₁ : Particion := { w with
    bytesDisponibles := w.bytesDisponibles + s.bytesDisponibles
    item := { w.item with data := s.item.data } }
  have hes₁ : (t.modificar (A.length + 1) fun g =>
      { g with
        bytesDisponibles := g.bytesDisponibles + s.bytesDisponibles
        item := { g.item with data := s.item.data } }).elements = A ++ u :: w₁ :: R := by
    have hl : A.length + 1 = (A ++ [u]).length := by simp
    have hs' : A ++ u :: w :: R = (A ++ [u]) ++ w :: R := by simp
    simp only [TableInfo.modificar, hes, hl, hs', modify_mitad]
    simp [w₁]
  obtain ⟨z, hz, hvz⟩ := desplazarUnoArriba_vista hes₁ (by simp)
  have hw₁ : w₁.ocupado = false := hw
  rw [← ocupadas_vista, unirHermana, hvz, hes]
  simp only [ocupadas_append, ocupadas_map_limpia, ocupadas_cons_of_false hu,
    ocupadas_cons_of_false hw, ocupadas_cons_of_false hw₁, ocupadas_cons_of_false hz.1]
  simp

/-- **A TURN** of a merging pass changes no occupied slot. -/
theorem unirTurno_ocupadas {p : Pasada} {i : Nat} (hi : i < p.self.tableMaxSize)
    (h0 : i = 0 → p.acum = 0) :
    ocupadas (unirTurno fuera i p).self.elements = ocupadas p.self.elements := by
  rcases unirTurno_casos fuera hi h0 with ⟨hself, -⟩ | ⟨A, u, w, R, hf, -⟩ | ⟨A, u, w, R, hf, -⟩
  · rw [hself]
  · rw [hf.self, unirHermana_ocupadas u hf.tabla hf.arriba hf.abajo]
  · rw [hf.self, unirHermana_ocupadas u hf.tabla hf.arriba hf.abajo]

/-- The merging passes change no occupied slot. -/
theorem unirTodasLasHermanas_ocupadas : ∀ (vueltas : Nat) {t t' : TableInfo},
    unirTodasLasHermanas fuera vueltas t = some t' →
      ocupadas t'.elements = ocupadas t.elements ∧ t'.elementsAmount = t.elementsAmount := by
  intro vueltas
  induction vueltas with
  | zero => intro t t' h; exact nomatch h
  | succ v ih =>
      intro t t' hr
      obtain ⟨-, -, hp, ha⟩ := iterar_invariante (f := unirTurno fuera) (n := t.tableMaxSize)
        (s := (⟨t, 0, false⟩ : Pasada))
        (fun i p => (i = 0 → p.acum = 0) ∧ p.self.tableMaxSize = t.tableMaxSize
          ∧ ocupadas p.self.elements = ocupadas t.elements
          ∧ p.self.elementsAmount = t.elementsAmount)
        ⟨fun _ => rfl, rfl, rfl, rfl⟩
        (fun i p hi ⟨h0, hlen, hoc, ham⟩ => by
          refine ⟨fun h => absurd h (by omega), (unirTurno_tableMaxSize i p).trans hlen,
            (unirTurno_ocupadas (by omega) h0).trans hoc, ?_⟩
          rw [← ham]
          rcases unirTurno_casos fuera (by omega) h0 with
            ⟨hself, -⟩ | ⟨A, u, w, R, hf, -⟩ | ⟨A, u, w, R, hf, -⟩
          · rw [hself]
          · rw [hf.self]; rfl
          · rw [hf.self]; rfl)
      simp only [unirTodasLasHermanas] at hr
      split at hr
      · obtain ⟨hoc', ha'⟩ := ih hr
        exact ⟨hoc'.trans hp, ha'.trans ha⟩
      · rw [← Option.some.inj hr]
        exact ⟨hp, ha⟩

theorem Cubierta.unir {vueltas : Nat} (h : Cubierta e t)
    (hr : unirTodasLasHermanas fuera vueltas t = some t') : Cubierta e t' := by
  obtain ⟨hoc, ha⟩ := unirTodasLasHermanas_ocupadas vueltas hr
  have hv : viejos e t' = viejos e t := by
    rw [viejos, viejos, ← countP_viejo_ocupadas, hoc, countP_viejo_ocupadas]
  exact ⟨by rw [ha]; exact h.nonneg, by rw [ha, hv]; exact h.le⟩

end Uniones

end Rc
