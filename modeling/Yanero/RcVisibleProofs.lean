import Yanero.RcAsasRunProofs
import Yanero.RcReglas

/-! # Which keys the table shows

    A SET may be given up after `item_allocate`: its item is then released
    without having been stored.  This file follows the keys of the occupied
    slots through every routine of both schemes, with no assumption on the
    layout of the table, and compares them with the record of which
    allocations were stored.

    Neither creation routine resets the `stored` mark of the slot it is
    given, so a mark left there by an older item makes the release of a given
    up SET keep its item. -/

namespace Rc

open Bucles Corridas

/-- Every occupied slot at an index in `I` has a key in `K`. -/
def ClavesDonde (I : Nat → Prop) (K : Clave → Prop) (es : List Particion) : Prop :=
  ∀ j s, es[j]? = some s → I j → s.ocupado = true → K s.item.key

/-- Every occupied slot, but for slot `i` if one is named, has a key in `K`. -/
def ClavesEn (K : Clave → Prop) (i : Option Nat) (es : List Particion) : Prop :=
  ClavesDonde (fun j => some j ≠ i) K es

/-- The indices from some one on: what moves up comes from one of them. -/
def HastaElFinal (I : Nat → Prop) : Prop := ∀ q j, q ≤ j → I q → I j

/-- All slots. -/
theorem hastaElFinal_todas : HastaElFinal fun j => some j ≠ none := fun _ _ _ _ => by simp

/-- The slots after a position. -/
theorem hastaElFinal_tras (pos : Nat) : HastaElFinal fun j => pos < j :=
  fun _ _ h h' => Nat.lt_of_lt_of_le h' h

/-- A rewrite that occupies no slot and changes no key of an occupied one. -/
def NoOcupa (f : Particion → Particion) : Prop :=
  ∀ s, (f s).ocupado = true → s.ocupado = true ∧ (f s).item.key = s.item.key

/-- A rewrite that leaves what `src` shows, or nothing. -/
def CopiaDe (src : Particion) (f : Particion → Particion) : Prop :=
  ∀ s, (f s).ocupado = true → src.ocupado = true ∧ (f s).item.key = src.item.key

/-- `copiarDescriptor` is a copy. -/
theorem copiaDe_descriptor (src : Particion) : CopiaDe src (copiarDescriptor src) := by
  intro s h
  cases ho : src.ocupado with
  | true =>
      rw [copiarDescriptor_ocupado s ho]
      exact ⟨rfl, rfl⟩
  | false => simp [copiarDescriptor, ho] at h

section Claves

variable {I : Nat → Prop} {K K' : Clave → Prop} {i : Option Nat} {es : List Particion}

/-- A weaker property of the keys. -/
theorem ClavesEn.mono (h : ClavesEn K i es) (hK : ∀ k, K k → K' k) : ClavesEn K' i es :=
  fun j s hj hi ho => hK _ (h j s hj hi ho)

/-- One slot need not be looked at. -/
theorem ClavesEn.menos (h : ClavesEn K none es) : ClavesEn K i es :=
  fun j s hj _ ho => h j s hj (by simp) ho

/-- Without an exception it is a property of the occupied slots. -/
theorem clavesEn_iff : ClavesEn K none es ↔ ∀ s ∈ ocupadas es, K s.item.key := by
  constructor
  · intro h s hs
    obtain ⟨hs, ho⟩ := mem_ocupadas.mp hs
    obtain ⟨j, hj⟩ := List.mem_iff_getElem?.mp hs
    exact h j s hj (by simp) ho
  · intro h j s hj _ ho
    exact h s (mem_ocupadas.mpr ⟨List.mem_of_getElem? hj, ho⟩)

/-- A change of one slot is asked of that slot alone. -/
theorem ClavesDonde.modify {f : Particion → Particion} {q : Nat} (h : ClavesDonde I K es)
    (hf : I q → ∀ s, es[q]? = some s → (f s).ocupado = true → K (f s).item.key) :
    ClavesDonde I K (es.modify q f) :=
  EnCada.modify h fun s hs _ hi ho => hf hi s hs ho

/-- A change that occupies nothing is asked nothing. -/
theorem ClavesDonde.toca {f : Particion → Particion} (h : ClavesDonde I K es) (hf : NoOcupa f)
    (q : Nat) : ClavesDonde I K (es.modify q f) := by
  refine h.modify fun hq s hs ho => ?_
  rw [(hf s ho).2]
  exact h q s hs hq (hf s ho).1

/-- A copy takes its key from a slot that was looked at. -/
theorem ClavesDonde.copia {f : Particion → Particion} {q j : Nat} (h : ClavesDonde I K es)
    (hf : CopiaDe (es.getD j Particion.vacia) f) (hj : I q → I j) :
    ClavesDonde I K (es.modify q f) := by
  refine h.modify fun hq s _ ho => ?_
  obtain ⟨hso, hk⟩ := hf s ho
  rw [hk]
  rw [List.getD_eq_getElem?_getD] at hso ⊢
  cases hsrc : es[j]? with
  | none => rw [hsrc] at hso; cases hso
  | some src =>
      rw [hsrc] at hso
      exact h j src hsrc (hj hq) hso

/-- So does a loop whose turns do. -/
theorem ClavesDonde.iterar {f : Nat → List Particion → List Particion} {m : Nat}
    (h : ClavesDonde I K es)
    (hf : ∀ j es, j < m → ClavesDonde I K es → ClavesDonde I K (f j es)) :
    ClavesDonde I K (iterar f m es) :=
  EnCada.iterar h hf

end Claves

/-! ## The routines -/

section Rutinas

variable {I : Nat → Prop} {K : Clave → Prop} {t t' : TableInfo} {cfg : Config} {e : Entorno}

/-- A freed slot is not occupied. -/
theorem noOcupa_liberada (c : Nat) : NoOcupa (liberada c) := fun _ h => by cases h

/-- A removal frees the last slot with the key. -/
theorem micacheRemove_elements {key : Clave} (h : micacheRemove t key = some t') :
    ∃ q, ultimoIndice (coincide key) t.elements = some q
      ∧ t'.elements = t.elements.modify q (liberada t.sizeChunk) := by
  unfold micacheRemove micacheRemoveElement at h
  obtain ⟨⟨t₁, data⟩, h1, ht'⟩ := Option.map_eq_some_iff.mp h
  obtain ⟨q, hq, h2⟩ := Option.map_eq_some_iff.mp h1
  obtain ⟨rfl, -⟩ := Prod.mk.inj h2
  refine ⟨q, hq, ?_⟩
  rw [← ht']
  dsimp only
  split <;> rfl

/-- A removal brings no key in. -/
theorem micacheRemove_claves {key : Clave} (h : ClavesDonde I K t.elements)
    (hr : micacheRemove t key = some t') : ClavesDonde I K t'.elements := by
  obtain ⟨q, -, he⟩ := micacheRemove_elements hr
  rw [he]
  exact h.toca (noOcupa_liberada _) q

/-- Nor does an eviction. -/
theorem reemplazar_claves {ahora : Nat} (h : ClavesDonde I K t.elements)
    (hr : reemplazar ahora t = some t') : ClavesDonde I K t'.elements := by
  obtain ⟨key, t₁, -, h1, rfl⟩ := reemplazar_remove hr
  show ClavesDonde I K t₁.elements
  exact micacheRemove_claves h h1

/-- The free bytes occupy nothing. -/
theorem noOcupa_disponibles (b : Particion → Int) :
    NoOcupa fun s => { s with bytesDisponibles := b s } := fun _ h => ⟨h, rfl⟩

/-- Nor do the bytes lost. -/
theorem noOcupa_inutilizados (b : Particion → Int) :
    NoOcupa fun s => { s with bytesInutilizados := b s } := fun _ h => ⟨h, rfl⟩

/-- Nor does the time of use. -/
theorem noOcupa_usar (ahora : Nat) : NoOcupa fun s => { s with ultimaVezUsada := ahora } :=
  fun _ h => ⟨h, rfl⟩

/-- The merge of a hole; the slots it copies up come from below it. -/
theorem unirHueco_claves (hI : HastaElFinal I) {p k : Nat} {total : Int}
    (h : ClavesDonde I K t.elements) : ClavesDonde I K (unirHueco t p k total).elements := by
  have h₁ := h.toca (noOcupa_disponibles fun _ => total) p
  unfold unirHueco
  dsimp only
  split
  · refine (h₁.iterar fun j es _ hes => ?_).iterar fun j es _ hes => ?_
    · exact hes.toca (fun _ h => by cases h) _
    · exact hes.copia (copiaDe_descriptor _) (hI _ _ (by omega))
  · exact h₁

/-- The shift of a sweep brings no key in. -/
theorem desplazarArriba_claves (hI : HastaElFinal I) {topos cantVacios : Nat}
    (h : ClavesDonde I K t.elements) :
    ClavesDonde I K (desplazarArriba t topos cantVacios).elements := by
  refine (h.copia (j := topos + cantVacios) ?_ (hI _ _ (by omega))).toca ?_ _
  · exact fun _ h => ⟨h, rfl⟩
  · exact fun _ h => by cases h

/-- Nor does one turn of the sweep. -/
theorem compactar_claves (hI : HastaElFinal I) (pos : Nat)
    (h : ClavesDonde I K t.elements) :
    ClavesDonde I K (compactar t pos).1.elements := by
  have hmov : ∀ (m k : Nat) (es : List Particion), ClavesDonde I K es →
      ClavesDonde I K (iterar (fun j u => desplazarArriba u (pos + j) k) m
        { t with elements := es }).elements := by
    intro m k es hes
    exact iterar_invariante (f := fun j u => desplazarArriba u (pos + j) k)
      (s := { t with elements := es }) (fun _ (u : TableInfo) => ClavesDonde I K u.elements) hes
      (fun j u _ hu => desplazarArriba_claves hI hu)
  have h₁ : ∀ m, ClavesDonde I K (iterar (fun j es => es.modify (pos + j)
      fun s => { s with bytesDisponibles := 0 }) m t.elements) :=
    fun m => h.iterar fun j es _ hes => hes.toca (noOcupa_disponibles _) _
  have h₂ : ∀ m k es, ClavesDonde I K es → ClavesDonde I K (iterar (fun j es =>
      es.modify (pos + k + j) fun s => { s with bytesInutilizados := 0 }) m es) :=
    fun m k es hes => hes.iterar fun j es _ hes => hes.toca (noOcupa_inutilizados _) _
  unfold compactar
  dsimp only
  split
  · refine (h₁ _).toca ?_ _
    exact fun _ h => ⟨h, rfl⟩
  · split
    · exact h₂ _ _ _ (h₁ _)
    · split
      · exact (hmov _ _ _ (h₂ _ _ _ (h₁ _))).toca (noOcupa_inutilizados _) _
      · refine (hmov _ _ _ (h₂ _ _ _ (h₁ _))).toca ?_ _
        exact fun _ h => ⟨h, rfl⟩

/-- Nor does the whole sweep. -/
theorem barrer_claves (hI : HastaElFinal I) {vueltas j : Nat} {fuera : Nat → Particion}
    (h : ClavesDonde I K t.elements) (hr : barrer fuera vueltas j t = some t') :
    ClavesDonde I K t'.elements := by
  obtain ⟨-, hb⟩ := barrer_regla (P := fun _ u => ClavesDonde I K u.elements)
    (fun _ _ hu _ => hu) (fun j u hu _ => compactar_claves hI j hu) vueltas j h hr
  exact hb

/-- Nor does the shift of a merge. -/
theorem desplazarUnoArriba_claves (hI : HastaElFinal I) {p : Nat}
    (h : ClavesDonde I K t.elements) : ClavesDonde I K (desplazarUnoArriba t p).elements := by
  refine h.iterar fun j es _ hes => (hes.copia (copiaDe_descriptor _) ?_).toca ?_ _
  · exact hI _ _ (by omega)
  · exact fun _ h => by cases h

/-- Nor does a turn of the merges. -/
theorem unirTurno_claves (hI : HastaElFinal I) {fuera : Nat → Particion} (j : Nat) (p : Pasada)
    (h : ClavesDonde I K p.self.elements) :
    ClavesDonde I K (unirTurno fuera j p).self.elements := by
  have hunir : ∀ arriba s, ClavesDonde I K (unirHermana p.self arriba s).elements := by
    intro arriba s
    rw [unirHermana]
    refine desplazarUnoArriba_claves hI (h.toca ?_ _)
    exact fun _ h => ⟨h, rfl⟩
  unfold unirTurno
  dsimp only
  split
  · split <;> split
    · exact hunir _ _
    · exact h
    · exact hunir _ _
    · exact h
  · split <;> exact h

/-- A split may leave the mark of the slot before it on slot `q`, which the
    next split or the creation overwrites. -/
theorem desplazarUnoAbajo_claves {q : Nat} {part : Int} (h : ClavesEn K (some q) t.elements) :
    ClavesEn K (some q) (desplazarUnoAbajo e t q part).elements := by
  -- the last turn copies slot `q` itself, so slot `q + 1` is excepted too
  have h₁ : ∀ j s, (iterar (fun i es => es.modify (t.tableMaxSize - 1 - i)
      (copiarDescriptor (es.getD (t.tableMaxSize - 1 - i - 1) Particion.vacia)))
      (t.tableMaxSize - 1 - q) t.elements)[j]? = some s → j ≠ q → j ≠ q + 1 →
      s.ocupado = true → K s.item.key := by
    cases hm : t.tableMaxSize - 1 - q with
    | zero => exact fun j s hj hq _ ho => h j s hj (by simpa using hq) ho
    | succ m =>
        rw [iterar_succ]
        intro j s hj hq hq1 ho
        rw [getElem?_modify_otra _ _ (by omega)] at hj
        refine (h.iterar fun i es hi hes => ?_) j s hj (by simpa using hq) ho
        exact hes.copia (copiaDe_descriptor _) (by simp only [ne_eq, Option.some.injEq]; omega)
  have h₂ : ∀ (es : List Particion) (f g k : Particion → Particion),
      (∀ j s, es[j]? = some s → j ≠ q → j ≠ q + 1 → s.ocupado = true → K s.item.key) →
      (∀ s, (k s).ocupado = false) →
      ClavesEn K (some q) (((es.modify q f).modify q g).modify (q + 1) k) := by
    intro es f g k hes hk j s hj hq ho
    have hq' : j ≠ q := by simpa using hq
    by_cases hj1 : j = q + 1
    · subst hj1
      rw [List.getElem?_modify] at hj
      simp only [if_true, Option.map_eq_map] at hj
      obtain ⟨s₀, -, rfl⟩ := Option.map_eq_some_iff.mp hj
      rw [hk] at ho
      cases ho
    · rw [getElem?_modify_otra _ _ (by omega), getElem?_modify_otra _ _ (by omega),
        getElem?_modify_otra _ _ (by omega)] at hj
      exact hes j s hj hq' hj1 ho
  unfold desplazarUnoAbajo
  dsimp only
  split
  · refine ClavesDonde.toca (h₂ _ _ _ _ h₁ ?_) ?_ _
    · exact fun _ => rfl
    · exact fun _ h => ⟨h, rfl⟩
  · refine h₂ _ _ _ _ h₁ ?_
    exact fun _ => rfl

/-- A search of the buddy scheme may leave a stray key in the slot it answers, and
    there alone. -/
theorem buscarHueco_claves {m q : Nat} (h : ClavesEn K none t.elements)
    (hr : buscarHueco e t m = some (some (t', q))) : ClavesEn K (some q) t'.elements := by
  obtain ⟨-, hp⟩ := buscarHueco_casos hr
  obtain ⟨-, hu, -⟩ := partir_regla (P := fun _ u => ClavesEn K (some q) u.elements)
    (fun u part hu _ _ => desplazarUnoAbajo_claves hu) (fun u part hu _ => hu) e.vueltas
    h.menos hp
  exact hu

/-- **PLACEMENT** shows no new key, but for the slot it hands out. -/
theorem colocar_claves {key : Clave} {m q : Nat} {t₁ : TableInfo}
    (hq : quitarPrevio t key = some t₁) (h : ClavesEn K none t₁.elements)
    (hr : colocar cfg e t key m = some (t', q)) : ClavesEn K (some q) t'.elements := by
  rw [colocar, hq, Option.bind_some] at hr
  cases hesq : cfg.esquema with
  | particionesDinamicas =>
      simp only [hesq] at hr
      exact compactacion_regla (P := fun _ _ u => ClavesEn K none u.elements)
        (Q := fun u q => ClavesEn K (some q) u.elements)
        (fun _ _ u p k total hu _ => ClavesEn.menos (unirHueco_claves hastaElFinal_todas hu))
        (fun _ _ u u' hu _ _ hb => barrer_claves hastaElFinal_todas hu hb)
        (fun _ _ u u' hu _ _ hq => reemplazar_claves hu hq) _ _ h hr
  | buddySystem =>
      simp only [hesq] at hr
      exact buddysystem_regla (P := fun _ _ u => ClavesEn K none u.elements)
        (U := fun _ _ u => ClavesEn K none u.elements)
        (Q := fun u q => ClavesEn K (some q) u.elements)
        (fun _ _ u u' q hu hb => buscarHueco_claves hu hb)
        (fun _ _ u u' hu _ hb =>
          unirTodasLasHermanas_regla (P := fun u => ClavesEn K none u.elements)
            (fun j p hp => unirTurno_claves hastaElFinal_todas j p hp) _ hu hb)
        (fun _ _ u u' q hu hb => buscarHueco_claves hu hb)
        (fun _ _ u u' hu _ _ hq => reemplazar_claves hu hq)
        (fun _ _ u hu _ _ => hu) _ _ h hr

/-- The removal before a SET brings no key in. -/
theorem quitarPrevio_claves {key : Clave} (h : ClavesEn K none t.elements)
    (hr : quitarPrevio t key = some t') : ClavesEn K none t'.elements := by
  rcases quitarPrevio_casos hr with ⟨rfl, -⟩ | hrem
  · exact h
  · exact micacheRemove_claves h hrem

/-- **CREATION** shows no new key, but for its own slot. -/
theorem crear_claves {key : Clave} {q m : Nat} (h : ClavesEn K (some q) t.elements) :
    ClavesEn K (some q) (crear cfg e t key q m).elements := by
  have hpropia : ∀ (es : List Particion) (f : Particion → Particion),
      ClavesEn K (some q) es → ClavesEn K (some q) (es.modify q f) :=
    fun es f hes => hes.modify fun hq => absurd rfl hq
  have hrep : ∀ (u : TableInfo) c, ClavesEn K (some q) u.elements →
      ClavesEn K (some q) (repartirSobra e.fuera u q m c).elements := by
    intro u c hu
    unfold repartirSobra
    dsimp only
    split
    · split
      · -- the slots from `q + 1` on move down, and slot `q + 1` is freed
        refine ClavesDonde.toca (hu.iterar fun j es hj hes => ?_) (fun _ h => by cases h) _
        refine hes.copia (j := u.tableMaxSize - 1 - j - 1) ?_ ?_
        · exact fun _ h => ⟨h, rfl⟩
        · simp only [TableInfo.tableMaxSize, ne_eq, Option.some.injEq] at hj ⊢
          omega
      · exact hpropia _ _ hu
    · have h₁ : ClavesEn K (some q) (u.elements.modify (q + 1) fun s =>
          { s with item := { s.item with
            data := (u.leer e.fuera q).item.data + ocupa c m } }) :=
        hu.toca (by exact fun _ h => ⟨h, rfl⟩) _
      split
      · exact h₁.toca (noOcupa_disponibles _) _
      · exact hpropia _ _ h₁
  unfold crear
  cases cfg.esquema with
  | particionesDinamicas =>
      dsimp only [micacheCreateElement]
      refine hpropia _ _ ?_
      split
      · exact hrep _ _ (hpropia _ _ (hpropia _ _ h))
      · exact hpropia _ _ (hpropia _ _ h)
  | buddySystem =>
      dsimp only [buddyCreateElement]
      exact hpropia _ _ (hpropia _ _ (hpropia _ _ (hpropia _ _ h)))

/-- The `stored` mark of slot `q`. -/
def marcaEn (es : List Particion) (q : Nat) : Bool := (es.getD q Particion.vacia).item.stored

/-- The mark of a slot changes with that slot alone. -/
theorem marcaEn_modify {es : List Particion} {f : Particion → Particion} {p q : Nat}
    (hf : p ≠ q ∨ ∀ s, (f s).item.stored = s.item.stored) :
    marcaEn (es.modify p f) q = marcaEn es q := by
  simp only [marcaEn, List.getD_eq_getElem?_getD]
  by_cases hpq : p = q
  · subst hpq
    rw [List.getElem?_modify]
    cases es[p]? with
    | none => rfl
    | some s =>
        rcases hf with hne | hf
        · exact absurd rfl hne
        · simpa using hf s
  · rw [getElem?_modify_otra f es hpq]

/-- A creation keeps the mark its slot had. -/
theorem crear_marca {key : Clave} {q m : Nat} :
    marcaEn (crear cfg e t key q m).elements q = marcaEn t.elements q := by
  have hrep : ∀ (u : TableInfo) c,
      marcaEn (repartirSobra e.fuera u q m c).elements q = marcaEn u.elements q := by
    intro u c
    unfold repartirSobra
    dsimp only
    split
    · split
      · refine (marcaEn_modify (Or.inl (by omega))).trans ?_
        refine iterar_invariante (s := u.elements) (fun _ es => marcaEn es q = marcaEn u.elements q)
          rfl fun j es hj hes => (marcaEn_modify (Or.inl ?_)).trans hes
        simp only [TableInfo.tableMaxSize] at hj ⊢
        omega
      · exact marcaEn_modify (Or.inr (by intro _; rfl))
    · split
      · refine (marcaEn_modify (p := q + 1) (Or.inl (by omega))).trans ?_
        exact marcaEn_modify (p := q + 1) (Or.inl (by omega))
      · refine (marcaEn_modify (Or.inr (by intro _; rfl))).trans ?_
        exact marcaEn_modify (p := q + 1) (Or.inl (by omega))
  have halta : marcaEn (lruGet e.relojGet (t.modificar q fun s =>
      { s with item := { s.item with key := key, ndata := m }, ocupado := true }) q).elements q
      = marcaEn t.elements q :=
    (marcaEn_modify (Or.inr (by intro _; rfl))).trans (marcaEn_modify (Or.inr (by intro _; rfl)))
  unfold crear
  cases cfg.esquema with
  | particionesDinamicas =>
      dsimp only [micacheCreateElement]
      refine (marcaEn_modify (Or.inr (by intro _; rfl))).trans ?_
      split
      · exact (hrep _ _).trans halta
      · exact halta
  | buddySystem =>
      dsimp only [buddyCreateElement]
      refine (marcaEn_modify (Or.inr (by intro _; rfl))).trans ?_
      exact (marcaEn_modify (Or.inr (by intro _; rfl))).trans halta

end Rutinas

/-! ## Sessions -/

/-- What the server asks of the engine: a complete operation, or a SET it
    gives up after `item_allocate`. -/
inductive Pedido where
  | completo (op : Op)
  | abandonado (key : Clave) (nbytes : Nat)

/-- The table, and for each key whether `store_info` was called on the handle
    its last `item_allocate` returned. -/
structure Sesion where
  tabla : TableInfo
  guardada : Clave → Option Bool

/-- The record after an `item_allocate` of `key`. -/
def anotar (g : Clave → Option Bool) (key : Clave) (b : Bool) : Clave → Option Bool :=
  fun k => if key = k then some b else g k

/-- The record after a complete operation; a SET that is too long gets no
    handle. -/
def registro (cfg : Config) (op : Op) (g : Clave → Option Bool) : Clave → Option Bool :=
  match op with
  | .set key valor => if cfg.blockSizeMax < valor.length then g else anotar g key true
  | .get _ => g
  | .delete _ => g
  | .flushAll => g

/-- One request; `none` when a call does not return. -/
def pedir (cfg : Config) (x : Pedido × Entorno) (s : Sesion) : Option Sesion :=
  match x.1 with
  | .completo op =>
      (ejecutar cfg op x.2 s.tabla).map fun r => ⟨r.1, registro cfg op s.guardada⟩
  | .abandonado key nbytes =>
      (opAbandonada cfg x.2 s.tabla key nbytes).map fun tabla =>
        ⟨tabla, if cfg.blockSizeMax < nbytes then s.guardada else anotar s.guardada key false⟩

def sesionInicial (cfg : Config) : Sesion := ⟨cacheInitialize cfg, fun _ => none⟩

/-- The table with its key area, and the record. -/
structure SesionPlana where
  plana : Plana
  guardada : Clave → Option Bool

/-- The session as a comparison sees it, keys read from the area. -/
def SesionPlana.actual (s : SesionPlana) : Sesion := ⟨s.plana.actual, s.guardada⟩

/-- One request over the key area. -/
def pedirPlano (cfg : Config) (x : Pedido × Entorno) (s : SesionPlana) : Option SesionPlana :=
  match x.1 with
  | .completo op =>
      (ejecutarPlano cfg op x.2 s.plana).map fun r => ⟨r.1, registro cfg op s.guardada⟩
  | .abandonado key nbytes =>
      (opAbandonadaPlana cfg x.2 s.plana key nbytes).map fun p =>
        ⟨p, if cfg.blockSizeMax < nbytes then s.guardada else anotar s.guardada key false⟩

def sesionPlanaInicial (cfg : Config) (claves : Nat → UInt8) : SesionPlana :=
  ⟨planaInicial cfg claves, fun _ => none⟩

/-- The key of a SET, given up or not, fits its cell, and so does that of
    `elements[-1]`. -/
def PedidoCorto (x : Pedido × Entorno) : Prop :=
  (match x.1 with
    | .completo op => SetCorta op
    | .abandonado key _ => key.length ≤ 60) ∧ AntesCorta x.2

/-- A SET that is given up finds its key in at most one occupied slot, a
    stored one, and its creation is handed a slot whose mark is clear. -/
def SinMarca (cfg : Config) (x : Pedido × Entorno) (s : Sesion) : Prop :=
  match x.1 with
  | .completo _ => True
  | .abandonado key nbytes => cfg.blockSizeMax < nbytes ∨
      (s.tabla.elements.countP (coincide key) ≤ 1
        ∧ (∀ p ∈ s.tabla.elements, coincide key p = true → p.item.stored = true)
        ∧ ∀ r ∈ colocar cfg x.2 s.tabla key nbytes, marcaEn r.1.elements r.2 = false)

instance (cfg : Config) (x : Pedido × Entorno) (s : Sesion) : Decidable (SinMarca cfg x s) :=
  match x with
  | (.completo _, _) => inferInstanceAs (Decidable True)
  | (.abandonado _ _, _) => inferInstanceAs (Decidable (_ ∨ (_ ∧ _ ∧ _)))

/-- Every occupied slot has a key whose last allocation was stored. -/
def Visible (s : Sesion) : Prop :=
  ClavesEn (fun k => s.guardada k = some true) none s.tabla.elements

section Sesiones

variable {cfg : Config} {e : Entorno} {g : Clave → Option Bool} {t t' : TableInfo}

/-- The drop of an older item leaves none under the key, when there was at
    most one and it was stored. -/
theorem quitarPrevio_ninguna {K : Clave → Prop} {key : Clave} (h : ClavesEn K none t.elements)
    (huna : t.elements.countP (coincide key) ≤ 1)
    (hst : ∀ p ∈ t.elements, coincide key p = true → p.item.stored = true)
    (hr : quitarPrevio t key = some t') :
    ClavesEn (fun k => K k ∧ k ≠ key) none t'.elements := by
  rcases quitarPrevio_casos hr with ⟨rfl, hs⟩ | hrem
  · intro j s hj hi ho
    refine ⟨h j s hj hi ho, fun hk => ?_⟩
    have hs' := List.mem_of_getElem? hj
    have hno := List.findIdx?_eq_none_iff.mp hs s hs'
    have hsto := hst s hs' (by simp [coincide, ho, hk])
    simp [coincideStored, ho, hsto, hk] at hno
  · have h' : ClavesEn K none t'.elements := micacheRemove_claves h hrem
    obtain ⟨A, s, B, hv, hoc, hkey, hB, hv', -⟩ := micacheRemove_vista hrem
    rw [clavesEn_iff] at h' ⊢
    intro u hu
    refine ⟨h' u hu, fun hk => ?_⟩
    have hcount : (vista t).countP (coincide key) ≤ 1 := by
      rw [vista, List.countP_map]
      simpa only [Function.comp_def, coincide_limpia] using huna
    rw [hv, List.countP_append, List.countP_cons_of_pos (by simp [coincide, hoc, hkey])] at hcount
    rw [← ocupadas_vista, hv', ocupadas_append, ocupadas_libre] at hu
    have hcu : ∀ {C}, u ∈ ocupadas C → u ∈ C ∧ coincide key u = true := fun hu => by
      obtain ⟨hu, ho⟩ := mem_ocupadas.mp hu
      exact ⟨hu, by simp [coincide, ho, hk]⟩
    rcases List.mem_append.mp hu with hu | hu
    · have hA : A.countP (coincide key) = 0 := by omega
      exact absurd (hcu hu).2 (by simpa using List.countP_eq_zero.mp hA u (hcu hu).1)
    · exact absurd (hcu hu).2 (by simp [hB u (hcu hu).1])

/-- **A COMPLETE SET** shows its own key and no other new one. -/
theorem opSet_claves {K : Clave → Prop} {key : Clave} {valor : List UInt8} {r : Respuesta}
    (h : ClavesEn K none t.elements) (hlen : ¬ cfg.blockSizeMax < valor.length)
    (hr : opSet cfg e t key valor = some (t', r)) :
    ClavesEn (fun k => K k ∨ k = key) none t'.elements := by
  rw [opSet, if_neg hlen] at hr
  obtain ⟨⟨t₁, q⟩, h1, hr⟩ := Option.bind_eq_some_iff.mp hr
  obtain ⟨t₂, h2, heq⟩ := Option.map_eq_some_iff.mp hr
  obtain ⟨rfl, -⟩ := Prod.mk.inj heq
  have hlt := colocar_lt h1
  have hq : q < t₁.tableMaxSize := by rw [hlt.1]; exact hlt.2
  obtain ⟨a, s, hs, ho, hk, -⟩ : ∃ a, Asa (crear cfg e t₁ key q valor.length).elements q key
      valor.length a := crear_propia hq
  obtain ⟨t₀, hqp, -⟩ := Option.bind_eq_some_iff.mp h1
  have hcr : ClavesEn K (some q) (crear cfg e t₁ key q valor.length).elements :=
    crear_claves (colocar_claves hqp (quitarPrevio_claves h hqp) h1)
  have hall : ClavesEn (fun k => K k ∨ k = key) none
      (crear cfg e t₁ key q valor.length).elements := by
    intro j u hj _ hou
    by_cases hjq : j = q
    · subst hjq
      rw [hs] at hj
      rw [← Option.some.inj hj]
      exact Or.inr hk
    · exact Or.inl (hcr j u hj (by simpa using hjq) hou)
  have hsto : ClavesEn (fun k => K k ∨ k = key) none (storeInfo (copiarValor
      (crear cfg e t₁ key q valor.length) q valor) q).elements :=
    hall.toca (by exact fun _ h => ⟨h, rfl⟩) q
  rcases itemRelease_casos h2 with ⟨-, rfl⟩ | ⟨-, hrem⟩
  · exact hsto
  · exact micacheRemove_claves hsto hrem

/-- **A SET THAT IS GIVEN UP** leaves no slot under its key. -/
theorem opAbandonada_claves {K : Clave → Prop} {key : Clave} {n : Nat}
    (h : ClavesEn K none t.elements) (hlen : ¬ cfg.blockSizeMax < n)
    (huna : t.elements.countP (coincide key) ≤ 1)
    (hst : ∀ p ∈ t.elements, coincide key p = true → p.item.stored = true)
    (hmar : ∀ r ∈ colocar cfg e t key n, marcaEn r.1.elements r.2 = false)
    (hr : opAbandonada cfg e t key n = some t') :
    ClavesEn (fun k => K k ∧ k ≠ key) none t'.elements := by
  rw [opAbandonada, if_neg hlen] at hr
  obtain ⟨⟨t₂, q⟩, h1, hr⟩ := Option.bind_eq_some_iff.mp hr
  have hm : marcaEn t₂.elements q = false := hmar (t₂, q) h1
  have hlt := colocar_lt h1
  obtain ⟨t₁, hqp, -⟩ := Option.bind_eq_some_iff.mp h1
  obtain ⟨a, s, hs, ho, hk, -⟩ : ∃ a, Asa (crear cfg e t₂ key q n).elements q key n a :=
    crear_propia (by rw [hlt.1]; exact hlt.2)
  have hget : (crear cfg e t₂ key q n).elements.getD q Particion.vacia = s := by
    rw [List.getD_eq_getElem?_getD, hs]
    rfl
  -- no other slot has the key, so the release finds the new item
  have hcr : ClavesEn (fun k => K k ∧ k ≠ key) (some q) (crear cfg e t₂ key q n).elements :=
    crear_claves (colocar_claves hqp (quitarPrevio_ninguna h huna hst hqp) h1)
  have hsin : marcaEn (crear cfg e t₂ key q n).elements q = false := crear_marca.trans hm
  rcases itemRelease_casos hr with ⟨hsto, -⟩ | ⟨-, hrem⟩
  · rw [marcaEn, hsto] at hsin
    cases hsin
  · rw [hget, hk] at hrem
    obtain ⟨p, hp, hel⟩ := micacheRemove_elements hrem
    obtain ⟨A, u, B, hes, rfl, hu, -⟩ := ultimoIndice_parte hp
    have hup : (crear cfg e t₂ key q n).elements[A.length]? = some u := by
      rw [hes]
      simp
    simp only [coincide, Bool.and_eq_true, beq_iff_eq] at hu
    have hpq : A.length = q := by
      by_contra hne
      exact (hcr A.length u hup (by simpa using hne) hu.1).2 hu.2
    rw [hel, hpq]
    intro j v hj _ hov
    by_cases hjq : q = j
    · subst hjq
      rw [List.getElem?_modify, hs] at hj
      simp only [if_true, Option.map_eq_map, Option.map_some, Option.some.injEq] at hj
      rw [← hj] at hov
      cases hov
    · rw [getElem?_modify_otra _ _ hjq] at hj
      exact hcr j v hj (by simpa using fun h => hjq h.symm) hov

/-- The other complete operations show no new key. -/
theorem ejecutar_claves {K : Clave → Prop} {op : Op} {r : Respuesta}
    (h : ClavesEn K none t.elements) (hop : ∀ k v, op ≠ .set k v)
    (hr : ejecutar cfg op e t = some (t', r)) : ClavesEn K none t'.elements := by
  cases op with
  | set k v => exact absurd rfl (hop k v)
  | get k =>
      rcases opGet_casos hr with ⟨rfl, -⟩ | ⟨A, s, B, -, -, -, -, -, ⟨-, rfl⟩ | ⟨-, rfl⟩⟩
      · exact h
      · exact h
      · exact h.toca (noOcupa_usar _) _
  | delete k =>
      obtain ⟨⟨t₁, b⟩, h1, heq⟩ := Option.map_eq_some_iff.mp hr
      obtain ⟨rfl, -⟩ := Prod.mk.inj heq
      rcases deleteOne_casos h1 with ⟨rfl, -⟩ | ⟨A, s, B, -, -, -, hrem⟩
      · exact h
      · refine micacheRemove_claves (h.toca ?_ A.length) hrem
        exact fun _ h => ⟨h, rfl⟩
  | flushAll =>
      obtain ⟨rfl, -⟩ := Prod.mk.inj (Option.some.inj hr)
      have hno := micacheClean_contenido t
      rw [contenido, List.map_eq_nil_iff] at hno
      rw [clavesEn_iff, hno]
      simp

/-- **ONE STEP**: what a lookup may see stays complete. -/
theorem Visible.pedir {x : Pedido × Entorno} {s s' : Sesion} (h : Visible s)
    (hC : SinMarca cfg x s) (hr : pedir cfg x s = some s') : Visible s' := by
  obtain ⟨p, e⟩ := x
  cases p with
  | completo op =>
      obtain ⟨⟨t', r⟩, h1, rfl⟩ := Option.map_eq_some_iff.mp hr
      by_cases hop : ∀ k v, op ≠ .set k v
      · have hreg : registro cfg op s.guardada = s.guardada := by
          cases op with
          | set k v => exact absurd rfl (hop k v)
          | get k => rfl
          | delete k => rfl
          | flushAll => rfl
        rw [Visible, hreg]
        exact ejecutar_claves h hop h1
      · push Not at hop
        obtain ⟨k, v, rfl⟩ := hop
        by_cases hlen : cfg.blockSizeMax < v.length
        · have h1' : opSet cfg e s.tabla k v = some (t', r) := h1
          rw [opSet, if_pos hlen] at h1'
          obtain ⟨rfl, -⟩ := Prod.mk.inj (Option.some.inj h1')
          simpa only [Visible, registro, if_pos hlen] using h
        · simp only [Visible, registro, if_neg hlen]
          refine (opSet_claves h hlen h1).mono fun k' hk' => ?_
          simp only [anotar]
          split
          · rfl
          · rcases hk' with hk' | rfl
            · exact hk'
            · exact absurd rfl ‹_›
  | abandonado key n =>
      obtain ⟨t', h1, rfl⟩ := Option.map_eq_some_iff.mp hr
      by_cases hlen : cfg.blockSizeMax < n
      · have h1' : opAbandonada cfg e s.tabla key n = some t' := h1
        rw [opAbandonada, if_pos hlen] at h1'
        obtain rfl := Option.some.inj h1'
        simpa only [Visible, if_pos hlen] using h
      · rcases hC with hC | ⟨huna, hst, hmar⟩
        · exact absurd hC hlen
        · simp only [Visible, if_neg hlen]
          refine (opAbandonada_claves h hlen huna hst hmar h1).mono fun k' hk' => ?_
          rw [anotar, if_neg (fun h => hk'.2 h.symm)]
          exact hk'.1

/-- **ONE REQUEST** over the key area is the request over the table. -/
theorem pedirPlano_refina (cfg : Config) (x : Pedido × Entorno) (s : SesionPlana)
    (h : s.plana.Bien) (hx : PedidoCorto x) :
    (pedirPlano cfg x s).map SesionPlana.actual = pedir cfg x s.actual
      ∧ ∀ s' ∈ pedirPlano cfg x s, s'.plana.Bien := by
  obtain ⟨p, e⟩ := x
  obtain ⟨hk, he⟩ := hx
  rw [SesionPlana.actual, h.actual]
  cases p with
  | completo op =>
      obtain ⟨hig, hb⟩ : Refina (ejecutarPlano cfg op e s.plana)
        (ejecutar cfg op e s.plana.tabla) :=
        ejecutar_refina hk he h
      simp only [pedirPlano, pedir, ← hig]
      cases hr : ejecutarPlano cfg op e s.plana with
      | none => exact ⟨rfl, fun s' hs' => nomatch hs'⟩
      | some r =>
          refine ⟨?_, fun s' hs' => ?_⟩
          · simp only [Option.map_some, SesionPlana.actual, (hb r hr).actual]
          · obtain rfl := Option.some.inj hs'
            exact hb r hr
  | abandonado key n =>
      obtain ⟨hig, hb⟩ : Refina ((opAbandonadaPlana cfg e s.plana key n).map (·, ()))
          ((opAbandonada cfg e s.plana.tabla key n).map (·, ())) := opAbandonada_refina he h hk n
      simp only [pedirPlano, pedir]
      cases hr : opAbandonadaPlana cfg e s.plana key n with
      | none =>
          rw [hr] at hig
          rw [Option.map_eq_none_iff.mp hig.symm]
          exact ⟨rfl, fun s' hs' => nomatch hs'⟩
      | some p =>
          rw [hr] at hig hb
          obtain ⟨t, ht, heq⟩ := Option.map_eq_some_iff.mp hig.symm
          obtain ⟨rfl, -⟩ := Prod.mk.inj heq
          have hp : p.Bien := hb (p, ()) rfl
          rw [ht]
          refine ⟨?_, fun s' hs' => ?_⟩
          · simp only [Option.map_some, SesionPlana.actual, hp.actual]
          · obtain rfl := Option.some.inj hs'
            exact hp

/-- The area of a new session has its table. -/
theorem sesionPlanaInicial_actual (claves : Nat → UInt8) :
    (sesionPlanaInicial cfg claves).actual = sesionInicial cfg := by
  have hact : (planaInicial cfg claves).actual = cacheInitialize cfg :=
    (cacheInitialize_area cfg claves).actual
  rw [SesionPlana.actual, sesionPlanaInicial, hact, sesionInicial]

/-- A new cache has nothing to see. -/
theorem sesionInicial_visible : Visible (sesionInicial cfg) := by
  have hno := cacheInitialize_representa cfg
  rw [Visible, clavesEn_iff]
  intro s hs
  have := (hno.guardadas _ (List.mem_map.mpr ⟨s, hs, rfl⟩)).2
  simp [ultimoSet] at this

end Sesiones

section Corridas

variable {cfg : Config} {pedidos : List (Pedido × Entorno)}

/-- **A RUN** of requests over the key area is the run over the table. -/
theorem sesionPlana_refina (claves : Nat → UInt8) (hx : ∀ x ∈ pedidos, PedidoCorto x) :
    (corrida (pedirPlano cfg) pedidos (sesionPlanaInicial cfg claves)).map SesionPlana.actual
      = corrida (pedir cfg) pedidos (sesionInicial cfg) := by
  rw [← sesionPlanaInicial_actual claves]
  exact (corrida_proyecta (pedirPlano_refina cfg) pedidos (cacheInitialize_area cfg claves) hx).1

/-- A condition of every request of a run over the key area. -/
theorem enCadaPedidoPlano_iff {D : Pedido × Entorno → Sesion → Prop} (claves : Nat → UInt8)
    (hx : ∀ x ∈ pedidos, PedidoCorto x) :
    EnCadaPaso (pedirPlano cfg) (fun x s => D x s.actual) pedidos (sesionPlanaInicial cfg claves)
      ↔ EnCadaPaso (pedir cfg) D pedidos (sesionInicial cfg) := by
  rw [← sesionPlanaInicial_actual claves]
  exact EnCadaPaso.proyecta (pedirPlano_refina cfg) pedidos (cacheInitialize_area cfg claves) hx

end Corridas

/-- **VISIBILITY**: after every run whose keys fit their cells and whose given
    up SETs meet the condition, a GET hits only a key whose last allocation was
    stored, and a key whose last allocation was given up is in no occupied
    slot. -/
theorem visibilidad {cfg : Config} {claves : Nat → UInt8} {pedidos : List (Pedido × Entorno)}
    {s : SesionPlana} (hx : ∀ x ∈ pedidos, PedidoCorto x)
    (hC : EnCadaPaso (pedirPlano cfg) (fun x s => SinMarca cfg x s.actual) pedidos
      (sesionPlanaInicial cfg claves))
    (hr : corrida (pedirPlano cfg) pedidos (sesionPlanaInicial cfg claves) = some s) :
    (∀ e key t' v, opGet cfg e s.plana.actual key = some (t', .valor v) →
      s.guardada key = some true) ∧
    ∀ key, s.guardada key = some false →
      ∀ p ∈ s.plana.actual.elements, coincide key p = false := by
  have hr' : corrida (pedir cfg) pedidos (sesionInicial cfg) = some s.actual := by
    rw [← sesionPlana_refina claves hx, hr, Option.map_some]
  have hinv : Visible s.actual := corrida_invariante (fun x s s' hs hx h => hs.pedir hx h) pedidos
    sesionInicial_visible ((enCadaPedidoPlano_iff claves hx).mp hC) hr'
  have hvis : ∀ u ∈ ocupadas s.plana.actual.elements, s.guardada u.item.key = some true :=
    clavesEn_iff.mp hinv
  constructor
  · intro e key t' v hget
    rcases opGet_casos hget with ⟨-, hno, -⟩ | ⟨A, p, B, hes, ho, -, hk, -⟩
    · cases hno
    · rw [← hk]
      exact hvis p (mem_ocupadas.mpr ⟨by rw [hes]; simp, ho⟩)
  · intro key hg p hp
    by_contra hc
    simp only [coincide, Bool.not_eq_false, Bool.and_eq_true, beq_iff_eq] at hc
    have := hvis p (mem_ocupadas.mpr ⟨hp, hc.1⟩)
    rw [hc.2, hg] at this
    cases this

/-- A SET stored, and one of another key and then one of the same key given
    up. -/
def pedidosRectos : List (Pedido × Entorno) :=
  [(.completo (.set [1] [1, 1, 1, 1]), entornoDiez), (.abandonado [2] 4, entornoDiez),
   (.completo (.set [3] [3, 3]), entornoDiez), (.completo (.delete [3]), entornoDiez),
   (.abandonado [3] 2, entornoDiez)]

/-- Two complete SETs and one that is given up: no slot answers to the last key. -/
theorem visibilidad_rectos : ∃ s,
    corrida (pedirPlano (cacheDiez 1)) pedidosRectos (sesionPlanaInicial (cacheDiez 1) fun _ => 0)
        = some s
      ∧ ∀ key, s.guardada key = some false →
        ∀ p ∈ s.plana.actual.elements, coincide key p = false := by
  have hcortos : ∀ x ∈ pedidosRectos, PedidoCorto x := by
    simp [pedidosRectos, PedidoCorto, SetCorta, antesCorta_diez]
  have hsome : (corrida (pedir (cacheDiez 1)) pedidosRectos
      (sesionInicial (cacheDiez 1))).isSome = true := by decide
  rw [← sesionPlana_refina (fun _ => 0) hcortos, Option.isSome_map] at hsome
  obtain ⟨s, hs⟩ := Option.isSome_iff_exists.mp hsome
  exact ⟨s, hs, (visibilidad hcortos ((enCadaPedidoPlano_iff _ hcortos).mpr (by decide)) hs).2⟩

/-- An item is stored and flushed, and the SET of another key is given up. -/
def pedidosTrasFlush : List (Pedido × Entorno) :=
  [(.completo (.set [1] [1, 1]), entornoDiez), (.completo .flushAll, entornoDiez),
   (.abandonado [2] 2, entornoDiez)]

/-- After that run a GET sees the item that was given up. -/
def VeAbandonada (cfg : Config) : Prop :=
  ∃ s t' v, corrida (pedirPlano cfg) pedidosTrasFlush (sesionPlanaInicial cfg fun _ => 0) = some s
    ∧ s.guardada [2] = some false
    ∧ opGet cfg entornoDiez s.plana.actual [2] = some (t', .valor v)

/-- The two answers of the run are what the failure is about. -/
theorem veAbandonada_of {cfg : Config}
    (h : ((corrida (pedir cfg) pedidosTrasFlush (sesionInicial cfg)).bind fun s =>
      (opGet cfg entornoDiez s.tabla [2]).map fun r => (s.guardada [2], r.2))
      = some (some false, .valor [1, 1])) : VeAbandonada cfg := by
  obtain ⟨s, hs, h⟩ := Option.bind_eq_some_iff.mp h
  obtain ⟨⟨t', r⟩, hget, heq⟩ := Option.map_eq_some_iff.mp h
  obtain ⟨hg, rfl⟩ := Prod.mk.inj heq
  have hcortos : ∀ x ∈ pedidosTrasFlush, PedidoCorto x := by
    simp [pedidosTrasFlush, PedidoCorto, SetCorta, antesCorta_diez]
  rw [← sesionPlana_refina (fun _ => 0) hcortos] at hs
  obtain ⟨q, hq, rfl⟩ := Option.map_eq_some_iff.mp hs
  exact ⟨q, t', [1, 1], hq, hg, hget⟩

/-- **A SET THAT WAS GIVEN UP IS SEEN**, under either scheme: `micache_clean`
    leaves the mark of the first item on the slot the second one gets. -/
theorem visibilidad_falla : VeAbandonada (cacheDiez 1) ∧ VeAbandonada cacheChica :=
  ⟨veAbandonada_of (by decide), veAbandonada_of (by decide)⟩

end Rc
