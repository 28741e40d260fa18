import Yanero.RcVisibleProofs

/-! # What a careful step keeps

    `item_release` on an item that is not stored removes the last slot under
    its key, so a handle frees its own slot only while no later slot repeats
    the key.  A descriptor that moves up comes from a later slot; one that
    moves down may come from the slot of the handle itself, and the extra turn
    of `desplazarUnoAbajo` copies it even when it stands before the block that
    is split (`mitadAparte`).

    A handle whose slot a flush has emptied (`Vacante`) is given back without
    effect as long as the slot keeps its stored mark. -/

namespace Rc

open Bucles Corridas

/-- No slot after `pos` holds the key. -/
def SinDespues (es : List Particion) (pos : Nat) (key : Clave) : Prop :=
  ClavesDonde (fun j => pos < j) (fun k => k ≠ key) es

/-- The block of slot `i` is halved for `m` bytes without copying slot `pos`:
    both it and the slot before the block stand elsewhere, or there is nothing
    to halve. -/
def mitadAparte (t : TableInfo) (m i pos : Nat) : Prop :=
  let mitad := (t.elements.getD i Particion.vacia).bytesDisponibles.tdiv 2
  pos + 1 < i ∨ mitad < m ∨ mitad < t.sizeChunk

instance (t : TableInfo) (m i pos : Nat) : Decidable (mitadAparte t m i pos) :=
  inferInstanceAs (Decidable (_ ∨ _ ∨ _))

section Despues

variable {K : Clave → Prop} {pos m : Nat} {key : Clave} {es : List Particion}
  {t t' : TableInfo} {cfg : Config} {e : Entorno}

/-- The removal of the key of a handle frees its slot. -/
theorem SinDespues.ultimo {n a : Nat} (h : SinDespues es pos key) (ha : Asa es pos key n a) :
    ultimoIndice (coincide key) es = some pos := by
  obtain ⟨s, hs, ho, hk, -⟩ := ha
  refine ultimoIndice_eq hs (by simp [coincide, ho, hk]) fun u hu => ?_
  obtain ⟨j, hj⟩ := List.mem_iff_getElem?.mp hu
  rw [List.getElem?_drop] at hj
  have hno := h _ u hj (by omega)
  cases hou : u.ocupado with
  | false => simp [coincide, hou]
  | true => simpa [coincide, hou] using hno hou

/-- A split at a later block, the slot of the handle not next to it. -/
theorem desplazarUnoAbajo_tras {i : Nat} {part : Int} (hi : pos + 1 < i)
    (h : ClavesDonde (fun j => pos < j) K t.elements) :
    ClavesDonde (fun j => pos < j) K (desplazarUnoAbajo e t i part).elements := by
  have h₁ : ClavesDonde (fun j => pos < j) K (iterar (fun j es =>
      es.modify (t.tableMaxSize - 1 - j)
        (copiarDescriptor (es.getD (t.tableMaxSize - 1 - j - 1) Particion.vacia)))
      (t.tableMaxSize - 1 - i) t.elements) :=
    h.iterar fun j es hj hes => hes.copia (copiaDe_descriptor _) (by omega)
  unfold desplazarUnoAbajo
  dsimp only
  generalize iterar (fun j es => es.modify (t.tableMaxSize - 1 - j)
    (copiarDescriptor (es.getD (t.tableMaxSize - 1 - j - 1) Particion.vacia)))
    (t.tableMaxSize - 1 - i) t.elements = es at h₁ ⊢
  rw [if_neg (show ¬ i = 0 by omega)]
  -- the extra turn: slot `i` takes the slot before it, which is not `pos`
  have h₂ := h₁.copia (q := i) (copiaDe_descriptor _) (j := i - 1) (by omega)
  have h₃ : ∀ (f k : Particion → Particion), NoOcupa f → NoOcupa k →
      ClavesDonde (fun j => pos < j) K (((es.modify i
        (copiarDescriptor (es.getD (i - 1) Particion.vacia))).modify i f).modify (i + 1) k) :=
    fun f k hf hk => (h₂.toca hf _).toca hk _
  split
  · refine ClavesDonde.toca (h₃ _ _ ?_ ?_) ?_ _
    · exact fun _ h => ⟨h, rfl⟩
    · exact fun _ h => by cases h
    · exact fun _ h => ⟨h, rfl⟩
  · refine h₃ _ _ ?_ ?_
    · exact fun _ h => ⟨h, rfl⟩
    · exact fun _ h => by cases h

theorem buscarHueco_tras {i : Nat} (h : ClavesDonde (fun j => pos < j) K t.elements)
    (hl : ∀ j ∈ huecoBuddy t m, mitadAparte t m j pos)
    (hr : buscarHueco e t m = some (some (t', i))) :
    ClavesDonde (fun j => pos < j) K t'.elements := by
  obtain ⟨hh, hp⟩ := buscarHueco_casos hr
  rcases hl i hh with hlt | hent
  · obtain ⟨-, hu, -⟩ := partir_regla (P := fun _ u => ClavesDonde (fun j => pos < j) K u.elements)
      (fun u part hu _ _ => desplazarUnoAbajo_tras hlt hu) (fun u part hu _ => hu) e.vueltas h hp
    exact hu
  · rw [partir_entera hent _ hp]
    exact h

/-- The placement loop of the buddy scheme; what moves up comes from a later
    slot, so only the split that ends it needs a condition. -/
theorem buddysystem_tras : ∀ (vueltas j : Nat) {t t' : TableInfo} {i : Nat},
    ClavesDonde (fun j => pos < j) K t.elements →
      EnCadaVueltaBuddy e m (fun t i => mitadAparte t m i pos) (fun _ => True) (fun _ _ => True)
        vueltas j t →
      buddysystem e m vueltas j t = some (t', i) →
      ClavesDonde (fun j => pos < j) K t'.elements := by
  intro vueltas
  induction vueltas with
  | zero => intro j t t' i _ _ h; cases h
  | succ v ih =>
      intro j t t' i h hv hr
      simp only [EnCadaVueltaBuddy] at hv
      obtain ⟨r₁, h1, hr₁⟩ := Option.bind_eq_some_iff.mp hr
      cases r₁ with
      | some r =>
          obtain rfl := Option.some.inj hr₁
          exact buscarHueco_tras h hv.1 h1
      | none =>
          obtain ⟨t₁, h2, hr₂⟩ := Option.bind_eq_some_iff.mp hr₁
          obtain ⟨hmitad, hv₁⟩ := (hv.2 (buscarHueco_none h1)).2 t₁ h2
          have h₁ : ClavesDonde (fun j => pos < j) K t₁.elements :=
            unirTodasLasHermanas_regla (P := fun u => ClavesDonde (fun j => pos < j) K u.elements)
              (fun j p hp => unirTurno_claves (hastaElFinal_tras pos) j p hp) _ h h2
          obtain ⟨r₃, h3, hr₃⟩ := Option.bind_eq_some_iff.mp hr₂
          cases r₃ with
          | some r =>
              obtain rfl := Option.some.inj hr₃
              exact buscarHueco_tras h₁ hmitad h3
          | none =>
              replace hv₁ := hv₁ (buscarHueco_none h3)
              by_cases he : t₁.elementsAmount ≠ 0
              · simp only [if_pos he] at hr₃
                rw [if_pos he] at hv₁
                obtain ⟨t₂, h4, hr₄⟩ := Option.bind_eq_some_iff.mp hr₃
                exact ih _ (reemplazar_claves h₁ h4) (hv₁.2 t₂ h4) hr₄
              · simp only [if_neg he] at hr₃
                rw [if_neg he] at hv₁
                exact ih _ h₁ hv₁ hr₃

/-- A placement of `m` bytes under `k` copies slot `pos` nowhere. -/
def colocaAparte (cfg : Config) (e : Entorno) (t : TableInfo) (k : Clave) (m pos : Nat) : Prop :=
  cfg.esquema = .buddySystem → ∀ t' ∈ quitarPrevio t k,
    EnCadaVueltaBuddy e m (fun t i => mitadAparte t m i pos) (fun _ => True) (fun _ _ => True)
      e.vueltas 0 t'

instance (cfg : Config) (e : Entorno) (t : TableInfo) (k : Clave) (m pos : Nat) :
    Decidable (colocaAparte cfg e t k m pos) :=
  inferInstanceAs (Decidable (_ → ∀ t' ∈ quitarPrevio t k, _))

/-- **PLACEMENT** repeats no key after the slot. -/
theorem colocar_tras {k : Clave} {i : Nat} (h : ClavesDonde (fun j => pos < j) K t.elements)
    (hl : colocaAparte cfg e t k m pos) (hr : colocar cfg e t k m = some (t', i)) :
    ClavesDonde (fun j => pos < j) K t'.elements := by
  obtain ⟨t₁, hq, hr⟩ := Option.bind_eq_some_iff.mp hr
  have h₁ : ClavesDonde (fun j => pos < j) K t₁.elements := by
    rcases quitarPrevio_casos hq with ⟨rfl, -⟩ | hrem
    · exact h
    · exact micacheRemove_claves h hrem
  cases hesq : cfg.esquema with
  | particionesDinamicas =>
      simp only [hesq] at hr
      exact compactacion_regla (P := fun _ _ u => ClavesDonde (fun j => pos < j) K u.elements)
        (Q := fun u _ => ClavesDonde (fun j => pos < j) K u.elements)
        (fun _ _ u p k total hu _ => unirHueco_claves (hastaElFinal_tras pos) hu)
        (fun _ _ u u' hu _ _ hb => barrer_claves (hastaElFinal_tras pos) hu hb)
        (fun _ _ u u' hu _ _ hq => reemplazar_claves hu hq) _ _ h₁ hr
  | buddySystem =>
      simp only [hesq] at hr
      exact buddysystem_tras _ _ h₁ (hl hesq t₁ hq) hr

/-- The leftover of slot `p` moves down no slot up to `pos`: the handle stands
    at `p` or before it, or nothing is shifted. -/
theorem repartirSobra_tras {fuera : Nat → Particion} {p c : Nat}
    (h : ClavesDonde (fun j => pos < j) K t.elements)
    (hl : pos ≤ p ∨ (t.leer fuera (p + 1)).ocupado = false
      ∨ (t.leer fuera p).bytesDisponibles - ocupa c m < c) :
    ClavesDonde (fun j => pos < j) K (repartirSobra fuera t p m c).elements := by
  unfold repartirSobra
  dsimp only
  split
  · rename_i ho
    split
    · rename_i hd
      have hp : pos ≤ p := by
        rcases hl with hle | hno | hno
        · exact hle
        · exact absurd (show (t.leer fuera (p + 1)).ocupado = true from ho) (by rw [hno]; simp)
        · omega
      refine ClavesDonde.toca (h.iterar fun j es hj hes => ?_) (fun _ h => by cases h) _
      refine hes.copia (j := t.tableMaxSize - 1 - j - 1) ?_ ?_
      · exact fun _ h => ⟨h, rfl⟩
      · simp only [TableInfo.tableMaxSize] at hj ⊢
        omega
    · exact h.toca (noOcupa_inutilizados _) _
  · have h₁ : ClavesDonde (fun j => pos < j) K (t.elements.modify (p + 1) fun s =>
        { s with item := { s.item with data := (t.leer fuera p).item.data + ocupa c m } }) := by
      refine h.toca ?_ _
      exact fun _ h => ⟨h, rfl⟩
    split
    · exact h₁.toca (noOcupa_disponibles _) _
    · exact h₁.toca (noOcupa_inutilizados _) _

/-- **CREATION** under another key, or at the slot itself or before it, repeats
    no key after the slot. -/
theorem crear_tras {k : Clave} {p : Nat} (h : ClavesDonde (fun j => pos < j) K t.elements)
    (hlt : pos < t.elements.length) (hk : pos < p → K k)
    (hl : pos = p ∨ creaLejos cfg t p m pos) :
    ClavesDonde (fun j => pos < j) K (crear cfg e t k p m).elements := by
  have h₁ : ClavesDonde (fun j => pos < j) K (lruGet e.relojGet (t.modificar p fun s =>
      { s with item := { s.item with key := k, ndata := m }, ocupado := true }) p).elements := by
    refine ClavesDonde.toca (h.modify fun hp s _ _ => hk hp) (noOcupa_usar _) _
  unfold crear
  cases hesq : cfg.esquema with
  | particionesDinamicas =>
      dsimp only [micacheCreateElement]
      refine ClavesDonde.toca ?_ (noOcupa_disponibles _) _
      split
      · rename_i hcabe
        refine repartirSobra_tras h₁ ?_
        rcases hl with rfl | hl
        · exact Or.inl (Nat.le_refl _)
        · exact creaLejos_sobra hl hesq hlt hcabe
      · exact h₁
  | buddySystem =>
      dsimp only [buddyCreateElement]
      exact (h₁.toca (noOcupa_inutilizados _) _).toca (noOcupa_disponibles _) _

end Despues

/-! ## A slot a flush has emptied -/

/-- Slot `pos` is free and still has its stored mark. -/
def Vacante (es : List Particion) (pos : Nat) : Prop :=
  ∃ s, es[pos]? = some s ∧ s.ocupado = false ∧ s.item.stored = true

/-- A rewrite that neither occupies a slot nor clears its mark. -/
structure NoLlena (f : Particion → Particion) : Prop where
  ocupado : ∀ s, s.ocupado = false → (f s).ocupado = false
  stored : ∀ s, s.item.stored = true → (f s).item.stored = true

section Vacantes

variable {pos m : Nat} {es : List Particion} {t t' : TableInfo} {cfg : Config} {e : Entorno}

theorem Vacante.modify {f : Particion → Particion} {i : Nat} (h : Vacante es pos)
    (hf : i ≠ pos ∨ NoLlena f) : Vacante (es.modify i f) pos := by
  obtain ⟨s, hs, ho, hst⟩ := h
  by_cases hi : i = pos
  · subst hi
    have hf := hf.resolve_left (by simp)
    exact ⟨f s, by rw [List.getElem?_modify, hs]; simp, hf.ocupado s ho, hf.stored s hst⟩
  · exact ⟨s, by rw [getElem?_modify_otra f es hi]; exact hs, ho, hst⟩

theorem Vacante.iterar {f : Nat → List Particion → List Particion} {n : Nat} (h : Vacante es pos)
    (hf : ∀ i es, i < n → Vacante es pos → Vacante (f i es) pos) :
    Vacante (iterar f n es) pos :=
  iterar_invariante (f := f) (fun _ es => Vacante es pos) h hf

theorem Vacante.lt (h : Vacante es pos) : pos < es.length := by
  obtain ⟨s, hs, -⟩ := h
  exact (List.getElem?_eq_some_iff.mp hs).1

theorem noLlena_disponibles (b : Particion → Int) :
    NoLlena fun s => { s with bytesDisponibles := b s } := ⟨fun _ h => h, fun _ h => h⟩

theorem noLlena_usada (b : Particion → Nat) :
    NoLlena fun s => { s with ultimaVezUsada := b s } := ⟨fun _ h => h, fun _ h => h⟩

/-- A removal frees an occupied slot. -/
theorem micacheRemove_vacante {k : Clave} (h : Vacante t.elements pos)
    (hr : micacheRemove t k = some t') : Vacante t'.elements pos := by
  obtain ⟨q, hq, he⟩ := micacheRemove_elements hr
  rw [he]
  refine h.modify (Or.inl ?_)
  rintro rfl
  obtain ⟨A, s, B, hes, rfl, hs, -⟩ := ultimoIndice_parte hq
  obtain ⟨u, hu, ho, -⟩ := h
  have hus : s = u := by simpa [hes] using hu
  rw [hus] at hs
  simp [coincide, ho] at hs

/-- The merge of a hole. -/
theorem unirHueco_vacante {p k : Nat} {total : Int} (h : Vacante t.elements pos)
    (hl : huecoLejos t p k pos) : Vacante (unirHueco t p k total).elements pos := by
  have h₁ : Vacante (t.elements.modify p fun s => { s with bytesDisponibles := total }) pos :=
    h.modify (Or.inr (noLlena_disponibles _))
  have hlt := h.lt
  unfold unirHueco
  dsimp only
  split
  · rename_i hk
    have hlej : pos ≤ p ∨ (p + k ≤ pos ∧ t.tableMaxSize ≤ pos + k) := hl.resolve_left (by omega)
    refine (h₁.iterar ?_).iterar ?_
    · intro i es hi hes
      exact hes.modify (Or.inl (by omega))
    · intro i es hi hes
      exact hes.modify (Or.inl (by simp only [TableInfo.tableMaxSize] at *; omega))
  · exact h₁

/-- A split at a later block. -/
theorem desplazarUnoAbajo_vacante {i : Nat} {part : Int} (h : Vacante t.elements pos)
    (hi : pos < i) : Vacante (desplazarUnoAbajo e t i part).elements pos := by
  have h₁ : Vacante (iterar (fun j es => es.modify (t.tableMaxSize - 1 - j)
      (copiarDescriptor (es.getD (t.tableMaxSize - 1 - j - 1) Particion.vacia)))
      (t.tableMaxSize - 1 - i) t.elements) pos :=
    h.iterar fun j es hj hes => hes.modify (Or.inl (by omega))
  unfold desplazarUnoAbajo
  dsimp only
  have h₂ : ∀ (es : List Particion) (f g k : Particion → Particion), Vacante es pos →
      Vacante (((es.modify i f).modify i g).modify (i + 1) k) pos := fun es f g k hes =>
    ((hes.modify (Or.inl (by omega))).modify (Or.inl (by omega))).modify (Or.inl (by omega))
  split
  · exact (h₂ _ _ _ _ h₁).modify (Or.inl (by omega))
  · exact h₂ _ _ _ _ h₁

theorem buscarHueco_vacante {i : Nat} (h : Vacante t.elements pos)
    (hl : ∀ j ∈ huecoBuddy t m, mitadLejos t m j pos)
    (hr : buscarHueco e t m = some (some (t', i))) : Vacante t'.elements pos := by
  obtain ⟨hh, hp⟩ := buscarHueco_casos hr
  rcases hl i hh with hlt | hent
  · obtain ⟨-, hu, -⟩ := partir_regla (P := fun _ u => Vacante u.elements pos)
      (fun u part hu _ _ => desplazarUnoAbajo_vacante hu hlt) (fun u part hu _ => hu) e.vueltas h hp
    exact hu
  · rw [partir_entera hent _ hp]
    exact h

/-- The first search of a placement of `m` bytes under `k` finds a hole, and
    making it ready leaves the free slot `pos` in its place. -/
def colocaEnseguida (cfg : Config) (t : TableInfo) (k : Clave) (m pos : Nat) : Prop :=
  ∀ t' ∈ quitarPrevio t k,
    (cfg.esquema = .particionesDinamicas →
      ∃ x ∈ hueco cfg.algBusqueda t' m, huecoLejos t' x.1 x.2.1 pos) ∧
    (cfg.esquema = .buddySystem → ∃ i ∈ huecoBuddy t' m, mitadLejos t' m i pos)

instance (cfg : Config) (t : TableInfo) (k : Clave) (m pos : Nat) :
    Decidable (colocaEnseguida cfg t k m pos) :=
  inferInstanceAs (Decidable (∀ t' ∈ quitarPrevio t k, (_ → _) ∧ (_ → _)))

/-- **PLACEMENT** that finds its hole at once. -/
theorem colocar_vacante {k : Clave} {i : Nat} (h : Vacante t.elements pos)
    (hl : colocaEnseguida cfg t k m pos) (hr : colocar cfg e t k m = some (t', i)) :
    Vacante t'.elements pos := by
  obtain ⟨t₁, hq, hr⟩ := Option.bind_eq_some_iff.mp hr
  obtain ⟨hdin, hbud⟩ := hl t₁ hq
  have h₁ : Vacante t₁.elements pos := by
    rcases quitarPrevio_casos hq with ⟨rfl, -⟩ | hrem
    · exact h
    · exact micacheRemove_vacante h hrem
  cases hesq : cfg.esquema with
  | particionesDinamicas =>
      simp only [hesq] at hr
      obtain ⟨⟨p, k, total⟩, hx, hlejos⟩ := hdin hesq
      cases hv : e.vueltas with
      | zero => rw [hv] at hr; cases hr
      | succ v =>
          rw [hv] at hr
          simp only [compactacion, buscarLugar_hueco, Option.mem_def.mp hx, Option.map_some] at hr
          obtain ⟨rfl, -⟩ := Prod.mk.inj (Option.some.inj hr)
          exact unirHueco_vacante h₁ hlejos
  | buddySystem =>
      simp only [hesq] at hr
      obtain ⟨j, hj, hlejos⟩ := hbud hesq
      cases hv : e.vueltas with
      | zero => rw [hv] at hr; cases hr
      | succ v =>
          rw [hv] at hr
          obtain ⟨r₁, h1, hr₁⟩ := Option.bind_eq_some_iff.mp hr
          cases r₁ with
          | some r =>
              obtain rfl := Option.some.inj hr₁
              refine buscarHueco_vacante h₁ (fun j' hj' => ?_) h1
              rw [Option.mem_def.mp hj] at hj'
              obtain rfl := Option.some.inj hj'
              exact hlejos
          | none =>
              rw [Option.mem_def, buscarHueco_none h1] at hj
              cases hj

theorem repartirSobra_vacante {fuera : Nat → Particion} {p c : Nat} (h : Vacante t.elements pos)
    (hp : p ≠ pos) (hl : pos ≤ p ∨ (t.leer fuera (p + 1)).ocupado = false
      ∨ (t.leer fuera p).bytesDisponibles - ocupa c m < c) :
    Vacante (repartirSobra fuera t p m c).elements pos := by
  unfold repartirSobra
  dsimp only
  split
  · rename_i ho
    split
    · rename_i hd
      have hpos : pos < p + 1 := by
        rcases hl with hle | hno | hno
        · omega
        · exact absurd (show (t.leer fuera (p + 1)).ocupado = true from ho) (by rw [hno]; simp)
        · omega
      refine Vacante.modify (h.iterar fun j es hj hes => hes.modify (Or.inl ?_)) (Or.inl ?_)
      · omega
      · omega
    · exact h.modify (Or.inl hp)
  · have h₁ : Vacante (t.elements.modify (p + 1) fun s =>
        { s with item := { s.item with data := (t.leer fuera p).item.data + ocupa c m } }) pos := by
      refine h.modify (Or.inr ⟨?_, ?_⟩)
      · exact fun _ h => h
      · exact fun _ h => h
    split
    · exact h₁.modify (Or.inr (noLlena_disponibles _))
    · exact h₁.modify (Or.inl hp)

/-- **CREATION** at another slot that shifts nothing over this one. -/
theorem crear_vacante {k : Clave} {p : Nat} (h : Vacante t.elements pos)
    (hl : creaLejos cfg t p m pos) : Vacante (crear cfg e t k p m).elements pos := by
  have h₁ : Vacante (lruGet e.relojGet (t.modificar p fun s =>
      { s with item := { s.item with key := k, ndata := m }, ocupado := true }) p).elements pos :=
    (h.modify (Or.inl hl.1)).modify (Or.inl hl.1)
  unfold crear
  cases hesq : cfg.esquema with
  | particionesDinamicas =>
      dsimp only [micacheCreateElement]
      refine Vacante.modify ?_ (Or.inl hl.1)
      split
      · rename_i hcabe
        exact repartirSobra_vacante h₁ hl.1 (creaLejos_sobra hl hesq h.lt hcabe)
      · exact h₁
  | buddySystem =>
      dsimp only [buddyCreateElement]
      exact (h₁.modify (Or.inl hl.1)).modify (Or.inl hl.1)

end Vacantes

end Rc
