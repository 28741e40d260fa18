import Yanero.RcVista
import Yanero.Teselado

/-! # The buddy scheme keeps its blocks

    The invariant of the buddy table (`BuddyInv`): its live slots come first,
    lie end to end over the data area, and have lengths `size_chunk * 2 ^ j`,
    and the two counters say what the slots say.  A split shifts the table one
    slot too far and leaves the chosen slot with the flags of the slot before
    it; `soltar` names the table with those flags reset, which is the table
    the creation routine acts on. -/

namespace Rc

open Bucles Teselado

/-- The length of a block of the buddy scheme. -/
def largoBuddy (c : Nat) (s : Particion) : Int :=
  if s.ocupado then largoOcupada c s else s.bytesDisponibles

@[simp] theorem largoBuddy_libre (c a : Nat) (n : Int) : largoBuddy c (libre a n) = n := rfl

theorem largoBuddy_of_libre {c : Nat} {s : Particion} (h : s.ocupado = false) :
    largoBuddy c s = s.bytesDisponibles := by simp [largoBuddy, h]

theorem largoBuddy_of_ocupado {c : Nat} {s : Particion} (h : s.ocupado = true) :
    largoBuddy c s = bytesLiberados c s := by
  by_cases hc : c ≤ s.item.ndata
  · simp [largoBuddy, h, largoOcupada, bytesLiberados, hc, Nat.not_lt.mpr hc]
  · simp [largoBuddy, h, largoOcupada, bytesLiberados, hc, Nat.lt_of_not_le hc]

theorem largoBuddy_limpia (c : Nat) (s : Particion) :
    largoBuddy c (limpia s) = largoBuddy c s := by
  cases h : s.ocupado with
  | true => rw [limpia_of_ocupado h]
  | false => rw [largoBuddy_of_libre h, largoBuddy_of_libre (by simpa using h)]; simp

/-! ## The two shifts on the cleaned table -/

/-- `desplazarUnoArriba` drops one slot and leaves a dead one at the end. -/
theorem desplazarUnoArriba_vista {self : TableInfo} {A R : List Particion} {s : Particion}
    (hes : self.elements = A ++ s :: R) (hR : R ≠ []) :
    ∃ z, muerta z ∧ vista (desplazarUnoArriba self A.length)
      = A.map limpia ++ (R.map limpia ++ [z]) := by
  have hcount : self.tableMaxSize - 1 - A.length = R.length := by
    simp only [TableInfo.tableMaxSize, hes, List.length_append, List.length_cons]
    omega
  obtain ⟨z, hz⟩ := map_subeUno limpia_copiarDescriptor descartada s
    R.dropLast (R.getLast hR)
  rw [List.dropLast_append_getLast hR] at hz
  refine ⟨limpia (descartada z), muerta_limpia.mpr ⟨rfl, rfl, rfl⟩, ?_⟩
  simp only [vista, desplazarUnoArriba, hcount, hes]
  rw [iterar_subeUno copiarDescriptor descartada Particion.vacia R A s, List.map_append, hz]

/-- The table with the flags of slot `i` reset to those of a free slot. -/
def soltar (i : Nat) (self : TableInfo) : TableInfo :=
  self.modificar i fun s => { s with ocupado := false, bytesInutilizados := 0 }

/-- **SPLIT**: with a spare slot at the end of the table, `desplazarUnoAbajo`
    turns the block of slot `A.length` into two halves, whatever was read as
    the slot before it. -/
theorem desplazarUnoAbajo_vista (e : Entorno) {self : TableInfo} {A Q : List Particion}
    {x y : Particion} (p : Int) (hes : self.elements = A ++ x :: (Q ++ [y])) :
    vista (soltar A.length (desplazarUnoAbajo e self A.length p))
      = A.map limpia ++ libre x.item.data p
          :: libre (x.item.data + p.toNat) p :: Q.map limpia := by
  have hN : self.tableMaxSize = A.length + 1 + (Q ++ [y]).length := by
    simp only [TableInfo.tableMaxSize, hes, List.length_append, List.length_cons]
    omega
  have hcount : self.tableMaxSize - 1 - A.length = (Q ++ [y]).length := by omega
  -- after the shift: the block, its copy one slot below, and the rest
  obtain ⟨w, W, hdes, hw, hW⟩ : ∃ w W, desplazada copiarDescriptor x (Q ++ [y]) = w :: W
      ∧ limpia w = limpia x ∧ W.map limpia = Q.map limpia := by
    have hmap := map_desplazada limpia_copiarDescriptor x Q y
    cases hd : desplazada copiarDescriptor x (Q ++ [y]) with
    | nil => rw [hd] at hmap; cases hmap
    | cons w W =>
        rw [hd, List.map_cons, List.cons.injEq] at hmap
        exact ⟨w, W, rfl, hmap.1, hmap.2⟩
  have hdata : w.item.data = x.item.data := by
    rw [← limpia_data w, hw, limpia_data]
  have hlast : A.length < self.tableMaxSize - 1 := by
    rw [hN]; simp only [List.length_append, List.length_cons, List.length_nil]; omega
  have hone : ∀ u : Particion, A.length + 1 = (A ++ [u]).length := by intro u; simp
  have happ : ∀ u : Particion, A ++ u :: w :: W = (A ++ [u]) ++ w :: W := by intro u; simp
  have hget : ∀ (u d : Particion), (A ++ u :: w :: W).getD (A.length + 1) d = w := by
    intro u d
    rw [hone u, happ u]
    exact getD_mitad d _ w W
  have hmod : ∀ (u v : Particion) (f : Particion → Particion),
      (A ++ u :: v :: W).modify (A.length + 1) f = A ++ u :: f v :: W := by
    intro u v f
    have happ' : A ++ u :: v :: W = (A ++ [u]) ++ v :: W := by simp
    rw [hone u, happ', modify_mitad]
    simp
  simp only [vista, soltar, TableInfo.modificar, desplazarUnoAbajo, hcount, hes]
  rw [iterar_bajar copiarDescriptor Particion.vacia (Q ++ [y]) A x self.tableMaxSize hN, hdes]
  simp only [modify_mitad, hget, hmod, if_pos hlast, List.map_append, List.map_cons, hW, hdata]
  simp [limpia, libre]

/-! ## The invariant -/

/-- What one live slot of the buddy table satisfies; `exacto` asks for the
    lengths the scheme has when the area is a power of two of chunks. -/
structure BienBuddy (c : Nat) (exacto : Prop) (s : Particion) : Prop where
  chunk_le : (c : Int) ≤ largoBuddy c s
  potencia : exacto → ∃ j : Nat, largoBuddy c s = c * 2 ^ j
  libre : s.ocupado = false → s.bytesInutilizados = 0
  ocupada : s.ocupado = true → s.bytesDisponibles = 0 ∧ (s.item.ndata : Int) ≤ largoBuddy c s

/-- The buddy table: live slots `L`, then dead slots `D`; `exacto` asks that
    no byte be lost. -/
structure BuddyInv (cfg : Config) (exacto : Prop) (t : TableInfo) (L D : List Particion) :
    Prop where
  chunk : t.sizeChunk = cfg.chunkSize
  tabla : vista t = L ++ D
  muertas : ∀ s ∈ D, muerta s
  hay : L ≠ []
  bien : ∀ s ∈ L, BienBuddy cfg.chunkSize exacto s
  cabe : Cabe inicio (largoBuddy cfg.chunkSize) cfg.ptrdata L (cfg.ptrdata + cfg.blockSizeMax)
  lleno : L.length + D.length = cfg.blockSizeMax / cfg.chunkSize
  cantidad : t.elementsAmount = (ocupadas L).length
  suma : exacto → (L.map (largoBuddy cfg.chunkSize)).sum = cfg.blockSizeMax
  espacio : exacto → t.espacioLibre = (L.map (·.bytesDisponibles)).sum

/-- **LOCAL CHANGE**: the invariant passes from a table to another that
    differs in one segment, when the new segment fits where the old one did,
    holds the same length, and the counters move with it. -/
theorem BuddyInv.trueque {cfg : Config} {exacto : Prop} {self self' : TableInfo}
    {A M M' B D D' : List Particion} (h : BuddyInv cfg exacto self (A ++ (M ++ B)) D)
    (hchunk : self'.sizeChunk = self.sizeChunk)
    (hv : vista self' = (A ++ (M' ++ B)) ++ D') (hD : ∀ s ∈ D', muerta s)
    (hlen : M'.length + D'.length = M.length + D.length) (hhay : M' ≠ [])
    (hbien : ∀ s ∈ M', BienBuddy cfg.chunkSize exacto s)
    (hcabe : ∀ x y, Cabe inicio (largoBuddy cfg.chunkSize) x M y →
      Cabe inicio (largoBuddy cfg.chunkSize) x M' y)
    (hcant : self'.elementsAmount - (ocupadas M').length
      = self.elementsAmount - (ocupadas M).length)
    (hsum : exacto → (M'.map (largoBuddy cfg.chunkSize)).sum
      = (M.map (largoBuddy cfg.chunkSize)).sum)
    (hesp : exacto → self'.espacioLibre - (M'.map (·.bytesDisponibles)).sum
      = self.espacioLibre - (M.map (·.bytesDisponibles)).sum) :
    BuddyInv cfg exacto self' (A ++ (M' ++ B)) D' := by
  have hc := h.cantidad
  have hl := h.lleno
  simp only [ocupadas_append, List.length_append] at hc hl
  refine ⟨hchunk.trans h.chunk, hv, hD, by simp [hhay], ?_, cabe_trueque h.cabe hcabe, ?_, ?_,
    fun hx => ?_, fun hx => ?_⟩
  · intro s hs
    rcases List.mem_append.mp hs with hA | hr
    · exact h.bien s (List.mem_append.mpr (Or.inl hA))
    · rcases List.mem_append.mp hr with hM | hB
      · exact hbien s hM
      · exact h.bien s (by simp [hB])
  · rw [← hl]
    simp only [List.length_append]
    omega
  · simp only [ocupadas_append, List.length_append]
    omega
  · have hs := h.suma hx
    have := hsum hx
    simp only [List.map_append, List.sum_append] at hs ⊢
    omega
  · have he := h.espacio hx
    have := hesp hx
    simp only [List.map_append, List.sum_append] at he ⊢
    omega

/-- The buddy table, without naming its slots. -/
def Buddy (cfg : Config) (exacto : Prop) (t : TableInfo) : Prop :=
  ∃ L D, BuddyInv cfg exacto t L D

theorem potencia_le {c : Nat} {n : Int} (h : ∃ j : Nat, n = c * 2 ^ j) : (c : Int) ≤ n := by
  obtain ⟨j, rfl⟩ := h
  have h1 : (1 : Int) ≤ 2 ^ j := one_le_pow₀ (by norm_num)
  nlinarith

theorem bienBuddy_libre {c a : Nat} {exacto : Prop} {n : Int} (hc : (c : Int) ≤ n)
    (h : exacto → ∃ j : Nat, n = c * 2 ^ j) : BienBuddy c exacto (libre a n) :=
  ⟨hc, h, fun _ => rfl, fun h => nomatch h⟩

theorem BuddyInv.tableMaxSize {cfg : Config} {exacto : Prop} {t : TableInfo}
    {L D : List Particion} (h : BuddyInv cfg exacto t L D) :
    t.tableMaxSize = L.length + D.length := by
  rw [← length_vista, h.tabla, List.length_append]

/-- Two buddy tables of one configuration have the same number of slots. -/
theorem Buddy.tableMaxSize_eq {cfg : Config} {exacto : Prop} {t t' : TableInfo}
    (h : Buddy cfg exacto t) (h' : Buddy cfg exacto t') :
    t.tableMaxSize = t'.tableMaxSize := by
  obtain ⟨L, D, h⟩ := h
  obtain ⟨L', D', h'⟩ := h'
  rw [h.tableMaxSize, h'.tableMaxSize, h.lleno, h'.lleno]

theorem BuddyInv.no_negativa {cfg : Config} {exacto : Prop} {t : TableInfo}
    {L D : List Particion} (h : BuddyInv cfg exacto t L D) :
    ∀ s ∈ L, 0 ≤ largoBuddy cfg.chunkSize s := by
  intro s hs
  have := (h.bien s hs).chunk_le
  omega

/-- A block of two chunks or more leaves a dead slot at the end of the
    table. -/
theorem BuddyInv.sobra {cfg : Config} {exacto : Prop} {t : TableInfo} {A B D : List Particion}
    {f : Particion} (h : BuddyInv cfg exacto t (A ++ f :: B) D) (hc : 0 < cfg.chunkSize)
    (hf : 2 * (cfg.chunkSize : Int) ≤ largoBuddy cfg.chunkSize f) : D ≠ [] := by
  rintro rfl
  have hA := suma_minima (L := A) fun s hs => (h.bien s (by simp [hs])).chunk_le
  have hB := suma_minima (L := B) fun s hs => (h.bien s (by simp [hs])).chunk_le
  have hs := cabe_suma h.cabe
  have hl := h.lleno
  simp only [List.map_append, List.map_cons, List.sum_append, List.sum_cons,
    List.length_append, List.length_cons, List.length_nil] at hs hl
  -- one more chunk would not fit in the area
  have hlt : (cfg.blockSizeMax : Int) < cfg.chunkSize * (A.length + (B.length + 1) + 1) := by
    have := Nat.lt_mul_div_succ cfg.blockSizeMax hc
    rw [← hl] at this
    exact_mod_cast this
  have : (cfg.chunkSize : Int) * (A.length + (B.length + 1) + 1)
      = cfg.chunkSize * A.length + cfg.chunkSize * B.length + 2 * cfg.chunkSize := by ring
  linarith

/-- Where a slot that is not dead stands. -/
theorem BuddyInv.parte {cfg : Config} {exacto : Prop} {t : TableInfo}
    {L D A₀ R₀ : List Particion} {s₀ : Particion} (h : BuddyInv cfg exacto t L D)
    (hes : t.elements = A₀ ++ s₀ :: R₀) (hs : ¬ muerta s₀) :
    ∃ B, L = A₀.map limpia ++ limpia s₀ :: B ∧ R₀.map limpia = B ++ D := by
  have hv := h.tabla
  rw [vista, hes, List.map_append, List.map_cons] at hv
  exact parte_viva hv h.muertas (fun hm => hs (muerta_limpia.mp hm))

/-! ## Removal, replacement and cleaning -/

section Operaciones

variable {cfg : Config} {exacto : Prop} {t t' : TableInfo}

/-- A removal turns one occupied block into a free one. -/
theorem micacheRemove_buddy {key : Clave} (hp : 0 < cfg.ptrdata) (h : Buddy cfg exacto t)
    (hr : micacheRemove t key = some t') : Buddy cfg exacto t' := by
  obtain ⟨L, D, h⟩ := h
  obtain ⟨A, s, R, hv, hoc, -, -, hv', hesp, hcant, hch, -, -⟩ := micacheRemove_vista hr
  obtain ⟨B, rfl, rfl⟩ := parte_viva (hv.symm.trans h.tabla) h.muertas
    (fun hm => by rw [hm.1] at hoc; exact nomatch hoc)
  have hb := h.bien s (by simp)
  obtain ⟨hbd, -⟩ := hb.ocupada hoc
  have hlargo : largoBuddy cfg.chunkSize s = bytesLiberados t.sizeChunk s := by
    rw [h.chunk]; exact largoBuddy_of_ocupado hoc
  -- its address is past `ptrdata`, so `micache_remove` counts it
  have hdata : s.item.data ≠ 0 := by
    have := (cabe_mem h.cabe h.no_negativa s (by simp)).1
    simp only [inicio] at this
    omega
  rw [if_neg hdata] at hcant
  refine ⟨A ++ ([libre s.item.data (bytesLiberados t.sizeChunk s)] ++ B), D,
    BuddyInv.trueque (M := [s]) h hch (by simpa using hv') h.muertas (by simp) (by simp)
      ?_ ?_ ?_ ?_ ?_⟩
  · intro u hu
    obtain rfl := List.mem_singleton.mp hu
    rw [← hlargo]
    exact bienBuddy_libre hb.chunk_le hb.potencia
  · intro x y hx
    simpa [inicio, hlargo] using hx
  · simp [hcant, ocupadas, hoc]
  · simp [hlargo]
  · simp [hesp, hbd]

theorem BuddyInv.bitacora {L D : List Particion} (h : BuddyInv cfg exacto t L D)
    (b : List Clave) : BuddyInv cfg exacto { t with bitacora := b } L D :=
  ⟨h.chunk, h.tabla, h.muertas, h.hay, h.bien, h.cabe, h.lleno, h.cantidad, h.suma, h.espacio⟩

theorem reemplazar_buddy {ahora : Nat} (hp : 0 < cfg.ptrdata) (h : Buddy cfg exacto t)
    (hr : reemplazar ahora t = some t') : Buddy cfg exacto t' := by
  obtain ⟨key, t₁, -, hr₁, rfl⟩ := reemplazar_remove hr
  obtain ⟨L, D, h₁⟩ := micacheRemove_buddy hp h hr₁
  exact ⟨L, D, h₁.bitacora _⟩

/-- What the slots contribute to the area `flush_all` rebuilds is what they
    measure. -/
theorem BuddyInv.aporte {L D : List Particion} (h : BuddyInv cfg exacto t L D) :
    ((Rc.vista t).map (aporteClean t.sizeChunk)).sum
      = (L.map (largoBuddy cfg.chunkSize)).sum := by
  have hL : L.map (aporteClean t.sizeChunk) = L.map (largoBuddy cfg.chunkSize) := by
    refine List.map_congr_left ?_
    intro u hu
    rw [h.chunk]
    cases ho : u.ocupado with
    | true => simp [aporteClean, largoBuddy, largoOcupada, ho]
    | false => simp [aporteClean, largoBuddy, ho, (h.bien u hu).libre ho]
  have hD : (D.map (aporteClean t.sizeChunk)).sum = 0 := by
    refine List.sum_eq_zero ?_
    intro x hx
    obtain ⟨d, hd, rfl⟩ := List.mem_map.mp hx
    obtain ⟨h1, h2, h3⟩ := h.muertas d hd
    simp [aporteClean, h1, h2, h3]
  rw [h.tabla, List.map_append, List.sum_append, hL, hD, add_zero]

/-- `flush_all` rebuilds one free block of all the bytes the table holds. -/
theorem micacheClean_buddy (hk : exacto → ∃ k, cfg.blockSizeMax = cfg.chunkSize * 2 ^ k)
    (h : Buddy cfg exacto t) : Buddy cfg exacto (micacheClean t) := by
  obtain ⟨L, D, h⟩ := h
  obtain ⟨s, B, rfl⟩ := List.exists_cons_of_ne_nil h.hay
  have hv : vista t = s :: (B ++ D) := h.tabla
  obtain ⟨D', hD', hv', hlen⟩ := micacheClean_vista hv
  have haporte := h.aporte
  rw [haporte] at hv'
  have hmin : (cfg.chunkSize : Int) ≤ ((s :: B).map (largoBuddy cfg.chunkSize)).sum := by
    have h1 := (h.bien s (by simp)).chunk_le
    have h2 : 0 ≤ (B.map (largoBuddy cfg.chunkSize)).sum :=
      suma_nonneg (fun u hu => h.no_negativa u (by simp [hu]))
    simp only [List.map_cons, List.sum_cons]
    omega
  refine ⟨[libre s.item.data ((s :: B).map (largoBuddy cfg.chunkSize)).sum], D', h.chunk, hv',
    hD', by simp, ?_, ?_, ?_, ?_, ?_, ?_⟩
  · intro u hu
    obtain rfl := List.mem_singleton.mp hu
    refine bienBuddy_libre hmin (fun hx => ?_)
    obtain ⟨k, hk⟩ := hk hx
    exact ⟨k, by rw [h.suma hx, hk]; push_cast; ring⟩
  · have hini : (cfg.ptrdata : Int) ≤ inicio s := h.cabe.1
    have hfin := cabe_suma (show Cabe inicio (largoBuddy cfg.chunkSize) (inicio s) (s :: B)
      (cfg.ptrdata + cfg.blockSizeMax) from ⟨le_refl _, h.cabe.2⟩)
    simp only [cabe_cons, cabe_nil, inicio_libre, largoBuddy_libre]
    exact ⟨hini, hfin⟩
  · have hl := h.lleno
    simp only [List.length_cons, List.length_append, List.length_nil] at hl hlen ⊢
    omega
  · simp [micacheClean, ocupadas]
  · intro hx
    simpa using h.suma hx
  · intro _
    have : (micacheClean t).espacioLibre
        = (t.elements.map (aporteClean t.sizeChunk)).sum := rfl
    rw [this, ← map_aporteClean_vista, haporte]
    simp

/-! ## Merging sisters -/

/-- A merge, on the cleaned table: the two slots become one free block. -/
theorem unirHermana_vista {A₀ B₀ : List Particion} {u₀ w₀ : Particion} (s : Particion)
    (hes : t.elements = A₀ ++ u₀ :: w₀ :: B₀) (hw : w₀.ocupado = false)
    (hin : w₀.bytesInutilizados = 0) :
    ∃ z, muerta z ∧ vista (unirHermana t A₀.length s) = A₀.map limpia
      ++ (libre s.item.data (w₀.bytesDisponibles + s.bytesDisponibles)
        :: (B₀.map limpia ++ [z])) := by
  -- the lower sister takes both lengths
  let w₁ : Particion := { w₀ with
    bytesDisponibles := w₀.bytesDisponibles + s.bytesDisponibles
    item := { w₀.item with data := s.item.data } }
  let t₁ : TableInfo := t.modificar (A₀.length + 1) fun g =>
    { g with
      bytesDisponibles := g.bytesDisponibles + s.bytesDisponibles
      item := { g.item with data := s.item.data } }
  have hes₁ : t₁.elements = A₀ ++ u₀ :: w₁ :: B₀ := by
    have hl : A₀.length + 1 = (A₀ ++ [u₀]).length := by simp
    have hs' : A₀ ++ u₀ :: w₀ :: B₀ = (A₀ ++ [u₀]) ++ w₀ :: B₀ := by simp
    simp only [t₁, TableInfo.modificar, hes, hl, hs', modify_mitad]
    simp [w₁]
  obtain ⟨z, hz, hvz⟩ := desplazarUnoArriba_vista hes₁ (by simp)
  have hw₁ : limpia w₁
      = libre s.item.data (w₀.bytesDisponibles + s.bytesDisponibles) :=
    limpia_of_libre (s := w₁) hw hin
  refine ⟨z, hz, ?_⟩
  rw [List.map_cons, hw₁, List.cons_append] at hvz
  exact hvz

/-- A merge of two free neighbours of one length. -/
theorem unirHermana_buddy {A B D : List Particion} {u w s : Particion}
    (h : BuddyInv cfg exacto t (A ++ u :: w :: B) D) (hu : u.ocupado = false)
    (hw : w.ocupado = false) (heq : w.bytesDisponibles = u.bytesDisponibles)
    (hs : s.bytesDisponibles = u.bytesDisponibles) (hsd : s.item.data = u.item.data) :
    ∃ z, muerta z ∧ BuddyInv cfg exacto (unirHermana t A.length s)
        (A ++ libre u.item.data (u.bytesDisponibles + u.bytesDisponibles) :: B) (D ++ [z])
      ∧ SoloDesaloja t (unirHermana t A.length s) := by
  have hv : vista t = A ++ u :: (w :: (B ++ D)) := by rw [h.tabla]; simp
  obtain ⟨A₀, u₀, R₀, hes, rfl, hu₀, hR⟩ := vista_parte hv
  obtain ⟨w₀, B₀, rfl, hw₀, hB⟩ := List.map_eq_cons_iff.mp hR
  have hoc : w₀.ocupado = false := by rw [← limpia_ocupado, hw₀]; exact hw
  have hin : w₀.bytesInutilizados = 0 := by
    rw [← limpia_inutilizados, hw₀]; exact (h.bien w (by simp)).libre hw
  have hbd : w₀.bytesDisponibles = u.bytesDisponibles := by
    rw [← limpia_disponibles, hw₀]; exact heq
  obtain ⟨z, hz, hvz⟩ := unirHermana_vista s hes hoc hin
  rw [hsd, hs, hbd, hB] at hvz
  rw [List.length_map]
  have hlu : largoBuddy cfg.chunkSize u = u.bytesDisponibles := largoBuddy_of_libre hu
  have hlw : largoBuddy cfg.chunkSize w = u.bytesDisponibles := by
    rw [largoBuddy_of_libre hw, heq]
  have hq : ocupadas (unirHermana t A₀.length s).elements = ocupadas t.elements := by
    rw [← ocupadas_vista, ← ocupadas_vista, hvz, h.tabla]
    simp only [ocupadas_append, ocupadas_cons_of_false hu, ocupadas_cons_of_false hw,
      ocupadas_libre, ocupadas_muertas h.muertas, ocupadas_cons_of_false hz.1]
    simp
  have h' : BuddyInv cfg exacto t (A₀.map limpia ++ ([u, w] ++ B)) D := h
  refine ⟨z, hz, ?_, .of_eq hq rfl rfl⟩
  show BuddyInv cfg exacto _ (A₀.map limpia
    ++ ([libre u.item.data (u.bytesDisponibles + u.bytesDisponibles)] ++ B)) (D ++ [z])
  refine BuddyInv.trueque h' rfl (by simpa using hvz) ?_ ?_ (by simp) ?_ ?_ ?_ ?_ ?_
  · intro d hd
    rcases List.mem_append.mp hd with hd | hd
    · exact h.muertas d hd
    · obtain rfl := List.mem_singleton.mp hd; exact hz
  · simp only [List.length_append, List.length_cons, List.length_nil]
    omega
  · intro v hv
    obtain rfl := List.mem_singleton.mp hv
    have hmin := (h.bien u (by simp)).chunk_le
    rw [hlu] at hmin
    refine bienBuddy_libre (by omega) (fun hx => ?_)
    obtain ⟨j, hj⟩ := (h.bien u (by simp)).potencia hx
    rw [hlu] at hj
    exact ⟨j + 1, by rw [hj]; ring⟩
  · intro x y
    simp only [cabe_cons, cabe_nil, hlu, hlw, libre_data, largoBuddy_libre, inicio]
    omega
  · simp [ocupadas, hu, hw, unirHermana, desplazarUnoArriba, TableInfo.modificar]
  · simp [hlu, hlw]
  · simp [heq, unirHermana, desplazarUnoArriba, TableInfo.modificar]

/-- The turn of a merging pass at slot `i` merges. -/
def une (fuera : Nat → Particion) (i : Nat) (p : Pasada) : Bool :=
  (unirTurno fuera i { p with seUnieron := false }).seUnieron

/-- The turn merges slots `A.length` and `A.length + 1` into one. -/
structure Fusion (p p' : Pasada) (A : List Particion) (u w : Particion) (R : List Particion) :
    Prop where
  tabla : p.self.elements = A ++ u :: w :: R
  arriba : u.ocupado = false
  abajo : w.ocupado = false
  hay : u.bytesDisponibles ≠ 0
  igual : w.bytesDisponibles = u.bytesDisponibles
  self : p'.self = unirHermana p.self A.length u

section Turno

variable (fuera : Nat → Particion) {p : Pasada} {A R : List Particion} {s : Particion}

/-- A slot that is taken or has no bytes is only counted. -/
theorem unirTurno_cuenta (hes : p.self.elements = A ++ s :: R)
    (hno : ¬ (!s.ocupado && s.bytesDisponibles != 0) = true) :
    (unirTurno fuera A.length p).self = p.self
      ∧ (unirTurno fuera A.length p).acum = p.acum + largoBuddy p.self.sizeChunk s
      ∧ une fuera A.length p = false := by
  have hleer := leer_mitad fuera hes
  simp only [une, unirTurno, hleer, if_neg hno]
  by_cases ho : s.ocupado = true
  · simp [ho, largoBuddy]
  · have hb : s.bytesDisponibles = 0 := by simpa [ho] using hno
    simp [ho, hb, largoBuddy]

/-- Past the end of the table a merge writes nothing. -/
theorem unirHermana_ultima (hes : p.self.elements = A ++ [s]) :
    unirHermana p.self A.length s = p.self := by
  have hN : p.self.elements.length = A.length + 1 := by rw [hes]; simp
  have hsame : (unirHermana p.self A.length s).elements = p.self.elements := by
    simp only [unirHermana, desplazarUnoArriba, TableInfo.modificar, TableInfo.tableMaxSize]
    rw [List.modify_eq_self (by omega)]
    rw [show p.self.elements.length - 1 - A.length = 0 by omega, iterar_zero]
  have : unirHermana p.self A.length s
      = { p.self with elements := (unirHermana p.self A.length s).elements } := rfl
  rw [this, hsame]

/-- A free slot at an even multiple of its length has its sister below: the turn
    counts it, takes what is past the table for its sister, or merges the two. -/
theorem unirTurno_par (hes : p.self.elements = A ++ s :: R) (ho : s.ocupado = false)
    (hb : s.bytesDisponibles ≠ 0) (hpar : (p.acum.tdiv s.bytesDisponibles).tmod 2 = 0) :
    ((unirTurno fuera A.length p).self = p.self
      ∧ (unirTurno fuera A.length p).acum = p.acum + s.bytesDisponibles
      ∧ (une fuera A.length p = true → R = [])) ∨
    ∃ w R', R = w :: R' ∧ Fusion p (unirTurno fuera A.length p) A s w R'
      ∧ une fuera A.length p = true ∧ (unirTurno fuera A.length p).acum
        = p.acum + ((unirHermana p.self A.length s).leer fuera A.length).bytesDisponibles := by
  have hleer := leer_mitad fuera hes
  have hlib : (!s.ocupado && s.bytesDisponibles != 0) = true := by simp [ho, hb]
  by_cases hh : (!(p.self.leer fuera (A.length + 1)).ocupado
      && (p.self.leer fuera (A.length + 1)).bytesDisponibles == s.bytesDisponibles) = true
  · cases R with
    | nil =>
        have hself := unirHermana_ultima hes
        refine .inl ⟨?_, ?_, fun _ => rfl⟩
        · simp only [unirTurno, hleer, if_pos hlib, if_pos hpar, if_pos hh, hself]
        · simp only [unirTurno, hleer, if_pos hlib, if_pos hpar, if_pos hh, hself]
    | cons w R' =>
        have hh' := hh
        rw [leer_siguiente fuera hes] at hh'
        simp only [Bool.and_eq_true, Bool.not_eq_true', beq_iff_eq] at hh'
        refine .inr ⟨w, R', rfl, ⟨hes, ho, hh'.1, hb, hh'.2, ?_⟩, ?_, ?_⟩
        · simp only [unirTurno, hleer, if_pos hlib, if_pos hpar, if_pos hh]
        · simp only [une, unirTurno, hleer, if_pos hlib, if_pos hpar, if_pos hh]
        · simp only [unirTurno, hleer, if_pos hlib, if_pos hpar, if_pos hh]
  · refine .inl ?_
    simp only [une, unirTurno, hleer, if_pos hlib, if_pos hpar, if_neg hh, true_and,
      Bool.false_eq_true, false_implies]

/-- At an odd multiple its sister is above, so there is one: the turn counts the
    slot or merges the two. -/
theorem unirTurno_impar {b : Particion} (hes : p.self.elements = A ++ b :: s :: R)
    (ho : s.ocupado = false) (hb : s.bytesDisponibles ≠ 0)
    (hpar : (p.acum.tdiv s.bytesDisponibles).tmod 2 ≠ 0) :
    ((unirTurno fuera (A.length + 1) p).self = p.self
      ∧ (unirTurno fuera (A.length + 1) p).acum = p.acum + s.bytesDisponibles
      ∧ une fuera (A.length + 1) p = false) ∨
    (Fusion p (unirTurno fuera (A.length + 1) p) A b s R ∧ une fuera (A.length + 1) p = true
      ∧ (unirTurno fuera (A.length + 1) p).acum = p.acum + s.bytesDisponibles) := by
  have hleer := leer_siguiente fuera hes
  have hleerb := leer_mitad fuera hes
  have hlib : (!s.ocupado && s.bytesDisponibles != 0) = true := by simp [ho, hb]
  by_cases hh : (!b.ocupado && b.bytesDisponibles == s.bytesDisponibles) = true
  · have hh' := hh
    simp only [Bool.and_eq_true, Bool.not_eq_true', beq_iff_eq] at hh'
    refine .inr ⟨⟨hes, hh'.1, ho, by rw [hh'.2]; exact hb, hh'.2.symm, ?_⟩, ?_, ?_⟩
    · simp only [unirTurno, hleer, Nat.add_sub_cancel, hleerb, if_pos hlib, if_neg hpar, if_pos hh]
    · simp only [une, unirTurno, hleer, Nat.add_sub_cancel, hleerb, if_pos hlib, if_neg hpar,
        if_pos hh]
    · simp only [unirTurno, hleer, Nat.add_sub_cancel, hleerb, if_pos hlib, if_neg hpar, if_pos hh]
  · refine .inl ?_
    simp only [une, unirTurno, hleer, Nat.add_sub_cancel, hleerb, if_pos hlib, if_neg hpar,
      if_neg hh, and_self]

end Turno

/-- **ONE TURN** of a merging pass counts a slot, merges it with the one below
    when it stands at an even multiple of its length by `acum`, or with the
    one above when at an odd one.  At the last slot of the table the one below
    is past the end, and the turn may take it for a sister. -/
theorem unirTurno_casos (fuera : Nat → Particion) {p : Pasada} {i : Nat}
    (hi : i < p.self.tableMaxSize) (h0 : i = 0 → p.acum = 0) :
    ((unirTurno fuera i p).self = p.self ∧ (unirTurno fuera i p).acum
        = p.acum + largoBuddy p.self.sizeChunk (p.self.leer fuera i)
      ∧ (une fuera i p = true → i + 1 = p.self.tableMaxSize
        ∧ (p.self.leer fuera i).ocupado = false ∧ (p.self.leer fuera i).bytesDisponibles ≠ 0
        ∧ (p.acum.tdiv (p.self.leer fuera i).bytesDisponibles).tmod 2 = 0)) ∨
    (∃ A u w R, Fusion p (unirTurno fuera i p) A u w R ∧ A.length = i ∧ une fuera i p = true
      ∧ (p.acum.tdiv u.bytesDisponibles).tmod 2 = 0 ∧ (unirTurno fuera i p).acum
        = p.acum + ((unirHermana p.self i u).leer fuera i).bytesDisponibles) ∨
    (∃ A u w R, Fusion p (unirTurno fuera i p) A u w R ∧ A.length + 1 = i
      ∧ une fuera i p = true ∧ (p.acum.tdiv u.bytesDisponibles).tmod 2 ≠ 0
      ∧ (unirTurno fuera i p).acum = p.acum + u.bytesDisponibles) := by
  obtain ⟨A, s, R, hes, rfl⟩ : ∃ A s R, p.self.elements = A ++ s :: R ∧ A.length = i := by
    have hi' : i < p.self.elements.length := hi
    exact ⟨p.self.elements.take i, p.self.elements[i], p.self.elements.drop (i + 1),
      by simp, by simp; omega⟩
  rw [leer_mitad fuera hes]
  by_cases hlib : (!s.ocupado && s.bytesDisponibles != 0) = true
  swap
  · obtain ⟨hself, hacum, hno⟩ := unirTurno_cuenta fuera hes hlib
    exact .inl ⟨hself, hacum, fun hu => absurd (hno.symm.trans hu) (by decide)⟩
  simp only [Bool.and_eq_true, Bool.not_eq_true', bne_iff_ne, ne_eq] at hlib
  obtain ⟨ho, hb⟩ := hlib
  rw [largoBuddy_of_libre ho]
  by_cases hpar : (p.acum.tdiv s.bytesDisponibles).tmod 2 = 0
  · rcases unirTurno_par fuera hes ho hb hpar with ⟨hself, hacum, hult⟩ |
      ⟨w, R', rfl, hfus, hune, hacum⟩
    · refine .inl ⟨hself, hacum, fun hu => ⟨?_, ho, hb, hpar⟩⟩
      rw [TableInfo.tableMaxSize, hes, hult hu]
      simp
    · exact .inr (.inl ⟨A, s, w, R', hfus, rfl, hune, hpar, hacum⟩)
  · have hA : A ≠ [] := by
      rintro rfl
      refine hpar ?_
      rw [h0 rfl]
      simp
    obtain ⟨A, b, rfl⟩ : ∃ A₁ b, A = A₁ ++ [b] :=
      ⟨A.dropLast, A.getLast hA, (List.dropLast_append_getLast hA).symm⟩
    have hes' : p.self.elements = A ++ b :: s :: R := by rw [hes]; simp
    rw [List.length_append, List.length_singleton]
    rcases unirTurno_impar fuera hes' ho hb hpar with ⟨hself, hacum, hno⟩ | ⟨hfus, hune, hacum⟩
    · exact .inl ⟨hself, hacum, fun hu => absurd (hno.symm.trans hu) (by decide)⟩
    · refine .inr (.inr ⟨A, b, s, R, hfus, rfl, hune, ?_, ?_⟩)
      · rwa [← hfus.igual]
      · rw [hacum, hfus.igual]

/-- Where the two slots of a merge stand among the live ones. -/
theorem Fusion.parte {p p' : Pasada} {A₀ R₀ L D : List Particion} {u w : Particion}
    (hf : Fusion p p' A₀ u w R₀) (h : BuddyInv cfg exacto p.self L D) :
    ∃ B, L = A₀.map limpia ++ limpia u :: limpia w :: B ∧ R₀.map limpia = B ++ D := by
  have hu : ¬ muerta u := fun hm => hf.hay hm.2.1
  have hw : ¬ muerta w := fun hm => hf.hay (by rw [← hf.igual]; exact hm.2.1)
  obtain ⟨B, rfl, hR⟩ := h.parte hf.tabla hu
  obtain ⟨B', rfl, hR'⟩ : ∃ B', B = limpia w :: B' ∧ R₀.map limpia = B' ++ D := by
    have := parte_viva (A := []) (by simpa using hR) h.muertas
      (fun hm => hw (muerta_limpia.mp hm))
    simpa using this
  exact ⟨B', rfl, hR'⟩

/-- A merge keeps the table: the two blocks become one. -/
theorem Fusion.buddy {p p' : Pasada} {A₀ R₀ B D : List Particion} {u w : Particion}
    (hf : Fusion p p' A₀ u w R₀)
    (h : BuddyInv cfg exacto p.self (A₀.map limpia ++ limpia u :: limpia w :: B) D) :
    ∃ z, muerta z ∧ BuddyInv cfg exacto p'.self (A₀.map limpia
        ++ libre u.item.data (u.bytesDisponibles + u.bytesDisponibles) :: B) (D ++ [z])
      ∧ SoloDesaloja p.self p'.self := by
  obtain ⟨z, hz, hm⟩ := unirHermana_buddy (s := u) h (by simpa using hf.arriba)
    (by simpa using hf.abajo) (by simpa using hf.igual) (by simp) (by simp)
  rw [List.length_map, limpia_data, limpia_disponibles, ← hf.self] at hm
  exact ⟨z, hz, hm⟩

/-- One turn of a merging pass keeps the table. -/
theorem unirTurno_buddy {fuera : Nat → Particion} {p : Pasada} {i : Nat}
    (h : Buddy cfg exacto p.self) (hi : i < p.self.tableMaxSize)
    (h0 : i = 0 → p.acum = 0) :
    Buddy cfg exacto (unirTurno fuera i p).self
      ∧ SoloDesaloja p.self (unirTurno fuera i p).self := by
  have hfus : ∀ {A u w R}, Fusion p (unirTurno fuera i p) A u w R →
      Buddy cfg exacto (unirTurno fuera i p).self
        ∧ SoloDesaloja p.self (unirTurno fuera i p).self := by
    intro A u w R hf
    obtain ⟨L, D, hinv⟩ := h
    obtain ⟨B, rfl, -⟩ := hf.parte hinv
    obtain ⟨z, -, hb, hq⟩ := hf.buddy hinv
    exact ⟨⟨_, _, hb⟩, hq⟩
  rcases unirTurno_casos fuera hi h0 with ⟨hs, -⟩ | ⟨A, u, w, R, hf, -⟩ | ⟨A, u, w, R, hf, -⟩
  · rw [hs]
    exact ⟨h, SoloDesaloja.refl _⟩
  · exact hfus hf
  · exact hfus hf

/-- The merging loop keeps the table. -/
theorem unirTodasLasHermanas_buddy {fuera : Nat → Particion} :
    ∀ (vueltas : Nat) {t t' : TableInfo}, Buddy cfg exacto t →
      unirTodasLasHermanas fuera vueltas t = some t' → Buddy cfg exacto t' ∧ SoloDesaloja t t' := by
  intro vueltas
  induction vueltas with
  | zero => intro t t' _ h; exact nomatch h
  | succ v ih =>
      intro t t' h hr
      -- the pass: every turn keeps the table, and `acum` is 0 at the first one
      have hpas : Buddy cfg exacto (unirPasada fuera t).self
          ∧ SoloDesaloja t (unirPasada fuera t).self := by
        have := iterar_invariante (f := unirTurno fuera) (n := t.tableMaxSize)
          (s := (⟨t, 0, false⟩ : Pasada))
          (fun i p => (Buddy cfg exacto p.self ∧ SoloDesaloja t p.self) ∧ (i = 0 → p.acum = 0))
          ⟨⟨h, SoloDesaloja.refl t⟩, fun _ => rfl⟩
          (by
            rintro i p hi ⟨⟨hb, hq⟩, h0⟩
            have hN := Buddy.tableMaxSize_eq h hb
            obtain ⟨hb', hq'⟩ := unirTurno_buddy hb (by omega) h0
            exact ⟨⟨hb', hq.trans hq'⟩, fun h => absurd h (Nat.succ_ne_zero i)⟩)
        exact this.1
      simp only [unirTodasLasHermanas] at hr
      by_cases hs : (unirPasada fuera t).seUnieron = true
      · rw [if_pos hs] at hr
        obtain ⟨hb, hq⟩ := ih hpas.1 hr
        exact ⟨hb, hpas.2.trans hq⟩
      · rw [if_neg hs] at hr
        obtain rfl := Option.some.inj hr
        exact hpas

/-! ## Placement -/

/-- Resetting the flags of a free slot shows nothing new. -/
theorem BuddyInv.soltar {A B D : List Particion} {f : Particion}
    (h : BuddyInv cfg exacto t (A ++ f :: B) D) (hf : f.ocupado = false) :
    BuddyInv cfg exacto (soltar A.length t) (A ++ f :: B) D := by
  have hv : Rc.vista t = A ++ f :: (B ++ D) := by rw [h.tabla]; simp
  obtain ⟨A₀, f₀, R₀, hes, rfl, hf₀, hR⟩ := vista_parte hv
  have hv' := vista_modificar hes
    (fun s => { s with ocupado := false, bytesInutilizados := 0 })
  have ho : f₀.ocupado = false := by rw [← limpia_ocupado, hf₀]; exact hf
  have hi : f₀.bytesInutilizados = 0 := by
    rw [← limpia_inutilizados, hf₀]; exact (h.bien f (by simp)).libre hf
  have hsame : limpia { f₀ with ocupado := false, bytesInutilizados := 0 } = f := by
    rw [← hf₀]
    simp [limpia, ho, hi]
  rw [hsame, hR] at hv'
  refine ⟨h.chunk, ?_, h.muertas, h.hay, h.bien, h.cabe, h.lleno, h.cantidad, h.suma, h.espacio⟩
  rw [List.length_map]
  show Rc.vista (t.modificar A₀.length _) = _
  rw [hv']
  simp

/-- The slots of a table, read off the table with slot `i` reset. -/
theorem soltar_parte {i : Nat} {A R : List Particion} {s : Particion}
    (hv : vista (soltar i t) = A ++ s :: R) (hi : A.length = i) :
    ∃ A₀ x R₀, t.elements = A₀ ++ x :: R₀ ∧ A₀.map limpia = A ∧ R₀.map limpia = R
      ∧ x.item.data = s.item.data ∧ x.bytesDisponibles = s.bytesDisponibles := by
  have hlt : i < t.elements.length := by
    have hl : (vista (soltar i t)).length = t.elements.length := by
      rw [length_vista]; exact modificar_tableMaxSize t i _
    rw [hv] at hl
    simp only [List.length_append, List.length_cons] at hl
    omega
  obtain ⟨A₀, x, R₀, hes, hlen⟩ : ∃ A₀ x R₀, t.elements = A₀ ++ x :: R₀ ∧ A₀.length = i :=
    ⟨t.elements.take i, t.elements[i], t.elements.drop (i + 1), by simp, by simp; omega⟩
  have hv' := vista_modificar hes
    (fun s => { s with ocupado := false, bytesInutilizados := 0 })
  rw [hlen] at hv'
  obtain ⟨hA, hR⟩ := List.append_inj (hv'.symm.trans hv) (by rw [List.length_map]; omega)
  rw [List.cons.injEq] at hR
  refine ⟨A₀, x, R₀, hes, hA, hR.2, ?_, ?_⟩
  · rw [← hR.1]; simp
  · rw [← hR.1]; simp

/-- Half a block of two chunks or more is a block. -/
theorem mitad_potencia {c : Nat} {F : Int} (hc : 0 < c) (hF : ∃ j : Nat, F = c * 2 ^ j)
    (h : (c : Int) ≤ F.tdiv 2) : F = 2 * F.tdiv 2 ∧ ∃ j : Nat, F.tdiv 2 = c * 2 ^ j := by
  obtain ⟨j, rfl⟩ := hF
  cases j with
  | zero =>
      exfalso
      have : ((c : Int) * 2 ^ 0).tdiv 2 = (c : Int) / 2 := by
        rw [pow_zero, mul_one, Int.tdiv_eq_ediv_of_nonneg (by omega)]
      omega
  | succ j =>
      have : ((c : Int) * 2 ^ (j + 1)).tdiv 2 = c * 2 ^ j := by
        rw [pow_succ, ← mul_assoc]
        exact Int.mul_tdiv_cancel _ (by norm_num)
      rw [this]
      exact ⟨by ring, j, rfl⟩

/-- A block under two chunks is one chunk. -/
theorem potencia_chica {c : Nat} {F : Int} (hF : ∃ j : Nat, F = c * 2 ^ j)
    (h : F.tdiv 2 < c) : F = c := by
  obtain ⟨j, rfl⟩ := hF
  cases j with
  | zero => simp
  | succ j =>
      exfalso
      have hd : ((c : Int) * 2 ^ (j + 1)).tdiv 2 = c * 2 ^ j := by
        rw [pow_succ, ← mul_assoc]
        exact Int.mul_tdiv_cancel _ (by norm_num)
      have h1 : (1 : Int) ≤ 2 ^ j := one_le_pow₀ (by norm_num)
      rw [hd] at h
      nlinarith

/-- What a placement for `n` bytes leaves: slot `i`, once its flags are reset,
    is a free block that holds `n` bytes and is no longer than needed, and the
    rest of the table kept the memory and the occupied slots, but for those
    whose keys were logged. -/
structure Lugar (cfg : Config) (exacto : Prop) (t₀ t : TableInfo) (n i : Nat)
    (A : List Particion) (a : Nat) (F : Int) (B D : List Particion) : Prop where
  inv : BuddyInv cfg exacto (soltar i t) (A ++ libre a F :: B) D
  pos : A.length = i
  cabe : (n : Int) ≤ F
  justo : exacto → n < cfg.chunkSize → F = cfg.chunkSize
  ocupadas : (ocupadas A ++ ocupadas B).Sublist (Rc.ocupadas t₀.elements)
  memoria : t.memoria = t₀.memoria
  registra : Registra (·.item.key) t₀.bitacora (Rc.ocupadas t₀.elements) t.bitacora
    (Rc.ocupadas A ++ Rc.ocupadas B)

/-- **HALVING** the placed block leaves it and its sister in the table. -/
theorem desplazarUnoAbajo_buddy {e : Entorno} {i : Nat} {A B D : List Particion} {a : Nat}
    {F part : Int} (hc : 0 < cfg.chunkSize)
    (hinv : BuddyInv cfg exacto (soltar i t) (A ++ libre a F :: B) D) (hi : A.length = i)
    (hhalf : part = F.tdiv 2) (hcp : (cfg.chunkSize : Int) ≤ part) :
    ∃ D', BuddyInv cfg exacto (soltar i (desplazarUnoAbajo e t i part))
      (A ++ libre a part :: libre (a + part.toNat) part :: B) D' := by
  have hpot : exacto → ∃ j : Nat, F = cfg.chunkSize * 2 ^ j :=
    (hinv.bien (libre a F) (by simp)).potencia
  have hmin : (cfg.chunkSize : Int) ≤ F := (hinv.bien (libre a F) (by simp)).chunk_le
  have hdos : 2 * part ≤ F := by
    rw [hhalf, Int.tdiv_eq_ediv_of_nonneg (by omega)]
    omega
  have hmitad : exacto → F = 2 * part ∧ ∃ j : Nat, part = cfg.chunkSize * 2 ^ j := by
    intro hx
    rw [hhalf]
    exact mitad_potencia hc (hpot hx) (by rw [← hhalf]; exact hcp)
  have hD : D ≠ [] := hinv.sobra hc (by rw [largoBuddy_libre]; omega)
  obtain ⟨D₁, d, rfl⟩ : ∃ D₁ d, D = D₁ ++ [d] :=
    ⟨D.dropLast, D.getLast hD, (List.dropLast_append_getLast hD).symm⟩
  have hv : vista (soltar i t) = A ++ libre a F :: (B ++ (D₁ ++ [d])) := by
    rw [hinv.tabla]; simp
  obtain ⟨A₀, x, R₀, hes, hA₀, hR₀, hxd, -⟩ := soltar_parte hv hi
  rw [← List.append_assoc] at hR₀
  obtain ⟨Q, R₁, rfl, hQ, hR₁⟩ := List.map_eq_append_iff.mp hR₀
  obtain ⟨y, rfl, -⟩ := List.map_eq_singleton_iff.mp hR₁
  have hlen : A₀.length = i := by rw [← hi, ← hA₀, List.length_map]
  have hvs := desplazarUnoAbajo_vista e part hes
  rw [hlen, hA₀, hQ, hxd, libre_data] at hvs
  have hinv₁ : BuddyInv cfg exacto (soltar i t) (A ++ ([libre a F] ++ B)) (D₁ ++ [d]) := hinv
  refine ⟨D₁, ?_⟩
  show BuddyInv cfg exacto _ (A ++ ([libre a part, libre (a + part.toNat) part] ++ B)) D₁
  refine BuddyInv.trueque hinv₁ rfl (by simpa using hvs)
    (fun s hs => hinv.muertas s (by simp [hs])) ?_ (by simp) ?_ ?_ ?_ ?_ ?_
  · simp only [List.length_append, List.length_cons, List.length_nil]
    omega
  · intro s hs
    rcases List.mem_cons.mp hs with rfl | hs
    · exact bienBuddy_libre hcp fun hx => (hmitad hx).2
    · obtain rfl := List.mem_singleton.mp hs
      exact bienBuddy_libre hcp fun hx => (hmitad hx).2
  · intro p q
    simp only [cabe_cons, cabe_nil, inicio_libre, largoBuddy_libre]
    push_cast
    omega
  · show (soltar i t).elementsAmount - _ = _
    simp
  · intro hx
    have := (hmitad hx).1
    simp
    omega
  · intro hx
    have := (hmitad hx).1
    show (soltar i t).espacioLibre - _ = _
    simp
    omega

/-- The halving loop. -/
theorem partir_buddy {e : Entorno} {n i : Nat} {t₀ : TableInfo} {A : List Particion} {a : Nat}
    (hc : 0 < cfg.chunkSize) (hi : A.length = i) :
    ∀ (vueltas : Nat) {t t' : TableInfo} {part F : Int} {B D : List Particion},
      BuddyInv cfg exacto (soltar i t) (A ++ libre a F :: B) D → (n : Int) ≤ F →
      (part = F.tdiv 2 ∨ part = -1 ∧ F.tdiv 2 < cfg.chunkSize) →
      ocupadas A ++ ocupadas B = ocupadas t₀.elements → t.memoria = t₀.memoria →
      t.bitacora = t₀.bitacora → partir e n i vueltas part t = some t' →
      ∃ F' B' D', Lugar cfg exacto t₀ t' n i A a F' B' D' := by
  intro vueltas
  induction vueltas with
  | zero => intro t t' part F B D _ _ _ _ _ _ h; exact nomatch h
  | succ v ih =>
      intro t t' part F B D hinv hn hpart hoc hm hbit hr
      have hpot : exacto → ∃ j : Nat, F = cfg.chunkSize * 2 ^ j :=
        (hinv.bien (libre a F) (by simp)).potencia
      have hmin : (cfg.chunkSize : Int) ≤ F := (hinv.bien (libre a F) (by simp)).chunk_le
      have hchunk : t.sizeChunk = cfg.chunkSize := hinv.chunk
      simp only [partir, hchunk] at hr
      by_cases hle : (n : Int) ≤ part
      · rw [if_pos hle] at hr
        have hhalf : part = F.tdiv 2 := by
          rcases hpart with h | ⟨h, -⟩
          · exact h
          · omega
        by_cases hcp : (cfg.chunkSize : Int) ≤ part
        · -- split once more
          rw [if_pos hcp] at hr
          obtain ⟨D', hinv'⟩ := desplazarUnoAbajo_buddy hc hinv hi hhalf hcp
          exact ih (t := desplazarUnoAbajo e t i part) hinv' hle (Or.inl rfl)
            (by simpa using hoc) hm hbit hr
        · -- a half would be less than a chunk
          rw [if_neg hcp] at hr
          exact ih hinv hn (Or.inr ⟨rfl, by omega⟩) hoc hm hbit hr
      · rw [if_neg hle] at hr
        obtain rfl := Option.some.inj hr
        refine ⟨F, B, D, hinv, hi, hn, ?_, by rw [hoc], hm, ?_⟩
        · intro hx hnc
          refine potencia_chica (hpot hx) ?_
          rcases hpart with h | ⟨-, h⟩
          · omega
          · exact h
        · exact Registra.of_subset hbit (by rw [hoc]; exact fun _ hx => hx)

end Operaciones

end Rc
