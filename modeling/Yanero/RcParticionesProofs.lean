import Yanero.RcVista
import Yanero.Teselado

/-! # The dynamic partitions keep their layout

    The invariant of the dynamic scheme (`DinInv`): the live slots come first
    and lie in order, without overlap, inside the data area, and when `exacto`
    holds they fill it.  The routines of the source keep it away from four
    slips, each named by a condition on the table the routine meets:
    `huecoSeguro` and `altaSegura` for the merge and the creation,
    `barridoSeguro` for compaction, `bajaSegura` for the bytes a removal gives
    back. -/

namespace Rc

open Bucles Teselado

/-- The length of a partition: never less than a chunk when occupied. -/
def largoDin (c : Nat) (s : Particion) : Int :=
  if s.ocupado then ocupa c s.item.ndata + s.bytesInutilizados else s.bytesDisponibles

@[simp] theorem largoDin_libre (c a : Nat) (n : Int) : largoDin c (libre a n) = n := rfl

/-- The length of a free slot. -/
theorem largoDin_of_libre {c : Nat} {s : Particion} (h : s.ocupado = false) :
    largoDin c s = s.bytesDisponibles := by simp [largoDin, h]

/-- The length of an occupied one. -/
theorem largoDin_of_ocupado {c : Nat} {s : Particion} (h : s.ocupado = true) :
    largoDin c s = ocupa c s.item.ndata + s.bytesInutilizados := by simp [largoDin, h]

/-- An item takes its bytes at least. -/
theorem ndata_le_ocupa (c n : Nat) : n ≤ ocupa c n := by
  unfold ocupa
  split <;> omega

/-- And a chunk at least. -/
theorem chunk_le_ocupa (c n : Nat) : c ≤ ocupa c n := by
  unfold ocupa
  split <;> omega

/-- What one live slot satisfies. -/
structure BienDin (c : Nat) (s : Particion) : Prop where
  libre : s.ocupado = false → s.bytesInutilizados = 0 ∧ (c : Int) ≤ s.bytesDisponibles
  ocupada : s.ocupado = true → s.bytesDisponibles = 0 ∧ 0 ≤ s.bytesInutilizados

/-- A free slot of a chunk. -/
theorem bienDin_libre {c a : Nat} {n : Int} (h : (c : Int) ≤ n) : BienDin c (libre a n) :=
  ⟨fun _ => ⟨rfl, h⟩, fun h => nomatch h⟩

/-- A slot is a chunk long at least. -/
theorem BienDin.chunk_le {c : Nat} {s : Particion} (h : BienDin c s) :
    (c : Int) ≤ largoDin c s := by
  cases ho : s.ocupado with
  | false => rw [largoDin_of_libre ho]; exact (h.libre ho).2
  | true =>
      rw [largoDin_of_ocupado ho]
      have := chunk_le_ocupa c s.item.ndata
      have := (h.ocupada ho).2
      omega

/-- An item is in its slot. -/
theorem BienDin.ndata_le {c : Nat} {s : Particion} (h : BienDin c s) (ho : s.ocupado = true) :
    (s.item.ndata : Int) ≤ largoDin c s := by
  rw [largoDin_of_ocupado ho]
  have := ndata_le_ocupa c s.item.ndata
  have := (h.ocupada ho).2
  omega

/-- The table of the dynamic scheme: live slots `L`, then dead slots `D`. -/
structure DinInv (cfg : Config) (exacto : Prop) (t : TableInfo) (L D : List Particion) :
    Prop where
  chunk : t.sizeChunk = cfg.chunkSize
  tabla : vista t = L ++ D
  muertas : ∀ s ∈ D, muerta s
  bien : ∀ s ∈ L, BienDin cfg.chunkSize s
  cabe : Cabe inicio (largoDin cfg.chunkSize) cfg.ptrdata L (cfg.ptrdata + cfg.blockSizeMax)
  slots : L.length + D.length = cfg.blockSizeMax / cfg.chunkSize
  suma : exacto → (L.map (largoDin cfg.chunkSize)).sum = cfg.blockSizeMax

/-- The table, without naming its slots. -/
def Din (cfg : Config) (exacto : Prop) (t : TableInfo) : Prop := ∃ L D, DinInv cfg exacto t L D

section Operaciones

variable {cfg : Config} {exacto : Prop} {t t' : TableInfo}

/-- **LOCAL CHANGE**: the invariant passes to a table that differs in one
    segment, when the new segment fits where the old one did. -/
theorem DinInv.trueque {A M M' B D D' : List Particion}
    (h : DinInv cfg exacto t (A ++ (M ++ B)) D) (hchunk : t'.sizeChunk = t.sizeChunk)
    (hv : vista t' = (A ++ (M' ++ B)) ++ D') (hD : ∀ s ∈ D', muerta s)
    (hlen : M'.length + D'.length = M.length + D.length)
    (hbien : ∀ s ∈ M', BienDin cfg.chunkSize s)
    (hcabe : ∀ x y, Cabe inicio (largoDin cfg.chunkSize) x M y →
      Cabe inicio (largoDin cfg.chunkSize) x M' y)
    (hsum : exacto →
      (M'.map (largoDin cfg.chunkSize)).sum = (M.map (largoDin cfg.chunkSize)).sum) :
    DinInv cfg exacto t' (A ++ (M' ++ B)) D' := by
  refine ⟨hchunk.trans h.chunk, hv, hD, ?_, cabe_trueque h.cabe hcabe, ?_, ?_⟩
  · intro s hs
    rcases List.mem_append.mp hs with hA | hr
    · exact h.bien s (List.mem_append.mpr (Or.inl hA))
    · rcases List.mem_append.mp hr with hM | hB
      · exact hbien s hM
      · exact h.bien s (by simp [hB])
  · have := h.slots
    simp only [List.length_append] at this ⊢
    omega
  · intro he
    have hs := h.suma he
    have := hsum he
    simp only [List.map_append, List.sum_append] at hs ⊢
    omega

/-- No length is negative. -/
theorem DinInv.no_negativa {L D : List Particion} (h : DinInv cfg exacto t L D) :
    ∀ s ∈ L, 0 ≤ largoDin cfg.chunkSize s := by
  intro s hs
  have := (h.bien s hs).chunk_le
  omega

/-- The table is the tiling and the dead slots. -/
theorem DinInv.tableMaxSize {L D : List Particion} (h : DinInv cfg exacto t L D) :
    t.tableMaxSize = L.length + D.length := by
  rw [← length_vista, h.tabla, List.length_append]

/-- The items are in the tiling. -/
theorem DinInv.ocupadas_eq {L D : List Particion} (h : DinInv cfg exacto t L D) :
    Rc.ocupadas t.elements = Rc.ocupadas L := by
  rw [← ocupadas_vista, h.tabla, ocupadas_append, ocupadas_muertas h.muertas, List.append_nil]

/-- A partition of two chunks or more leaves a dead slot at the end of the
    table. -/
theorem DinInv.sobra {A B D : List Particion} {f : Particion}
    (h : DinInv cfg exacto t (A ++ f :: B) D) (hc : 0 < cfg.chunkSize)
    (hf : 2 * (cfg.chunkSize : Int) ≤ largoDin cfg.chunkSize f) : D ≠ [] := by
  rintro rfl
  have hA := suma_minima (L := A) fun s hs => (h.bien s (by simp [hs])).chunk_le
  have hB := suma_minima (L := B) fun s hs => (h.bien s (by simp [hs])).chunk_le
  have hs := cabe_suma h.cabe
  simp only [List.map_append, List.map_cons, List.sum_append, List.sum_cons] at hs
  have hle : (cfg.chunkSize : Int) * (A.length + B.length + 2) ≤ cfg.blockSizeMax := by
    have : (cfg.chunkSize : Int) * (A.length + B.length + 2)
        = cfg.chunkSize * A.length + cfg.chunkSize * B.length + 2 * cfg.chunkSize := by ring
    omega
  have hle' : (A.length + B.length + 2) * cfg.chunkSize ≤ cfg.blockSizeMax := by
    rw [Nat.mul_comm]; exact_mod_cast hle
  have hdiv := (Nat.le_div_iff_mul_le hc).mpr hle'
  have hslots := h.slots
  simp only [List.length_append, List.length_cons, List.length_nil] at hslots
  omega

/-- Where a slot that is not dead stands. -/
theorem DinInv.parte {L D A₀ R₀ : List Particion} {s₀ : Particion}
    (h : DinInv cfg exacto t L D) (hes : t.elements = A₀ ++ s₀ :: R₀) (hs : ¬ muerta s₀) :
    ∃ B, L = A₀.map limpia ++ limpia s₀ :: B ∧ R₀.map limpia = B ++ D := by
  have hv := h.tabla
  rw [vista, hes, List.map_append, List.map_cons] at hv
  exact parte_viva hv h.muertas (fun hm => hs (muerta_limpia.mp hm))

/-! ## Removal, retouch and cleaning -/

/-- A removal gives back all the bytes of the slot: not of an item under a
    chunk that has unusable bytes. -/
def bajaSegura (c : Nat) (s : Particion) : Prop :=
  c ≤ s.item.ndata ∨ s.bytesInutilizados = 0

instance (c : Nat) (s : Particion) : Decidable (bajaSegura c s) :=
  inferInstanceAs (Decidable (c ≤ s.item.ndata ∨ s.bytesInutilizados = 0))

/-- A freed slot has a chunk at least and no more than it was long. -/
theorem bytesLiberados_le {c : Nat} {s : Particion} (h : BienDin c s) (ho : s.ocupado = true) :
    (c : Int) ≤ bytesLiberados c s ∧ bytesLiberados c s ≤ largoDin c s := by
  have := (h.ocupada ho).2
  rw [largoDin_of_ocupado ho]
  unfold bytesLiberados ocupa
  split <;> omega

/-- A safe removal frees all of it. -/
theorem bytesLiberados_eq {c : Nat} {s : Particion} (ho : s.ocupado = true)
    (hs : bajaSegura c s) : bytesLiberados c s = largoDin c s := by
  rw [largoDin_of_ocupado ho]
  unfold bajaSegura at hs
  unfold bytesLiberados ocupa
  split <;> omega

/-- A removal turns one occupied partition into a free one that lies in it. -/
theorem micacheRemove_din {key : Clave} (h : Din cfg exacto t)
    (hseg : exacto → ∀ s ∈ t.elements, s.ocupado = true → s.item.key = key →
      bajaSegura cfg.chunkSize s)
    (hr : micacheRemove t key = some t') : Din cfg exacto t' := by
  obtain ⟨L, D, h⟩ := h
  obtain ⟨A, s, R, hv, hoc, hkey, -, hv', -, -, hch, -, -⟩ := micacheRemove_vista hr
  obtain ⟨B, rfl, rfl⟩ := parte_viva (hv.symm.trans h.tabla) h.muertas
    (fun hm => by rw [hm.1] at hoc; exact nomatch hoc)
  rw [h.chunk] at hv'
  have hb := h.bien s (by simp)
  obtain ⟨hle, hle'⟩ := bytesLiberados_le hb hoc
  have hmem : s ∈ t.elements := by
    have : s ∈ ocupadas t.elements := by
      rw [← ocupadas_vista, hv]
      exact mem_ocupadas.mpr ⟨by simp, hoc⟩
    exact (mem_ocupadas.mp this).1
  refine ⟨A ++ ([libre s.item.data (bytesLiberados cfg.chunkSize s)] ++ B), D,
    DinInv.trueque (M := [s]) h hch (by simpa using hv') h.muertas (by simp) ?_ ?_ ?_⟩
  · intro u hu
    obtain rfl := List.mem_singleton.mp hu
    exact bienDin_libre hle
  · intro x y
    simp only [cabe_cons, cabe_nil, libre_data, largoDin_libre, inicio]
    omega
  · intro he
    simp [bytesLiberados_eq hoc (hseg he s hmem hoc hkey)]

/-- A retouch of an occupied slot keeps the table. -/
theorem Din.retoque {A B : List Particion} {s : Particion} {f : Particion → Particion}
    (h : Din cfg exacto t) (hes : t.elements = A ++ s :: B) (hoc : s.ocupado = true)
    (hf : MismaForma s (f s)) : Din cfg exacto (t.modificar A.length f) := by
  obtain ⟨L, D, h⟩ := h
  obtain ⟨B', rfl, hB⟩ := h.parte hes (fun hm => by rw [hm.1] at hoc; exact nomatch hoc)
  rw [limpia_of_ocupado hoc] at h
  have hoc' : (f s).ocupado = true := hf.ocupado.trans hoc
  have hv := vista_modificar hes f
  rw [limpia_of_ocupado hoc', hB] at hv
  have hlargo : largoDin cfg.chunkSize (f s) = largoDin cfg.chunkSize s := by
    simp [largoDin, hf.ocupado, hf.ndata, hf.inutilizados, hf.disponibles]
  have hb := (h.bien s (by simp)).ocupada hoc
  refine ⟨A.map limpia ++ ([f s] ++ B'), D, DinInv.trueque (M := [s]) h rfl (by simpa using hv)
    h.muertas rfl ?_ ?_ ?_⟩
  · intro u hu
    obtain rfl := List.mem_singleton.mp hu
    refine ⟨fun hf' => ?_, fun _ => ?_⟩
    · rw [hoc'] at hf'; exact nomatch hf'
    · rw [hf.disponibles, hf.inutilizados]; exact hb
  · intro x y
    simp [inicio, hlargo, hf.data]
  · intro _
    simp [hlargo]

/-- A slot brings a chunk to a flush at least, and no more than it was long. -/
theorem aporteClean_le {c : Nat} {s : Particion} (h : BienDin c s) :
    (c : Int) ≤ aporteClean c s ∧ aporteClean c s ≤ largoDin c s := by
  cases ho : s.ocupado with
  | false =>
      obtain ⟨h1, h2⟩ := h.libre ho
      rw [largoDin_of_libre ho]
      simp [aporteClean, ho, h1, h2]
  | true =>
      have hin := (h.ocupada ho).2
      rw [largoDin_of_ocupado ho]
      simp only [aporteClean, ho, if_true]
      unfold ocupa
      split <;> split <;> omega

/-- And all of it when it lost nothing. -/
theorem aporteClean_eq {c : Nat} {s : Particion} (h : BienDin c s)
    (hs : s.ocupado = true → bajaSegura c s) : aporteClean c s = largoDin c s := by
  cases ho : s.ocupado with
  | false => simp [aporteClean, largoDin_of_libre ho, ho, (h.libre ho).1]
  | true =>
      have hb := hs ho
      rw [largoDin_of_ocupado ho]
      unfold bajaSegura at hb
      simp only [aporteClean, ho, if_true]
      unfold ocupa
      split <;> split <;> omega

/-- A flush makes no bytes. -/
theorem suma_aporte {c : Nat} {L : List Particion} (h : ∀ s ∈ L, BienDin c s) :
    (L.map (aporteClean c)).sum ≤ (L.map (largoDin c)).sum := by
  refine List.sum_le_sum ?_
  intro s hs
  exact (aporteClean_le (h s hs)).2

/-- `flush_all` rebuilds one free partition out of what the slots give back. -/
theorem micacheClean_din (hc : 0 < cfg.chunkSize) (h : Din cfg exacto t)
    (hseg : exacto → ∀ s ∈ t.elements, s.ocupado = true → bajaSegura cfg.chunkSize s) :
    Din cfg exacto (micacheClean t) := by
  obtain ⟨L, D, h⟩ := h
  have hD : (D.map (aporteClean t.sizeChunk)).sum = 0 := by
    refine List.sum_eq_zero ?_
    intro x hx
    obtain ⟨d, hd, rfl⟩ := List.mem_map.mp hx
    obtain ⟨h1, h2, h3⟩ := h.muertas d hd
    simp [aporteClean, h1, h2, h3]
  have haporte : ((vista t).map (aporteClean t.sizeChunk)).sum
      = (L.map (aporteClean cfg.chunkSize)).sum := by
    rw [h.tabla, List.map_append, List.sum_append, hD, add_zero, h.chunk]
  cases L with
  | nil =>
      -- no live slot: everything stays dead
      cases D with
      | nil =>
          have hes : t.elements = [] := by simpa [vista] using h.tabla
          refine ⟨[], [], h.chunk, ?_, by simp, by simp, h.cabe, h.slots, h.suma⟩
          simp [vista, micacheClean, TableInfo.modificar, hes]
      | cons d D =>
          obtain ⟨D', hD', hv', hlen⟩ := micacheClean_vista (s := d) (B := D) h.tabla
          rw [haporte] at hv'
          refine ⟨[], libre d.item.data 0 :: D', h.chunk, by simpa using hv', ?_, by simp, h.cabe,
            ?_, h.suma⟩
          · intro u hu
            rcases List.mem_cons.mp hu with rfl | hu
            · exact ⟨rfl, rfl, rfl⟩
            · exact hD' u hu
          · have := h.slots
            simp only [List.length_cons] at this ⊢
            omega
  | cons s B =>
      have hv : vista t = s :: (B ++ D) := h.tabla
      obtain ⟨D', hD', hv', hlen⟩ := micacheClean_vista hv
      rw [haporte] at hv'
      have hbien : ∀ u ∈ B, BienDin cfg.chunkSize u := fun u hu => h.bien u (by simp [hu])
      have hle := suma_aporte h.bien
      have hpos : (cfg.chunkSize : Int) ≤ ((s :: B).map (aporteClean cfg.chunkSize)).sum := by
        have h1 := (aporteClean_le (h.bien s (by simp))).1
        have h2 : (0 : Int) ≤ (B.map (aporteClean cfg.chunkSize)).sum := by
          refine suma_nonneg ?_
          intro u hu
          have := (aporteClean_le (hbien u hu)).1
          omega
        simp only [List.map_cons, List.sum_cons]
        omega
      have hcab := h.cabe
      refine ⟨[libre s.item.data ((s :: B).map (aporteClean cfg.chunkSize)).sum], D', h.chunk,
        hv', hD', ?_, ?_, ?_, ?_⟩
      · intro u hu
        obtain rfl := List.mem_singleton.mp hu
        exact bienDin_libre hpos
      · have hsum := cabe_suma hcab.2
        have hini := hcab.1
        simp only [List.map_cons, List.sum_cons, inicio] at hle hsum hini ⊢
        simp only [cabe_cons, cabe_nil, inicio_libre, largoDin_libre]
        omega
      · have := h.slots
        simp only [List.length_cons, List.length_append, List.length_nil] at this hlen ⊢
        omega
      · intro he
        have hexa : (s :: B).map (aporteClean cfg.chunkSize)
            = (s :: B).map (largoDin cfg.chunkSize) := by
          refine List.map_congr_left ?_
          intro u hu
          refine aporteClean_eq (h.bien u hu) (fun ho => hseg he u ?_ ho)
          have : u ∈ ocupadas t.elements := by
            rw [h.ocupadas_eq]
            exact mem_ocupadas.mpr ⟨hu, ho⟩
          exact (mem_ocupadas.mp this).1
        have hs := h.suma he
        rw [hexa, hs]
        simp

/-! ## The searches -/

/-- A run of `k` free slots from slot `p` on, of `total` bytes, enough for
    `n`. -/
structure EsHueco (c n : Nat) (l : List Particion) (p k : Nat) (total : Int) : Prop where
  parte : ∃ A H R, l = A ++ (H ++ R) ∧ A.length = p ∧ H.length = k
    ∧ (∀ s ∈ H, s.ocupado = false ∧ s.bytesDisponibles ≠ 0)
    ∧ total = (H.map (·.bytesDisponibles)).sum
  alcanza : (n : Int) ≤ total ∧ (c : Int) ≤ total

/-- Past the live slots the loop of `first_fit` finds nothing. -/
theorem firstFitBuscar_muertas {c n : Nat} {D : List Particion} (hD : ∀ s ∈ D, s.viva = false) :
    ∀ (i : Nat) (libres : Int) (k p : Nat), ¬ ((n : Int) ≤ libres ∧ (c : Int) ≤ libres) →
      firstFitBuscar c n D i libres k p = none := by
  induction D with
  | nil => intro i libres k p _; rfl
  | cons d D ih =>
      intro i libres k p hno
      obtain ⟨h1, h2⟩ : d.ocupado = false ∧ d.bytesDisponibles = 0 := by
        simpa [Particion.viva] using hD d (by simp)
      simp only [firstFitBuscar, h1, h2, Bool.false_eq_true, if_false, bne_self_eq_false,
        Bool.false_and]
      rw [if_neg hno]
      exact ih (fun s hs => hD s (by simp [hs])) (i + 1) libres k p hno

section Buscar

variable {l : List Particion} {P : Nat → Int → Nat → Nat → Prop} {c n : Nat}

/-- The rule of the loop of `first_fit`: `P` follows the slot it is at, the
    bytes and the slots of its free run, and where that run starts. -/
theorem firstFitBuscar_regla
    (corta : ∀ i b k p s, l[i]? = some s → P i b k p → P (i + 1) 0 0 p)
    (muerta : ∀ i b k p s, l[i]? = some s → s.ocupado = false → s.bytesDisponibles = 0 →
      P i b k p → P (i + 1) b k p)
    (suma : ∀ i b k p s, l[i]? = some s → s.ocupado = false → s.bytesDisponibles ≠ 0 →
      P i b k p → P (i + 1) (b + s.bytesDisponibles) (k + 1) (if k = 0 then i else p)) :
    ∀ (B A : List Particion) {b total : Int} {k p q j : Nat}, l = A ++ B → P A.length b k p →
      firstFitBuscar c n B A.length b k p = some (q, j, total) →
      ∃ i, i < l.length ∧ P (i + 1) total j q ∧ (n : Int) ≤ total ∧ (c : Int) ≤ total := by
  intro B
  induction B with
  | nil => intro A b total k p q j _ _ h; cases h
  | cons s B ih =>
      intro A b total k p q j hl hP h
      have hs : l[A.length]? = some s := by rw [hl]; simp
      have hl' : l = (A ++ [s]) ++ B := by rw [hl]; simp
      have hlen : A.length + 1 = (A ++ [s]).length := by simp
      rw [firstFitBuscar] at h
      split at h
      · rw [hlen] at h
        exact ih (A ++ [s]) hl' (by rw [← hlen]; exact corta _ _ _ _ s hs hP) h
      · rename_i ho
        rw [Bool.not_eq_true] at ho
        -- one more slot of the run, dead or not, and then the same test
        obtain ⟨b', k', p', hP', heq⟩ : ∃ b' k' p', P (A.length + 1) b' k' p' ∧
            (if (n : Int) ≤ b' ∧ (c : Int) ≤ b' then some (p', k', b')
              else firstFitBuscar c n B (A.length + 1) b' k' p') = some (q, j, total) := by
          by_cases hb : s.bytesDisponibles = 0
          · exact ⟨b, k, p, muerta _ _ _ _ s hs ho hb hP, by simpa [hb] using h⟩
          · exact ⟨_, _, _, suma _ _ _ _ s hs ho hb hP, by simpa [hb] using h⟩
        split at heq
        · rename_i hok
          obtain ⟨rfl, hr⟩ := Prod.mk.inj (Option.some.inj heq)
          obtain ⟨rfl, rfl⟩ := Prod.mk.inj hr
          exact ⟨A.length, (List.getElem?_eq_some_iff.mp hs).1, hP', hok⟩
        · rw [hlen] at heq hP'
          exact ih (A ++ [s]) hl' hP' heq

/-- The rule of the loop of `best_fit`: the best run so far is one the loop
    was in. -/
theorem bestFitBuscar_regla
    (corta : ∀ i b k p s, l[i]? = some s → P i b k p → P (i + 1) 0 0 p)
    (suma : ∀ i b k p s, l[i]? = some s → s.ocupado = false → s.bytesDisponibles ≠ 0 →
      P i b k p → P (i + 1) (b + s.bytesDisponibles) (k + 1) (if k = 0 then i else p)) :
    ∀ (B A : List Particion) {b min total : Int} {k p q j : Nat} {mejor : Option (Nat × Nat)},
      l = A ++ B → P A.length b k p →
      (∀ x ∈ mejor, ∃ i, i < l.length ∧ P (i + 1) min x.2 x.1 ∧ (n : Int) ≤ min ∧ (c : Int) ≤ min) →
      bestFitBuscar c n B A.length b k p min mejor = some (q, j, total) →
      ∃ i, i < l.length ∧ P (i + 1) total j q ∧ (n : Int) ≤ total ∧ (c : Int) ≤ total := by
  intro B
  induction B with
  | nil =>
      intro A b min total k p q j mejor _ _ hm h
      rw [bestFitBuscar] at h
      obtain ⟨x, hx, heq⟩ := Option.map_eq_some_iff.mp h
      obtain ⟨rfl, hr⟩ := Prod.mk.inj heq
      obtain ⟨rfl, rfl⟩ := Prod.mk.inj hr
      exact hm x hx
  | cons s B ih =>
      intro A b min total k p q j mejor hl hP hm h
      have hs : l[A.length]? = some s := by rw [hl]; simp
      have hl' : l = (A ++ [s]) ++ B := by rw [hl]; simp
      have hlen : A.length + 1 = (A ++ [s]).length := by simp
      rw [bestFitBuscar, hlen] at h
      have hcorta := corta _ _ _ _ s hs hP
      rw [hlen] at hcorta
      split at h
      · exact ih (A ++ [s]) hl' hcorta hm h
      · rename_i ho
        rw [Bool.not_eq_true] at ho
        split at h
        · rename_i hb
          rw [bne_iff_ne] at hb
          have hsuma := suma _ _ _ _ s hs ho hb hP
          rw [hlen] at hsuma
          simp only [beq_iff_eq] at h
          split at h
          · rename_i hok
            refine ih (A ++ [s]) hl' hsuma ?_ h
            rintro x hx
            obtain rfl := Option.some.inj hx
            rw [← hlen] at hsuma
            exact ⟨A.length, (List.getElem?_eq_some_iff.mp hs).1, hsuma, hok.1, hok.2.1⟩
          · exact ih (A ++ [s]) hl' hsuma hm h
        · exact ih (A ++ [s]) hl' hcorta hm h

/-- **SEARCH RULE**: what both loops keep of their free run holds of the hole,
    and the hole has room. -/
theorem hueco_regla {alg : AlgBusqueda} {t : TableInfo} {p k : Nat} {total : Int}
    (inicio : P 0 0 0 0)
    (corta : ∀ i b k p s, t.elements[i]? = some s → P i b k p → P (i + 1) 0 0 p)
    (muerta : ∀ i b k p s, t.elements[i]? = some s → s.ocupado = false →
      s.bytesDisponibles = 0 → P i b k p → P (i + 1) b k p)
    (suma : ∀ i b k p s, t.elements[i]? = some s → s.ocupado = false → s.bytesDisponibles ≠ 0 →
      P i b k p → P (i + 1) (b + s.bytesDisponibles) (k + 1) (if k = 0 then i else p))
    (h : hueco alg t n = some (p, k, total)) :
    ∃ i, i < t.tableMaxSize ∧ P (i + 1) total k p ∧ (n : Int) ≤ total
      ∧ (t.sizeChunk : Int) ≤ total := by
  cases alg with
  | firstFit => exact firstFitBuscar_regla corta muerta suma t.elements [] rfl inicio h
  | bestFit => exact bestFitBuscar_regla corta suma t.elements [] rfl inicio (by simp) h

end Buscar

/-- A search is what it finds, and the merge of that. -/
theorem buscarLugar_hueco (alg : AlgBusqueda) (t : TableInfo) (n : Nat) :
    buscarLugar alg t n
      = (hueco alg t n).map fun (p, k, total) => (unirHueco t p k total, p) := by
  cases alg <;> rfl

/-- **EITHER SEARCH** returns a run of free slots with room, when no dead slot
    stands among the live ones. -/
theorem hueco_esHueco {alg : AlgBusqueda} {n p k : Nat} {total : Int} {L D : List Particion}
    (hc : 0 < t.sizeChunk) (hes : t.elements = L ++ D)
    (hL : ∀ s ∈ L, s.ocupado = false → s.bytesDisponibles ≠ 0) (hD : ∀ s ∈ D, muerta s)
    (hh : hueco alg t n = some (p, k, total)) : EsHueco t.sizeChunk n t.elements p k total := by
  have hviva : ∀ i s, t.elements[i]? = some s → s.bytesDisponibles ≠ 0 → i < L.length := by
    intro i s hs hb
    by_contra hi
    rw [hes, List.getElem?_append_right (Nat.le_of_not_lt hi)] at hs
    exact hb (hD s (List.mem_of_getElem? hs)).2.1
  have hmuerta : ∀ i s, t.elements[i]? = some s → s.ocupado = false → s.bytesDisponibles = 0 →
      L.length ≤ i := by
    intro i s hs ho hb
    by_contra hi
    rw [hes, List.getElem?_append_left (Nat.lt_of_not_le hi)] at hs
    exact hL s (List.mem_of_getElem? hs) ho hb
  have hcorrida := hueco_regla
    (P := fun i b k p => ∃ A H R, t.elements = A ++ (H ++ R) ∧ H.length = k
      ∧ (0 < k → A.length = p) ∧ (i ≤ L.length → A.length + k = i)
      ∧ (∀ s ∈ H, s.ocupado = false ∧ s.bytesDisponibles ≠ 0)
      ∧ b = (H.map (·.bytesDisponibles)).sum)
    ⟨[], [], t.elements, rfl, rfl, by simp, fun _ => rfl, by simp, rfl⟩ ?_ ?_ ?_ hh
  · obtain ⟨i, -, ⟨A, H, R, hl, hk, hA, -, hH, htot⟩, hn, hct⟩ := hcorrida
    -- a hole with room has a slot
    have hpos : 0 < k := by
      rw [← hk, List.length_pos_iff]
      rintro rfl
      rw [htot] at hct
      simp only [List.map_nil, List.sum_nil] at hct
      omega
    exact ⟨⟨A, H, R, hl, hA hpos, hk, hH, htot⟩, hn, hct⟩
  · intro i b k p s hs _
    have hi := (List.getElem?_eq_some_iff.mp hs).1
    refine ⟨t.elements.take (i + 1), [], t.elements.drop (i + 1), by simp, rfl, by simp, ?_,
      by simp, rfl⟩
    rw [List.length_take]
    omega
  · rintro i b k p s hs ho hb ⟨A, H, R, hl, hk, hA, -, hH, hsum⟩
    have := hmuerta i s hs ho hb
    exact ⟨A, H, R, hl, hk, hA, by omega, hH, hsum⟩
  · rintro i b k p s hs ho hb ⟨A, H, R, hl, rfl, hA, hi, hH, hsum⟩
    have hlt := hviva i s hs hb
    have hfin := hi (Nat.le_of_lt hlt)
    obtain ⟨R', rfl⟩ : ∃ R', R = s :: R' := by
      rw [hl, ← List.append_assoc, ← hfin, ← List.length_append,
        List.getElem?_append_right (Nat.le_refl _), Nat.sub_self] at hs
      exact ⟨R.tail, (List.cons_head?_tail (by simpa [List.head?_eq_getElem?] using hs)).symm⟩
    refine ⟨A, H ++ [s], R', by simp [hl], by simp, fun _ => ?_, fun _ => by omega, ?_, ?_⟩
    · split
      · omega
      · exact hA (by omega)
    · intro u hu
      rcases List.mem_append.mp hu with hu | hu
      · exact hH u hu
      · obtain rfl := List.mem_singleton.mp hu
        exact ⟨ho, hb⟩
    · rw [hsum]
      simp

/-- The hole of either search, placed in the table. -/
theorem hueco_parte {alg : AlgBusqueda} {n p k : Nat} {total : Int} {L D : List Particion}
    (hc : 0 < cfg.chunkSize) (h : DinInv cfg exacto t L D)
    (hh : hueco alg t n = some (p, k, total)) :
    ∃ A x H R B, t.elements = A ++ (x :: H ++ R) ∧ A.length = p ∧ k = H.length + 1
      ∧ L = A.map limpia ++ ((x :: H).map limpia ++ B) ∧ R.map limpia = B ++ D
      ∧ (∀ s ∈ x :: H, s.ocupado = false ∧ s.bytesInutilizados = 0)
      ∧ total = ((x :: H).map (·.bytesDisponibles)).sum
      ∧ (n : Int) ≤ total ∧ (cfg.chunkSize : Int) ≤ total := by
  have hes : EsHueco cfg.chunkSize n t.elements p k total := by
    obtain ⟨L₀, D₀, hes, hL, hD⟩ := List.map_eq_append_iff.mp h.tabla
    rw [← h.chunk]
    refine hueco_esHueco (by rw [h.chunk]; exact hc) hes ?_ ?_ hh
    · intro s hs ho
      have := (h.bien (limpia s) (by rw [← hL]; exact List.mem_map_of_mem hs)).libre
        (by simpa using ho)
      rw [limpia_disponibles] at this
      omega
    · intro s hs
      exact muerta_limpia.mp (h.muertas (limpia s) (by rw [← hD]; exact List.mem_map_of_mem hs))
  obtain ⟨⟨A, H, R, hl, hA, hk, hH, htot⟩, hn, hct⟩ := hes
  -- a hole with room has a slot
  have hne : H ≠ [] := by
    rintro rfl
    simp only [List.map_nil, List.sum_nil] at htot
    omega
  obtain ⟨H₁, z, rfl⟩ : ∃ H₁ z, H = H₁ ++ [z] :=
    ⟨H.dropLast, H.getLast hne, (List.dropLast_append_getLast hne).symm⟩
  have hl' : t.elements = (A ++ H₁) ++ z :: R := by rw [hl]; simp
  obtain ⟨B, hL, hR⟩ := h.parte hl' (fun hm => (hH z (by simp)).2 hm.2.1)
  have hL' : L = A.map limpia ++ ((H₁ ++ [z]).map limpia ++ B) := by rw [hL]; simp
  have hin : ∀ s ∈ H₁ ++ [z], s.ocupado = false ∧ s.bytesInutilizados = 0 := by
    intro s hs
    have hmem := List.mem_map_of_mem (f := limpia) hs
    have hb := h.bien (limpia s) (by
      rw [hL']
      exact List.mem_append.mpr (Or.inr (List.mem_append.mpr (Or.inl hmem))))
    have := (hb.libre (by simpa using (hH s hs).1)).1
    exact ⟨(hH s hs).1, by simpa using this⟩
  obtain ⟨x, H', hx⟩ := List.exists_cons_of_ne_nil hne
  rw [hx] at hl hk hL' hin htot
  exact ⟨A, x, H', R, B, hl, hA, by simpa using hk.symm, hL', hR, hin, htot, hn, hct⟩

end Operaciones

end Rc
