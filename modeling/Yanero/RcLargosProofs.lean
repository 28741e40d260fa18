import Yanero.Corridas
import Yanero.RcVisibleProofs
import Yanero.RcBarridoProofs
import Yanero.RcIndicesProofs

/-! # The lengths of a slot

    The creation routine of the dynamic scheme relies on what older operations
    left behind: it does not clear `bytes_inutilizados`, and it adds to the
    free bytes of the next slot instead of setting them.  What makes that right
    is a discipline every routine keeps, on any table and with no assumption
    on its layout: an occupied slot has no free bytes and less than a chunk of
    unusable ones, and a free slot has no unusable bytes and either no free
    ones or at least a chunk.

    The lengths are `int`s, and a merge can leave the last slots of the table
    twice, so that the next `micache_clean` counts their bytes twice.  While the
    bytes of the slots add up to less than 2^31 no sum wraps (`EnInt`) and the
    discipline holds (`largos_en_rango`); a run that doubles them again and
    again leaves a free slot with a negative length (`largos_en_rango_doblan`). -/

namespace Rc

open Bucles

/-- The lengths of one slot. -/
structure Largo (c : Nat) (s : Particion) : Prop where
  ocupada : s.ocupado = true →
    s.bytesDisponibles = 0 ∧ 0 ≤ s.bytesInutilizados ∧ s.bytesInutilizados < c
  libre : s.ocupado = false →
    s.bytesInutilizados = 0 ∧ (s.bytesDisponibles = 0 ∨ (c : Int) ≤ s.bytesDisponibles)

/-- Two slots with the same flag and the same lengths. -/
def MismoLargo (s u : Particion) : Prop :=
  u.ocupado = s.ocupado ∧ u.bytesDisponibles = s.bytesDisponibles
    ∧ u.bytesInutilizados = s.bytesInutilizados

section Ranura

variable {c : Nat} {s u : Particion}

/-- A free slot with no bytes, or with a whole chunk. -/
theorem largo_libre (ho : s.ocupado = false) (hi : s.bytesInutilizados = 0)
    (hd : s.bytesDisponibles = 0 ∨ (c : Int) ≤ s.bytesDisponibles) : Largo c s :=
  ⟨fun h => absurd h (by simp [ho]), fun _ => ⟨hi, hd⟩⟩

/-- An occupied slot that lost less than a chunk. -/
theorem largo_ocupada (ho : s.ocupado = true) (hd : s.bytesDisponibles = 0)
    (hi : 0 ≤ s.bytesInutilizados ∧ s.bytesInutilizados < c) : Largo c s :=
  ⟨fun _ => ⟨hd, hi⟩, fun h => absurd h (by simp [ho])⟩

/-- A dead slot. -/
theorem largo_muerta (h : muerta s) : Largo c s := largo_libre h.1 h.2.2 (Or.inl h.2.1)

/-- The empty slot. -/
theorem largo_vacia : Largo c Particion.vacia := largo_muerta ⟨rfl, rfl, rfl⟩

/-- It depends on the lengths alone. -/
theorem Largo.mismo (h : Largo c s) (hu : MismoLargo s u) : Largo c u := by
  obtain ⟨ho, hd, hi⟩ := hu
  constructor
  · intro h'
    rw [hd, hi]
    exact h.ocupada (by rwa [← ho])
  · intro h'
    rw [hd, hi]
    exact h.libre (by rwa [← ho])

/-- Occupied or not, a slot has less than a chunk of unusable bytes. -/
theorem Largo.inutiles (h : Largo c s) (hc : 0 < c) :
    0 ≤ s.bytesInutilizados ∧ s.bytesInutilizados < c := by
  cases ho : s.ocupado with
  | true => exact (h.ocupada ho).2
  | false =>
      rw [(h.libre ho).1]
      exact ⟨Int.le_refl 0, by exact_mod_cast hc⟩

/-- Occupied or not, a slot has no free bytes or at least a chunk. -/
theorem Largo.disponibles (h : Largo c s) :
    s.bytesDisponibles = 0 ∨ (c : Int) ≤ s.bytesDisponibles := by
  cases ho : s.ocupado with
  | true => exact Or.inl (h.ocupada ho).1
  | false => exact (h.libre ho).2

/-- Lengths that are nothing or at least a chunk add up to such a length. -/
theorem suma_largos {l : List Int} (h : ∀ x ∈ l, x = 0 ∨ (c : Int) ≤ x) :
    l.sum = 0 ∨ (c : Int) ≤ l.sum := by
  induction l with
  | nil => exact Or.inl rfl
  | cons x l ih =>
      have hx := h x (by simp)
      have hl := ih fun y hy => h y (by simp [hy])
      rw [List.sum_cons]
      omega

/-- Free bytes add up to none or to a chunk at least. -/
theorem suma_disponibles_largos {l : List Particion} (h : ∀ s ∈ l, Largo c s) :
    (l.map (·.bytesDisponibles)).sum = 0 ∨ (c : Int) ≤ (l.map (·.bytesDisponibles)).sum := by
  refine suma_largos fun x hx => ?_
  obtain ⟨s, hs, rfl⟩ := List.mem_map.mp hx
  exact (h s hs).disponibles

/-- Bytes lost add up to no negative number. -/
theorem suma_inutiles_largos {l : List Particion} (hc : 0 < c) (h : ∀ s ∈ l, Largo c s) :
    0 ≤ (l.map (·.bytesInutilizados)).sum := by
  refine List.sum_nonneg fun x hx => ?_
  obtain ⟨s, hs, rfl⟩ := List.mem_map.mp hx
  exact ((h s hs).inutiles hc).1

/-- A copied descriptor has the lengths of its source. -/
theorem mismoLargo_descriptor (src dst : Particion) :
    MismoLargo src (copiarDescriptor src dst) := by
  unfold copiarDescriptor
  dsimp only
  split
  · exact ⟨rfl, rfl, rfl⟩
  · exact ⟨rfl, rfl, rfl⟩

/-- A removal gives back at least a chunk. -/
theorem largo_liberada (h : Largo c s) (hc : 0 < c) : Largo c (liberada c s) := by
  refine largo_libre rfl rfl (Or.inr ?_)
  show (c : Int) ≤ bytesLiberados c s
  have hi := (h.inutiles hc).1
  unfold bytesLiberados
  split
  · exact Int.le_refl _
  · omega

/-- A slot brings nothing to the total of a flush, or a chunk at least. -/
theorem aporteClean_largo (h : Largo c s) (hc : 0 < c) :
    aporteClean c s = 0 ∨ (c : Int) ≤ aporteClean c s := by
  have hi := (h.inutiles hc).1
  unfold aporteClean
  cases ho : s.ocupado with
  | true =>
      rw [if_pos rfl]
      split
      · exact Or.inr (by omega)
      · exact Or.inr (Int.le_refl _)
  | false =>
      rw [if_neg (by simp), (h.libre ho).1, Int.add_zero]
      exact (h.libre ho).2

end Ranura

/-! ## The invariant -/

/-- Every slot of the table keeps the discipline of the configured chunk. -/
structure Disciplina (cfg : Config) (t : TableInfo) : Prop where
  chunk : t.sizeChunk = cfg.chunkSize
  largos : ∀ s ∈ t.elements, Largo cfg.chunkSize s

section Rutinas

variable {cfg : Config} {e : Entorno} {t t' : TableInfo} {c : Nat}

/-- A change that keeps the lengths keeps the discipline. -/
theorem Disciplina.toca {f : Particion → Particion} (h : Disciplina cfg t)
    (hf : ∀ s, MismoLargo s (f s)) (q : Nat) : Disciplina cfg (t.modificar q f) :=
  ⟨h.chunk, forall_modify (fun s hs => hs.mismo (hf s)) h.largos⟩

/-- A removal keeps it. -/
theorem Disciplina.micacheRemove {key : Clave} (h : Disciplina cfg t) (hc : 0 < cfg.chunkSize)
    (hr : micacheRemove t key = some t') : Disciplina cfg t' := by
  obtain ⟨q, -, he⟩ := micacheRemove_elements hr
  obtain ⟨-, -, -, -, -, -, -, -, -, -, hch, -⟩ := micacheRemove_vista hr
  refine ⟨hch.trans h.chunk, ?_⟩
  rw [he, h.chunk]
  exact forall_modify (fun s hs => largo_liberada hs hc) h.largos

/-- So does an eviction. -/
theorem Disciplina.reemplazar {ahora : Nat} (h : Disciplina cfg t) (hc : 0 < cfg.chunkSize)
    (hr : reemplazar ahora t = some t') : Disciplina cfg t' := by
  obtain ⟨key, t₁, -, h1, rfl⟩ := reemplazar_remove hr
  have h₁ := h.micacheRemove hc h1
  exact ⟨h₁.chunk, h₁.largos⟩

/-- So does the removal before a SET. -/
theorem Disciplina.quitarPrevio {key : Clave} (h : Disciplina cfg t) (hc : 0 < cfg.chunkSize)
    (hr : quitarPrevio t key = some t') : Disciplina cfg t' := by
  rcases quitarPrevio_casos hr with ⟨rfl, -⟩ | hrem
  · exact h
  · exact h.micacheRemove hc hrem

/-- `micache_clean` collects every length in slot `0`. -/
theorem Disciplina.micacheClean (h : Disciplina cfg t) (hc : 0 < cfg.chunkSize) :
    Disciplina cfg (micacheClean t) := by
  refine ⟨h.chunk, ?_⟩
  have hsuma : (t.elements.map (aporteClean t.sizeChunk)).sum = 0 ∨
      (cfg.chunkSize : Int) ≤ (t.elements.map (aporteClean t.sizeChunk)).sum := by
    refine suma_largos fun x hx => ?_
    obtain ⟨s, hs, rfl⟩ := List.mem_map.mp hx
    rw [h.chunk]
    exact aporteClean_largo (h.largos s hs) hc
  have hlimpias : EnCada (fun _ => muerta) (t.elements.map limpiada) := by
    rw [enCada_iff]
    intro s hs
    obtain ⟨u, -, rfl⟩ := List.mem_map.mp hs
    exact limpiada_muerta u
  rw [← enCada_iff]
  exact hlimpias.cambia (fun _ s _ hs => largo_muerta hs) fun s _ hs => largo_libre hs.1 rfl hsuma

/-! ## The merge of a hole -/

/-- The slots of a hole are free, dead ones among them or not. -/
theorem hueco_libre {alg : AlgBusqueda} {n p k : Nat} {total : Int} (hc : 0 < t.sizeChunk)
    (h : hueco alg t n = some (p, k, total)) :
    0 < k ∧ EnCada (fun j s => p ≤ j → j < p + k → s.ocupado = false) t.elements
      ∧ (n : Int) ≤ total ∧ (t.sizeChunk : Int) ≤ total := by
  have hcorrida := hueco_regla (P := fun i b k p => (k = 0 → b = 0) ∧ p + k ≤ i
      ∧ (0 < k → EnCada (fun j s => p ≤ j → j < i → s.ocupado = false) t.elements))
    (by simp) ?_ ?_ ?_ h
  · obtain ⟨i, -, ⟨hk, hpk, hlib⟩, hn, hch⟩ := hcorrida
    have hpos : 0 < k := Nat.pos_of_ne_zero fun h0 => by
      rw [hk h0] at hch
      omega
    exact ⟨hpos, (hlib hpos).mono fun j s hs hj hlt => hs hj (by omega), hn, hch⟩
  · rintro i b k p s - ⟨-, hpk, -⟩
    exact ⟨fun _ => rfl, by omega, fun h0 => absurd h0 (Nat.lt_irrefl 0)⟩
  · rintro i b k p s hs ho - ⟨hk, hpk, hlib⟩
    refine ⟨hk, by omega, fun h0 j u hu hj hlt => ?_⟩
    rcases Nat.lt_succ_iff_lt_or_eq.mp hlt with hlt | rfl
    · exact hlib h0 j u hu hj hlt
    · rw [hs] at hu
      rwa [← Option.some.inj hu]
  · rintro i b k p s hs ho - ⟨hk, hpk, hlib⟩
    refine ⟨by omega, by split <;> omega, fun _ j u hu hj hlt => ?_⟩
    rcases Nat.lt_succ_iff_lt_or_eq.mp hlt with hlt | rfl
    · split at hj
      · omega
      · exact hlib (by omega) j u hu hj hlt
    · rw [hs] at hu
      rwa [← Option.some.inj hu]

/-- A merge of free slots with a chunk at least. -/
theorem unirHueco_largos {p k : Nat} {total : Int} (h : ∀ s ∈ t.elements, Largo c s)
    (hk : 0 < k) (hlib : EnCada (fun j s => p ≤ j → j < p + k → s.ocupado = false) t.elements)
    (htot : (c : Int) ≤ total) : ∀ s ∈ (unirHueco t p k total).elements, Largo c s := by
  -- the slots of the hole are free all along, so what is written there is right
  have hboth : EnCada (fun j s => Largo c s ∧ (p ≤ j → j < p + k → s.ocupado = false))
      t.elements :=
    fun j s hs => ⟨h s (List.mem_of_getElem? hs), hlib j s hs⟩
  have h₁ := hboth.modify (f := fun s => { s with bytesDisponibles := total })
    (q := p) fun s _ hs =>
    ⟨largo_libre (hs.2 (Nat.le_refl p) (by omega))
      (hs.1.libre (hs.2 (Nat.le_refl p) (by omega))).1 (Or.inr htot), hs.2⟩
  rw [← enCada_iff]
  unfold unirHueco
  dsimp only
  split
  · have h₂ := h₁.iterar (n := k - 1) (f := fun i es => es.modify (p + 1 + i) fun s =>
        { s with ocupado := false, bytesDisponibles := 0 }) fun i es hi hes =>
      hes.modify fun s _ hs => ⟨largo_muerta ⟨rfl, rfl,
        (hs.1.libre (hs.2 (by omega) (by omega))).1⟩, fun _ _ => rfl⟩
    refine (h₂.mono fun j s hs => hs.1).iterar fun i es _ hes => hes.modify fun s _ _ => ?_
    exact Largo.mismo (hes.getD largo_vacia) (mismoLargo_descriptor _ s)
  · exact h₁.mono fun j s hs => hs.1

/-- The merge of what a search found keeps the discipline. -/
theorem Disciplina.unirHueco {alg : AlgBusqueda} {n p k : Nat} {total : Int}
    (h : Disciplina cfg t) (hc : 0 < cfg.chunkSize) (hh : hueco alg t n = some (p, k, total)) :
    Disciplina cfg (unirHueco t p k total) := by
  obtain ⟨hk, hlib, -, htot⟩ := hueco_libre (by rw [h.chunk]; exact hc) hh
  refine ⟨?_, unirHueco_largos h.largos hk hlib (by rw [← h.chunk]; exact htot)⟩
  rw [← h.chunk]
  unfold Rc.unirHueco
  dsimp only
  split
  · rfl
  · rfl

/-! ## Compaction -/

/-- The end of a compaction: the last item moved takes what does not make a
    chunk, the free slot after it what does. -/
theorem cargarTotal_largos {u : TableInfo} {A O G R : List Particion} {g : Particion} {total : Int}
    (hes : u.elements = A ++ (O ++ (g :: G ++ R))) (hch : u.sizeChunk = c) (hO : O ≠ [])
    (hoc : ∀ s ∈ O, s.ocupado = true) (hg : muerta g) (h : ∀ s ∈ u.elements, Largo c s)
    (hnn : 0 ≤ total) :
    ∀ s ∈ (cargarTotal u (A.length + O.length - 1) total).elements, Largo c s := by
  have hpos := List.length_pos_iff.mpr hO
  rw [← enCada_iff] at h ⊢
  unfold cargarTotal
  rw [hch]
  split
  · rename_i hlt
    refine h.modify fun s hs hl => ?_
    have hmem : s ∈ O := by
      rw [hes, List.getElem?_append_right (by omega), List.getElem?_append_left (by omega)] at hs
      exact List.mem_of_getElem? hs
    exact largo_ocupada (hoc s hmem) (hl.ocupada (hoc s hmem)).1 ⟨hnn, hlt⟩
  · rename_i hlt
    refine h.modify fun s hs _ => ?_
    have hsg : s = g := by
      rw [hes, List.getElem?_append_right (by omega), List.getElem?_append_right (by omega),
        show A.length + O.length - 1 + 1 - A.length - O.length = 0 by omega] at hs
      exact (Option.some.inj hs).symm
    rw [hsg]
    exact largo_libre hg.1 hg.2.2 (Or.inr (Int.not_lt.mp hlt))

/-- A sweep that meets a free slot begins somewhere before it. -/
theorem comienza_existe (c : Nat) (A : List Particion) (g : Particion) :
    ∃ q, Comienza c A g q := by
  rcases List.eq_nil_or_concat A with rfl | ⟨A', s, rfl⟩
  · exact ⟨g.item.data, fun _ => rfl, fun P s h => absurd h (by simp)⟩
  · rw [List.concat_eq_append]
    refine ⟨comienzoSiguiente c s, comienza_tras (by simp) fun u hu => ?_⟩
    have hsu : s = u := Option.some.inj hu
    rw [hsu]

/-- **COMPACTION** at a free slot. -/
theorem compactar_largos {A T : List Particion} {g : Particion} (hc : 0 < t.sizeChunk)
    (h : ∀ s ∈ t.elements, Largo t.sizeChunk s) (hes : t.elements = A ++ g :: T)
    (hg : g.ocupado = false) :
    ∀ s ∈ (compactar t A.length).1.elements, Largo t.sizeChunk s := by
  have hA : ∀ s ∈ A, Largo t.sizeChunk s := fun s hs => h s (by rw [hes]; simp [hs])
  have hgT : ∀ s ∈ g :: T, Largo t.sizeChunk s :=
    fun s hs => h s (by rw [hes]; exact List.mem_append_right A hs)
  have hlibre : ∀ s ∈ g :: T, s.ocupado = false → muerta (sinLibres s) :=
    fun s hs ho => ⟨ho, rfl, ((hgT s hs).libre ho).1⟩
  by_cases hT : ocupadas T = []
  · -- the free run reaches the end
    have hV : ∀ s ∈ g :: T, s.ocupado = false := by
      rintro s (_ | ⟨_, hs⟩)
      · exact hg
      · exact ocupadas_eq_nil.mp hT s hs
    rw [compactar_fin hes hV, List.map_cons]
    simp only [modify_mitad]
    intro s hs
    rcases List.mem_append.mp hs with hs | hs
    · exact hA s hs
    · rcases List.mem_cons.mp hs with rfl | hs
      · exact largo_libre hg rfl (suma_disponibles_largos hgT)
      · obtain ⟨u, hu, rfl⟩ := List.mem_map.mp hs
        have hu' : u ∈ g :: T := List.mem_cons_of_mem g hu
        exact largo_muerta (hlibre u hu' (hV u hu'))
  · obtain ⟨G, O, R, rfl, hG, hO, hOoc, hR⟩ := parte_ocupada hT
    have hV : ∀ s ∈ g :: G, s.ocupado = false := by
      rintro s (_ | ⟨_, hs⟩)
      · exact hg
      · exact hG s hs
    have hsub : ∀ s ∈ g :: G, s ∈ g :: (G ++ (O ++ R)) :=
      fun s hs => List.mem_append_left (O ++ R) hs
    have hOsub : ∀ s ∈ O, s ∈ g :: (G ++ (O ++ R)) :=
      fun s hs => List.mem_cons_of_mem g (by simp [hs])
    obtain ⟨q, hq⟩ := comienza_existe t.sizeChunk A g
    obtain ⟨g', G', hG', -, heq⟩ := compactar_corrida (Q := muerta) (fun _ => ⟨rfl, rfl, rfl⟩)
      (by simpa using hes) hV (fun s hs => hlibre s (hsub s hs) (hV s hs)) hO hOoc hR hq
    rw [heq]
    have hO' : ∀ s ∈ recolocar t.sizeChunk q (O.map sinInutiles),
        s.ocupado = true ∧ Largo t.sizeChunk s := by
      refine recolocar_mem (P := fun s => s.ocupado = true ∧ Largo t.sizeChunk s)
        (fun o a ho => ⟨ho.1, ho.2.mismo ⟨rfl, rfl, rfl⟩⟩) ?_
      intro s hs
      obtain ⟨u, hu, rfl⟩ := List.mem_map.mp hs
      have hc' : (0 : Int) < t.sizeChunk := by exact_mod_cast hc
      exact ⟨hOoc u hu, largo_ocupada (hOoc u hu) ((hgT u (hOsub u hu)).ocupada (hOoc u hu)).1
        ⟨Int.le_refl 0, hc'⟩⟩
    rw [show A.length + O.length - 1
      = A.length + (recolocar t.sizeChunk q (O.map sinInutiles)).length - 1 by simp]
    refine cargarTotal_largos rfl rfl ?_ (fun s hs => (hO' s hs).1) (hG' g' (by simp)) ?_ ?_
    · rw [← List.length_pos_iff, length_recolocar, List.length_map]
      exact List.length_pos_iff.mpr hO
    · intro s hs
      rcases List.mem_append.mp hs with hs | hs
      · exact hA s hs
      · rcases List.mem_append.mp hs with hs | hs
        · exact (hO' s hs).2
        · rcases List.mem_append.mp hs with hs | hs
          · exact largo_muerta (hG' s hs)
          · exact hgT s (List.mem_cons_of_mem g (by simp [hs]))
    · have hi := suma_inutiles_largos hc fun s hs => hgT s (hOsub s hs)
      have hd := suma_disponibles_largos fun s hs => hgT s (hsub s hs)
      omega

/-- One turn of the sweep keeps the discipline. -/
theorem Disciplina.compactar {fuera : Nat → Particion} {i : Nat} (h : Disciplina cfg t)
    (hc : 0 < cfg.chunkSize) (ho : (t.leer fuera i).ocupado = false) :
    Disciplina cfg (compactar t i).1 := by
  have hch : (Rc.compactar t i).1.sizeChunk = t.sizeChunk := by rw [compactar_marco t i]
  refine ⟨hch.trans h.chunk, ?_⟩
  rcases Nat.lt_or_ge i t.tableMaxSize with hi | hi
  · have hi' : i < t.elements.length := hi
    have hes : t.elements = t.elements.take i ++ t.elements[i] :: t.elements.drop (i + 1) := by
      rw [List.getElem_cons_drop, List.take_append_drop]
    have hlen : (t.elements.take i).length = i := by rw [List.length_take]; omega
    have hg : (t.elements[i]).ocupado = false := by
      rwa [TableInfo.leer, List.getD_eq_getElem _ _ hi'] at ho
    have hl := compactar_largos (by rw [h.chunk]; exact hc) (by rw [h.chunk]; exact h.largos) hes hg
    rwa [hlen, h.chunk] at hl
  · rw [compactar_fuera hi]
    exact h.largos

/-- So does the whole sweep. -/
theorem Disciplina.barrer {fuera : Nat → Particion} {vueltas i : Nat} (h : Disciplina cfg t)
    (hc : 0 < cfg.chunkSize) (hr : barrer fuera vueltas i t = some t') : Disciplina cfg t' := by
  obtain ⟨-, hb⟩ := barrer_regla (P := fun _ u => Disciplina cfg u) (fun _ _ hu _ => hu)
    (fun i u hu ho => hu.compactar hc ho) vueltas i h hr
  exact hb

/-! ## Placement and creation -/

/-- **PLACEMENT** hands out a slot of the table that holds what the item
    takes. -/
theorem Disciplina.colocar {key : Clave} {n q : Nat}
    (hesq : cfg.esquema = .particionesDinamicas) (hc : 0 < cfg.chunkSize) (h : Disciplina cfg t)
    (hr : colocar cfg e t key n = some (t', q)) :
    Disciplina cfg t' ∧ q < t'.tableMaxSize
      ∧ (ocupa cfg.chunkSize n : Int) ≤ (t'.leer e.fuera q).bytesDisponibles := by
  obtain ⟨t₁, hq, hr⟩ := Option.bind_eq_some_iff.mp hr
  simp only [hesq] at hr
  refine compactacion_regla (P := fun _ _ u => Disciplina cfg u)
    (Q := fun u q => Disciplina cfg u ∧ q < u.tableMaxSize
      ∧ (ocupa cfg.chunkSize n : Int) ≤ (u.leer e.fuera q).bytesDisponibles)
    (fun _ _ u p k total hu hh => ⟨hu.unirHueco hc hh, ?_, ?_⟩)
    (fun _ _ u u' hu _ _ hb => hu.barrer hc hb)
    (fun _ _ u u' hu _ _ hq => hu.reemplazar hc hq) _ _ (h.quitarPrevio hc hq) hr
  · rw [unirHueco_tableMaxSize]
    exact hueco_lt hh
  · rw [unirHueco_disponibles (hueco_lt hh)]
    obtain ⟨-, -, hn, hch⟩ := hueco_libre (by rw [hu.chunk]; exact hc) hh
    rw [hu.chunk] at hch
    unfold ocupa
    split
    · exact hch
    · exact hn

/-- While slot `q` is being created its free bytes wait to be cleared. -/
def Creando (c q j : Nat) (s : Particion) : Prop :=
  if j = q then s.ocupado = true ∧ 0 ≤ s.bytesInutilizados ∧ s.bytesInutilizados < c
  else Largo c s

/-- What is asked of the slot being created. -/
theorem creando_propia {q : Nat} {s : Particion} : Creando c q q s ↔
    s.ocupado = true ∧ 0 ≤ s.bytesInutilizados ∧ s.bytesInutilizados < c := by
  rw [Creando, if_pos rfl]

/-- What is asked of the others. -/
theorem creando_otra {q j : Nat} {s : Particion} (hj : j ≠ q) : Creando c q j s ↔ Largo c s := by
  rw [Creando, if_neg hj]

/-- The shift that makes room for the rest keeps it. -/
theorem desplazarAbajo_creando {q : Nat} {d : Int} (h : EnCada (Creando c q) t.elements)
    (hd : (c : Int) ≤ d) : EnCada (Creando c q) (desplazarAbajo t (q + 1) d).elements := by
  have hbajan := h.iterar (n := t.tableMaxSize - 1 - (q + 1)) (f := fun i es =>
      es.modify (t.tableMaxSize - 1 - i)
        (copiarTodo (es.getD (t.tableMaxSize - 1 - i - 1) Particion.vacia))) fun i es hi hes =>
    hes.modify fun s _ _ => (creando_otra (by omega)).mpr
      ((creando_otra (by omega)).mp (hes.getD ((creando_otra (by omega)).mpr largo_vacia)))
  refine hbajan.modify fun s _ _ => (creando_otra (by omega)).mpr ?_
  exact largo_libre rfl rfl (Or.inr hd)

/-- The leftover of a creation makes a chunk and goes to a free slot, or stays
    with the item. -/
theorem repartirSobra_creando {fuera : Nat → Particion} {q n : Nat}
    (h : EnCada (Creando c q) t.elements)
    (hd : (ocupa c n : Int) ≤ (t.leer fuera q).bytesDisponibles) :
    EnCada (Creando c q) (repartirSobra fuera t q n c).elements := by
  have hqueda : ∀ es, EnCada (Creando c q) es →
      ¬ (c : Int) ≤ (t.leer fuera q).bytesDisponibles - ocupa c n →
      EnCada (Creando c q) (es.modify q fun s =>
        { s with bytesInutilizados := (t.leer fuera q).bytesDisponibles - ocupa c n }) := by
    intro es hes hlt
    refine hes.modify fun s _ hs => creando_propia.mpr ⟨(creando_propia.mp hs).1, ?_, ?_⟩
    · exact Int.sub_nonneg.mpr hd
    · exact Int.not_le.mp hlt
  unfold repartirSobra
  dsimp only
  split
  · split
    · rename_i hch
      exact desplazarAbajo_creando h hch
    · rename_i hch
      exact hqueda _ h hch
  · rename_i ho
    -- the next slot is free or past the table, and moving it changes no length
    have hmovida : EnCada (fun j s => Creando c q j s ∧ (j = q + 1 → s.ocupado = false))
        (t.elements.modify (q + 1) fun s => { s with item := { s.item with
          data := (t.leer fuera q).item.data + ocupa c n } }) := by
      refine EnCada.modify (fun j s hs => ⟨h j s hs, ?_⟩) fun s _ hs => ⟨?_, hs.2⟩
      · rintro rfl
        rw [Bool.not_eq_true] at ho
        rwa [TableInfo.leer, List.getD_eq_getElem?_getD, hs] at ho
      · rw [creando_otra (by omega)] at hs ⊢
        exact hs.1.mismo ⟨rfl, rfl, rfl⟩
    split
    · rename_i hch
      refine (hmovida.modify (q := q + 1) (f := fun s => { s with bytesDisponibles :=
        s.bytesDisponibles + ((t.leer fuera q).bytesDisponibles - ocupa c n) })
        fun s _ hs => ⟨?_, hs.2⟩).mono fun j s hs => hs.1
      have hl := (creando_otra (by omega)).mp hs.1
      obtain ⟨hi, hdis⟩ := hl.libre (hs.2 rfl)
      refine (creando_otra (by omega)).mpr (largo_libre (hs.2 rfl) hi (Or.inr ?_))
      show (c : Int) ≤ s.bytesDisponibles + ((t.leer fuera q).bytesDisponibles - ocupa c n)
      omega
    · rename_i hch
      exact hqueda _ (hmovida.mono fun j s hs => hs.1) hch

/-- **CREATION** in a slot that holds what the item takes. -/
theorem Disciplina.crear {key : Clave} {q n : Nat} (hesq : cfg.esquema = .particionesDinamicas)
    (hc : 0 < cfg.chunkSize) (h : Disciplina cfg t) (hq : q < t.tableMaxSize)
    (hd : (ocupa cfg.chunkSize n : Int) ≤ (t.leer e.fuera q).bytesDisponibles) :
    Disciplina cfg (crear cfg e t key q n) := by
  have hcrear : Rc.crear cfg e t key q n
      = micacheCreateElement e.fuera e.relojGet t key q n cfg.chunkSize := by
    rw [Rc.crear, hesq]
  rw [hcrear]
  refine ⟨(micacheCreateElement_resto t e.fuera e.relojGet key q n cfg.chunkSize).2.trans h.chunk,
    ?_⟩
  have halta : EnCada (Creando cfg.chunkSize q) (t.elements.modify q fun s =>
      { s with item := { s.item with key := key, ndata := n }, ocupado := true }) :=
    (enCada_iff.mpr h.largos).cambia (fun j s hj hs => (creando_otra hj).mpr hs)
      fun s _ hs => creando_propia.mpr ⟨rfl, hs.inutiles hc⟩
  have husada : EnCada (Creando cfg.chunkSize q) (lruGet e.relojGet (t.modificar q fun s =>
      { s with item := { s.item with key := key, ndata := n }, ocupado := true }) q).elements :=
    halta.modify fun s _ hs => by
      rw [creando_propia] at hs ⊢
      exact hs
  have hleer : ((lruGet e.relojGet (t.modificar q fun s =>
      { s with item := { s.item with key := key, ndata := n }, ocupado := true }) q).leer
        e.fuera q).bytesDisponibles = (t.leer e.fuera q).bytesDisponibles := by
    refine (disponibles_modificar ?_ ?_).trans (disponibles_modificar ?_ hq)
    · intro _; rfl
    · simpa [TableInfo.tableMaxSize, TableInfo.modificar] using hq
    · intro _; rfl
  rw [← enCada_iff]
  unfold micacheCreateElement
  dsimp only
  refine EnCada.cambia (P := Creando cfg.chunkSize q) ?_ (fun j s hj hs => (creando_otra hj).mp hs)
    fun s _ hs => ?_
  · split
    · exact repartirSobra_creando husada (by rw [hleer]; exact hd)
    · exact husada
  · obtain ⟨ho, hi⟩ := creando_propia.mp hs
    exact largo_ocupada ho rfl hi

/-! ## Whole runs -/

/-- A release keeps the discipline. -/
theorem Disciplina.itemRelease {q : Nat} (h : Disciplina cfg t) (hc : 0 < cfg.chunkSize)
    (hr : itemRelease t q = some t') : Disciplina cfg t' := by
  rcases itemRelease_casos hr with ⟨-, rfl⟩ | ⟨-, hrem⟩
  · exact h
  · exact h.micacheRemove hc hrem

/-- So does a SET of any key and value. -/
theorem Disciplina.opSet {key : Clave} {valor : List UInt8} {r : Respuesta}
    (hesq : cfg.esquema = .particionesDinamicas) (hc : 0 < cfg.chunkSize) (h : Disciplina cfg t)
    (hr : opSet cfg e t key valor = some (t', r)) : Disciplina cfg t' := by
  unfold Rc.opSet at hr
  split at hr
  · obtain ⟨rfl, -⟩ := Prod.mk.inj (Option.some.inj hr)
    exact h
  · obtain ⟨⟨t₁, q⟩, h1, hr⟩ := Option.bind_eq_some_iff.mp hr
    obtain ⟨t₂, h2, heq⟩ := Option.map_eq_some_iff.mp hr
    obtain ⟨rfl, -⟩ := Prod.mk.inj heq
    obtain ⟨h₁, hq, hd⟩ := h.colocar hesq hc h1
    have hcreada : Disciplina cfg (Rc.crear cfg e t₁ key q valor.length) :=
      h₁.crear hesq hc hq hd
    have hcopiada : Disciplina cfg
        (copiarValor (Rc.crear cfg e t₁ key q valor.length) q valor) :=
      ⟨hcreada.chunk, hcreada.largos⟩
    exact (hcopiada.toca (f := marcar true) (fun _ => ⟨rfl, rfl, rfl⟩) q).itemRelease hc h2

/-- **ONE OPERATION** keeps the discipline. -/
theorem Disciplina.ejecutar {op : Op} {r : Respuesta}
    (hesq : cfg.esquema = .particionesDinamicas) (hc : 0 < cfg.chunkSize) (h : Disciplina cfg t)
    (hr : ejecutar cfg op e t = some (t', r)) : Disciplina cfg t' := by
  cases op with
  | set key valor => exact h.opSet hesq hc hr
  | get key =>
      rcases opGet_casos hr with ⟨rfl, -⟩ | ⟨A, s, B, -, -, -, -, -, ⟨-, rfl⟩ | ⟨-, rfl⟩⟩
      · exact h
      · exact h
      · exact h.toca (f := usar e.relojGet) (fun _ => ⟨rfl, rfl, rfl⟩) _
  | delete key =>
      obtain ⟨⟨t₁, b⟩, h1, heq⟩ := Option.map_eq_some_iff.mp hr
      obtain ⟨rfl, -⟩ := Prod.mk.inj heq
      rcases deleteOne_casos h1 with ⟨rfl, -⟩ | ⟨A, s, B, -, -, -, hrem⟩
      · exact h
      · exact (h.toca (f := marcar false) (fun _ => ⟨rfl, rfl, rfl⟩) _).micacheRemove hc hrem
  | flushAll =>
      obtain ⟨rfl, -⟩ := Prod.mk.inj (Option.some.inj hr)
      exact h.micacheClean hc

/-- A new cache keeps it. -/
theorem cacheInitialize_disciplina (hmax : cfg.chunkSize ≤ cfg.blockSizeMax) :
    Disciplina cfg (cacheInitialize cfg) := by
  refine ⟨rfl, ?_⟩
  have hceros : EnCada (fun _ s => s = Particion.vacia)
      (List.replicate (cfg.blockSizeMax / cfg.chunkSize) Particion.vacia) :=
    enCada_iff.mpr fun s hs => (List.mem_replicate.mp hs).2
  rw [← enCada_iff]
  refine hceros.cambia (fun j s _ hs => ?_) fun s _ hs => ?_
  · rw [hs]
    exact largo_vacia
  · rw [hs]
    exact largo_libre rfl rfl (Or.inr (Int.ofNat_le.mpr hmax))

end Rutinas

/-! ## In the range of an `int` -/

/-- The bytes of a slot: those of its item, or the free ones, and the unusable
    ones. -/
def Particion.bytes (c : Nat) (s : Particion) : Int :=
  (if s.ocupado then (ocupa c s.item.ndata : Int) else s.bytesDisponibles) + s.bytesInutilizados

/-- The bytes of the slots that are occupied, or of those that are not. -/
def TableInfo.bytesDe (t : TableInfo) (ocupado : Bool) : Int :=
  ((t.elements.filter fun s => s.ocupado == ocupado).map (·.bytes t.sizeChunk)).sum

/-- No sum of byte counts of the next section leaves the range of an `int`: the
    searches, the compactions and `micache_clean` add up bytes of the slots, a
    removal gives the bytes of its item to `espacio_libre`, `best_fit` adds one
    to it, and a creation takes free bytes from it. -/
structure EnInt (t : TableInfo) : Prop where
  bytes : t.bytesDe true + t.bytesDe false < 2 ^ 31
  espacio : t.espacioLibre + t.bytesDe true + 1 < 2 ^ 31
  deuda : -2 ^ 31 ≤ t.espacioLibre - t.bytesDe false

instance (t : TableInfo) : Decidable (EnInt t) :=
  decidable_of_iff (t.bytesDe true + t.bytesDe false < 2 ^ 31
      ∧ t.espacioLibre + t.bytesDe true + 1 < 2 ^ 31
      ∧ -2 ^ 31 ≤ t.espacioLibre - t.bytesDe false)
    ⟨fun ⟨h₁, h₂, h₃⟩ => ⟨h₁, h₂, h₃⟩, fun ⟨h₁, h₂, h₃⟩ => ⟨h₁, h₂, h₃⟩⟩

/-- The sections of an operation start in range: the first one, and the creation
    of a SET. -/
def CabeEnInt (cfg : Config) (x : Op × Entorno) (t : TableInfo) : Prop :=
  EnInt t ∧
    match x.1 with
    | .set key valor => valor.length ≤ cfg.blockSizeMax →
        ∀ r ∈ colocar cfg x.2 t key valor.length, EnInt r.1
    | _ => True

instance (cfg : Config) (x : Op × Entorno) (t : TableInfo) : Decidable (CabeEnInt cfg x t) := by
  obtain ⟨op, e⟩ := x
  cases op <;> unfold CabeEnInt <;> infer_instance

section Rango

variable {cfg : Config} {t t' : TableInfo} {c : Nat}

/-- A sum in the range of an int is computed as it is. -/
theorem enInt_eq {n : Int} (h0 : 0 ≤ n) (h : n < 2 ^ 31) : enInt n = n :=
  Int.bmod_eq_of_le (by omega) (by omega)

/-- A running sum of counts that are not negative wraps nowhere when the whole
    does not. -/
theorem sumaInt_eq (f : Particion → Int) : ∀ (l : List Particion) (acum : Int), 0 ≤ acum →
    (∀ s ∈ l, 0 ≤ f s) → acum + (l.map f).sum < 2 ^ 31 →
    l.foldl (fun acum s => enInt (acum + f s)) acum = acum + (l.map f).sum := by
  intro l
  induction l with
  | nil =>
      intro acum _ _ _
      exact (Int.add_zero acum).symm
  | cons s l ih =>
      intro acum hacum hf hlt
      have hs := hf s (by simp)
      have hl : ∀ u ∈ l, 0 ≤ f u := fun u hu => hf u (by simp [hu])
      have hsuma : 0 ≤ (l.map f).sum := List.sum_nonneg fun x hx => by
        obtain ⟨u, hu, rfl⟩ := List.mem_map.mp hx
        exact hl u hu
      rw [List.map_cons, List.sum_cons] at hlt ⊢
      rw [List.foldl_cons, enInt_eq (by omega) (by omega),
        ih (acum + f s) (by omega) hl (by omega), Int.add_assoc]

/-- `micache_clean` counts no more than the bytes of the slot. -/
theorem aporteClean_le_bytes {s : Particion} (h : Largo c s) (hc : 0 < c) :
    0 ≤ aporteClean c s ∧ aporteClean c s ≤ s.bytes c := by
  have hi := h.inutiles hc
  have hd := h.disponibles
  unfold aporteClean Particion.bytes ocupa
  split
  · split <;> split <;> omega
  · omega

/-- The bytes of all the slots are those of the occupied ones and of the others. -/
theorem suma_bytesDe (f : Particion → Int) (l : List Particion) :
    (l.map f).sum = ((l.filter fun s => s.ocupado == true).map f).sum
      + ((l.filter fun s => s.ocupado == false).map f).sum := by
  induction l with
  | nil => rfl
  | cons s l ih =>
      cases hs : s.ocupado <;> simp [hs, ih] <;> omega

/-- While the bytes fit, `micache_clean` is the one without bounds. -/
theorem micacheCleanInt_eq (h : Disciplina cfg t) (hc : 0 < cfg.chunkSize) (hcabe : EnInt t) :
    micacheCleanInt t = micacheClean t := by
  have haporte : ∀ s ∈ t.elements, 0 ≤ aporteClean t.sizeChunk s
      ∧ aporteClean t.sizeChunk s ≤ s.bytes t.sizeChunk := by
    intro s hs
    rw [h.chunk]
    exact aporteClean_le_bytes (h.largos s hs) hc
  have hle : (t.elements.map (aporteClean t.sizeChunk)).sum
      ≤ (t.elements.map (·.bytes t.sizeChunk)).sum :=
    List.sum_le_sum fun s hs => (haporte s hs).2
  have htotal : (t.elements.map (·.bytes t.sizeChunk)).sum = t.bytesDe true + t.bytesDe false :=
    suma_bytesDe _ t.elements
  have hbytes := hcabe.bytes
  have hsuma := sumaInt_eq (aporteClean t.sizeChunk) t.elements 0 (Int.le_refl 0)
    (fun s hs => (haporte s hs).1) (by omega)
  rw [Int.zero_add] at hsuma
  simp only [micacheCleanInt, micacheClean, hsuma]

/-- **ONE OPERATION** in range keeps the discipline. -/
theorem Disciplina.pasoInt {x : Op × Entorno} (hcfg : ConfigDin cfg) (h : Disciplina cfg t)
    (hcabe : CabeEnInt cfg x t) (hr : pasoInt cfg x t = some t') : Disciplina cfg t' := by
  obtain ⟨op, e⟩ := x
  have hsin : ejecutarInt cfg op e t = Rc.ejecutar cfg op e t := by
    cases op with
    | flushAll =>
        exact congrArg (fun t => some (t, Respuesta.success))
          (micacheCleanInt_eq h hcfg.chunk hcabe.1)
    | set key valor => rfl
    | get key => rfl
    | delete key => rfl
  obtain ⟨⟨t₁, r⟩, hej, rfl⟩ := Option.map_eq_some_iff.mp hr
  exact h.ejecutar hcfg.esquema hcfg.chunk (hsin ▸ hej)

end Rango

/-- Three items, the first two removed, and one that takes their bytes: the merge
    leaves the free slot at the end twice, and the flush counts it twice. -/
def vueltaDoble : List (Op × Entorno) :=
  [.set [1] [1, 1], .set [2] [2, 2], .set [3] [3, 3], .delete [1], .delete [2],
    .set [4] [4, 4, 4, 4], .flushAll].map fun op => (op, entornoDiez)

end Rc
