import Yanero.RcReglas
import Yanero.RcAsasProofs
import Yanero.RcClavesProofs

/-! # Buddies are aligned

    A block of the buddy scheme should start at a multiple of its length, so
    that two neighbours are merged only when they are the halves of one block.
    A merging pass finds the parity of a block from the bytes it has counted
    in `acum`.  After a merge with the slot above, the slot that moves up is
    passed over and its bytes are not counted: from then on `acum` is short.
    This file shows that nothing else can go wrong: while no pass merges with
    a short `acum`, every block stays aligned. -/

namespace Rc

open Bucles Teselado

/-- A block starts at a multiple of its length from the base of the data
    area. -/
def alineada (cfg : Config) (s : Particion) : Prop :=
  largoBuddy cfg.chunkSize s ∣ inicio s - cfg.ptrdata

/-- The buddy table with every live block aligned. -/
structure Alineada (cfg : Config) (t : TableInfo) : Prop where
  buddy : Buddy cfg True t
  bloques : ∀ s ∈ vista t, s.viva = true → alineada cfg s

/-! ## What a pass counts -/

/-- A merging pass before its turn at slot `i`. -/
def pasadaHasta (fuera : Nat → Particion) (t : TableInfo) (i : Nat) : Pasada :=
  iterar (unirTurno fuera) i ⟨t, 0, false⟩

/-- The turn at slot `i` merges it with the slot above and passes over a live
    slot. -/
def saltea (fuera : Nat → Particion) (i : Nat) (p : Pasada) : Prop :=
  une fuera i p = true
    ∧ (p.acum.tdiv (p.self.leer fuera i).bytesDisponibles).tmod 2 ≠ 0
    ∧ (p.self.elements.getD (i + 1) Particion.vacia).viva = true

instance (fuera : Nat → Particion) (i : Nat) (p : Pasada) : Decidable (saltea fuera i p) :=
  inferInstanceAs (Decidable (_ ∧ _ ∧ _))

/-- A pass merges nothing after a turn that has passed over a live slot. -/
def PasadaRecta (fuera : Nat → Particion) (t : TableInfo) : Prop :=
  ∀ j < t.tableMaxSize, ∀ i < j, saltea fuera i (pasadaHasta fuera t i) →
    une fuera j (pasadaHasta fuera t j) = false

instance (fuera : Nat → Particion) (t : TableInfo) : Decidable (PasadaRecta fuera t) :=
  inferInstanceAs (Decidable (∀ j < t.tableMaxSize, ∀ i < j,
    saltea fuera i (pasadaHasta fuera t i) → une fuera j (pasadaHasta fuera t j) = false))

/-- So do all the passes of `unirTodasLasHermanas`. -/
def UnionRecta (fuera : Nat → Particion) : Nat → TableInfo → Prop
  | 0, _ => True
  | vueltas + 1, t => PasadaRecta fuera t ∧ ((unirPasada fuera t).seUnieron = true →
      UnionRecta fuera vueltas (unirPasada fuera t).self)

instance decidableUnionRecta (fuera : Nat → Particion) :
    ∀ (vueltas : Nat) (t : TableInfo), Decidable (UnionRecta fuera vueltas t)
  | 0, _ => inferInstanceAs (Decidable True)
  | vueltas + 1, t =>
      have := decidableUnionRecta fuera vueltas (unirPasada fuera t).self
      inferInstanceAs (Decidable (_ ∧ (_ → _)))

section Pasadas

variable {cfg : Config} {t t' : TableInfo} {fuera : Nat → Particion}

/-- The tiling need only be looked at slot by slot. -/
theorem Alineada.de_inv {L D : List Particion} (h : BuddyInv cfg True t L D)
    (hL : ∀ s ∈ L, alineada cfg s) : Alineada cfg t := by
  refine ⟨⟨L, D, h⟩, fun s hs hv => ?_⟩
  rw [h.tabla] at hs
  rcases List.mem_append.mp hs with hs | hs
  · exact hL s hs
  · rw [muerta_not_viva (h.muertas s hs)] at hv
    cases hv

/-- And every slot of it is aligned. -/
theorem Alineada.bloque {L D : List Particion} (hc : 0 < cfg.chunkSize) (h : Alineada cfg t)
    (hinv : BuddyInv cfg True t L D) : ∀ s ∈ L, alineada cfg s :=
  fun s hs => h.bloques s (by rw [hinv.tabla]; simp [hs]) ((hinv.bien s hs).viva hc)

/-- A block starts where the blocks before it end. -/
theorem BuddyInv.inicio_eq {A B D : List Particion} {s : Particion}
    (h : BuddyInv cfg True t (A ++ s :: B) D) :
    inicio s = cfg.ptrdata + (A.map (largoBuddy cfg.chunkSize)).sum := by
  obtain ⟨x, hA, hs⟩ := cabe_append.mp h.cabe
  have hsum := h.suma trivial
  have h1 := cabe_suma hA
  have h2 := cabe_suma hs.2
  have h3 := hs.1
  simp only [List.map_append, List.map_cons, List.sum_append, List.sum_cons] at hsum
  omega

/-- The bytes before a slot are the lengths of the part before it. -/
theorem acumHasta_vista {A R : List Particion} (hv : vista t = A ++ R) :
    acumHasta t A.length = (A.map (largoBuddy t.sizeChunk)).sum := by
  obtain ⟨A₀, R₀, hes, rfl, -⟩ := List.map_eq_append_iff.mp hv
  rw [acumHasta, hes, List.length_map, List.take_left, List.map_map]
  congr 1
  refine List.map_congr_left fun s _ => ?_
  exact (largoBuddy_limpia _ s).symm

/-- A block at an even multiple of its length starts a block of twice it. -/
theorem alinea_par {n a : Int} (hn : n ≠ 0) (h : n ∣ a) (hpar : (a.tdiv n).tmod 2 = 0) :
    n + n ∣ a := by
  obtain ⟨q, rfl⟩ := h
  rw [Int.mul_tdiv_cancel_left q hn] at hpar
  obtain ⟨r, rfl⟩ := Int.dvd_of_tmod_eq_zero hpar
  exact ⟨r, by ring⟩

/-- A block at an odd multiple of its length ends a block of twice it. -/
theorem alinea_impar {n a : Int} (hn : n ≠ 0) (h : n ∣ a) (hpar : (a.tdiv n).tmod 2 ≠ 0) :
    n + n ∣ a - n := by
  obtain ⟨q, rfl⟩ := h
  rw [Int.mul_tdiv_cancel_left q hn] at hpar
  obtain ⟨r, hr⟩ : ∃ r, q = 2 * r + 1 := by
    rcases Int.even_or_odd' q with ⟨r, hr | hr⟩
    · rw [hr, Int.mul_tmod_right] at hpar
      exact absurd rfl hpar
    · exact ⟨r, hr⟩
  exact ⟨r, by rw [hr]; ring⟩

section Fusiones

variable {p p' : Pasada} {A₀ R₀ : List Particion} {u w : Particion}

/-- The upper of two merged slots starts after the bytes before it, at a
    multiple of its length. -/
theorem Fusion.inicio (hf : Fusion p p' A₀ u w R₀) (hc : 0 < cfg.chunkSize)
    (h : Alineada cfg p.self) :
    acumHasta p.self A₀.length = u.item.data - cfg.ptrdata
      ∧ u.bytesDisponibles ∣ acumHasta p.self A₀.length := by
  obtain ⟨L, D, hinv⟩ := h.buddy
  obtain ⟨B, rfl, -⟩ := hf.parte hinv
  have hv : vista p.self = A₀.map limpia ++ (limpia u :: limpia w :: (B ++ D)) := by
    rw [hinv.tabla]; simp
  have hini := hinv.inicio_eq
  have hsum := acumHasta_vista hv
  have hdvd := h.bloque hc hinv (limpia u) (by simp)
  rw [List.length_map, hinv.chunk] at hsum
  rw [alineada, largoBuddy_limpia, largoBuddy_of_libre hf.arriba] at hdvd
  simp only [Rc.inicio, limpia_data] at hini hdvd
  have heq : acumHasta p.self A₀.length = u.item.data - cfg.ptrdata := by omega
  exact ⟨heq, by rw [heq]; exact hdvd⟩

/-- A merge at a multiple of both lengths keeps the blocks aligned. -/
theorem Fusion.alineada (hf : Fusion p p' A₀ u w R₀) (hc : 0 < cfg.chunkSize)
    (h : Alineada cfg p.self)
    (hdos : u.bytesDisponibles + u.bytesDisponibles ∣ acumHasta p.self A₀.length) :
    Alineada cfg p'.self := by
  have hini := (hf.inicio hc h).1
  obtain ⟨L, D, hinv⟩ := h.buddy
  obtain ⟨B, rfl, -⟩ := hf.parte hinv
  obtain ⟨z, -, hinv', -⟩ := hf.buddy hinv
  have hal := h.bloque hc hinv
  refine Alineada.de_inv hinv' fun s hs => ?_
  rcases List.mem_append.mp hs with hs | hs
  · exact hal s (by simp [hs])
  · rcases List.mem_cons.mp hs with rfl | hs
    · rw [Rc.alineada, largoBuddy_libre, inicio_libre, ← hini]
      exact hdos
    · exact hal s (by simp [hs])

/-- The bytes up to the merged block and to the slot after it, which is dead
    or was the one after the two. -/
theorem Fusion.acum (hf : Fusion p p' A₀ u w R₀) (hc : 0 < cfg.chunkSize)
    (h : Buddy cfg True p.self) :
    acumHasta p'.self (A₀.length + 1)
        = acumHasta p.self A₀.length + (u.bytesDisponibles + u.bytesDisponibles)
      ∧ ((R₀.getD 0 Particion.vacia).viva = false →
        acumHasta p'.self (A₀.length + 2) = acumHasta p'.self (A₀.length + 1)) := by
  obtain ⟨L, D, hinv⟩ := h
  obtain ⟨B, rfl, hR⟩ := hf.parte hinv
  obtain ⟨z, hz, hinv', -⟩ := hf.buddy hinv
  have hv : vista p.self = A₀.map limpia ++ (limpia u :: limpia w :: (B ++ D)) := by
    rw [hinv.tabla]; simp
  have hv' : vista p'.self = (A₀.map limpia
      ++ [libre u.item.data (u.bytesDisponibles + u.bytesDisponibles)]) ++ (B ++ (D ++ [z])) := by
    rw [hinv'.tabla]; simp
  have hsum := acumHasta_vista hv
  have hsum' := acumHasta_vista hv'
  rw [List.length_map, hinv.chunk] at hsum
  rw [List.length_append, List.length_map, List.length_singleton, hinv'.chunk] at hsum'
  refine ⟨by rw [hsum', hsum]; simp, fun hno => ?_⟩
  have hB : B = [] := by
    cases B with
    | nil => rfl
    | cons b B =>
        obtain ⟨b₀, R₁, rfl, hb₀, -⟩ := List.map_eq_cons_iff.mp hR
        rw [show (b₀ :: R₁).getD 0 Particion.vacia = b₀ from rfl, ← limpia_viva, hb₀,
          (hinv.bien b (by simp)).viva hc] at hno
        cases hno
  -- a dead slot follows the merged block, `z` at the latest
  obtain ⟨d, R, hd, hdR⟩ : ∃ d R, muerta d ∧ D ++ [z] = d :: R := by
    cases D with
    | nil => exact ⟨z, [], hz, rfl⟩
    | cons d D => exact ⟨d, D ++ [z], hinv.muertas d (by simp), rfl⟩
  have hv'' : vista p'.self = (A₀.map limpia
      ++ [libre u.item.data (u.bytesDisponibles + u.bytesDisponibles), d]) ++ R := by
    rw [hv', hB, hdR]; simp
  have hsum'' := acumHasta_vista hv''
  have hlen : (A₀.map limpia
      ++ [libre u.item.data (u.bytesDisponibles + u.bytesDisponibles), d]).length
        = A₀.length + 2 := by simp
  rw [hlen, hinv'.chunk] at hsum''
  rw [hsum'', hsum']
  simp [largoBuddy_of_libre hd.1, hd.2.1]

end Fusiones

/-- The slot after a part. -/
theorem leer_disponibles (fuera : Nat → Particion) {A R : List Particion} {s : Particion}
    (hv : vista t = A ++ s :: R) :
    (t.leer fuera A.length).bytesDisponibles = s.bytesDisponibles := by
  obtain ⟨A₀, s₀, R₀, hes, rfl, rfl, -⟩ := vista_parte hv
  rw [List.length_map, leer_mitad fuera hes, limpia_disponibles]

/-- **ONE TURN** that merges only when `acum` is right keeps the blocks
    aligned; `acum` stays right unless a live slot is passed over. -/
theorem unirTurno_alineada (fuera : Nat → Particion) {p : Pasada} {i : Nat} (hc : 0 < cfg.chunkSize)
    (h : Alineada cfg p.self) (hi : i < p.self.tableMaxSize) (h0 : i = 0 → p.acum = 0)
    (hune : une fuera i p = true → p.acum = acumHasta p.self i) :
    Alineada cfg (unirTurno fuera i p).self ∧ (p.acum = acumHasta p.self i →
      (unirTurno fuera i p).acum = acumHasta (unirTurno fuera i p).self (i + 1)
        ∨ saltea fuera i p) := by
  rcases unirTurno_casos fuera hi h0 with ⟨hs, hac, -⟩ | ⟨A, u, w, R, hf, rfl, hu, hpar, hac⟩
    | ⟨A, u, w, R, hf, rfl, hu, hpar, hac⟩
  · rw [hs]
    refine ⟨h, fun hacum => Or.inl ?_⟩
    rw [hac, acumHasta_succ hi, hacum, leer_vacia hi]
  · -- with the slot below, at an even multiple
    have hdvd := (hf.inicio hc h).2
    rw [hune hu] at hpar
    refine ⟨hf.alineada hc h (alinea_par hf.hay hdvd hpar), fun _ => Or.inl ?_⟩
    obtain ⟨L, D, hinv⟩ := h.buddy
    obtain ⟨B, rfl, -⟩ := hf.parte hinv
    obtain ⟨z, -, hinv', -⟩ := hf.buddy hinv
    have hv : vista (unirHermana p.self A.length u) = A.map limpia
        ++ libre u.item.data (u.bytesDisponibles + u.bytesDisponibles) :: (B ++ (D ++ [z])) := by
      rw [← hf.self, hinv'.tabla]; simp
    have hleer := leer_disponibles fuera hv
    rw [List.length_map, libre_disponibles] at hleer
    rw [hac, hleer, (hf.acum hc h.buddy).1, hune hu]
  · -- with the slot above, at an odd multiple
    have hsig : acumHasta p.self (A.length + 1)
        = acumHasta p.self A.length + u.bytesDisponibles := by
      have hlt : A.length < p.self.elements.length := by rw [hf.tabla]; simp
      rw [acumHasta_succ hlt, hf.tabla, getD_mitad, largoBuddy_of_libre hf.arriba]
    have hdvd : u.bytesDisponibles ∣ acumHasta p.self (A.length + 1) := by
      rw [hsig]
      exact Int.dvd_add (hf.inicio hc h).2 (Int.dvd_refl _)
    rw [hune hu] at hpar
    have hdos := alinea_impar hf.hay hdvd hpar
    rw [hsig, Int.add_sub_cancel] at hdos
    refine ⟨hf.alineada hc h hdos, fun _ => ?_⟩
    obtain ⟨hsum, hsum'⟩ := hf.acum hc h.buddy
    cases hv : (R.getD 0 Particion.vacia).viva with
    | false =>
        left
        rw [hac, hsum' hv, hsum, hune hu, hsig]
        omega
    | true =>
        right
        have hes' : p.self.elements = (A ++ [u, w]) ++ R := by rw [hf.tabla]; simp
        have hl' : A.length + 1 + 1 = (A ++ [u, w]).length := by simp
        refine ⟨hu, ?_, ?_⟩
        · rw [leer_siguiente fuera hf.tabla, hf.igual, hune hu]
          exact hpar
        · rw [hes', hl', List.getD_eq_getElem?_getD, List.getElem?_append_right (Nat.le_refl _),
            Nat.sub_self, ← List.getD_eq_getElem?_getD]
          exact hv

/-- A pass that merges nothing with a short `acum`, turn by turn. -/
theorem pasadaHasta_alineada (hc : 0 < cfg.chunkSize) (h : Alineada cfg t)
    (hr : PasadaRecta fuera t) {n : Nat} (hn : n ≤ t.tableMaxSize) :
    Alineada cfg (pasadaHasta fuera t n).self ∧ (n = 0 → (pasadaHasta fuera t n).acum = 0)
      ∧ ((pasadaHasta fuera t n).acum = acumHasta (pasadaHasta fuera t n).self n
        ∨ ∃ j < n, saltea fuera j (pasadaHasta fuera t j)) := by
  have := iterar_invariante (f := unirTurno fuera) (n := n) (s := (⟨t, 0, false⟩ : Pasada))
    (fun i p => p = pasadaHasta fuera t i ∧ Alineada cfg p.self ∧ (i = 0 → p.acum = 0)
      ∧ (p.acum = acumHasta p.self i ∨ ∃ j < i, saltea fuera j (pasadaHasta fuera t j)))
    ⟨rfl, h, fun _ => rfl, Or.inl (by simp [acumHasta])⟩
    (by
      rintro i p hi ⟨hp, hal, h0, hacum⟩
      have hN := Buddy.tableMaxSize_eq h.buddy hal.buddy
      obtain ⟨hal', hacum'⟩ := unirTurno_alineada fuera hc hal (by omega) h0
        (fun hu => by
          rcases hacum with hacum | ⟨j, hj, hsal⟩
          · exact hacum
          · have := hr i (by omega) j hj hsal
            rw [← hp, hu] at this
            cases this)
      refine ⟨by rw [hp, pasadaHasta, pasadaHasta, iterar_succ], hal', by simp, ?_⟩
      rcases hacum with hacum | ⟨j, hj, hsal⟩
      · rcases hacum' hacum with hok | hsal
        · exact Or.inl hok
        · exact Or.inr ⟨i, by omega, by rw [← hp]; exact hsal⟩
      · exact Or.inr ⟨j, by omega, hsal⟩)
  exact this.2

/-- **ONE PASS** that merges nothing with a short `acum`. -/
theorem unirPasada_alineada (hc : 0 < cfg.chunkSize) (h : Alineada cfg t)
    (hr : PasadaRecta fuera t) : Alineada cfg (unirPasada fuera t).self :=
  (pasadaHasta_alineada hc h hr (Nat.le_refl _)).1

/-- **THE MERGES** keep the alignment, when no pass skips a block. -/
theorem unirTodasLasHermanas_alineada (hc : 0 < cfg.chunkSize) :
    ∀ (vueltas : Nat) {t t' : TableInfo}, Alineada cfg t → UnionRecta fuera vueltas t →
      unirTodasLasHermanas fuera vueltas t = some t' → Alineada cfg t' := by
  intro vueltas
  induction vueltas with
  | zero => intro t t' _ _ h; cases h
  | succ v ih =>
      intro t t' h hu hr
      have hp := unirPasada_alineada hc h hu.1
      simp only [unirTodasLasHermanas] at hr
      split at hr
      · rename_i hs
        exact ih hp (hu.2 hs) hr
      · rw [← Option.some.inj hr]
        exact hp

end Pasadas

/-! ## The other routines -/

section Rutinas

variable {cfg : Config} {t t' : TableInfo} {e : Entorno}

/-- A removal keeps the alignment. -/
theorem micacheRemove_alineada {key : Clave} (hp : 0 < cfg.ptrdata) (h : Alineada cfg t)
    (hr : micacheRemove t key = some t') : Alineada cfg t' := by
  refine ⟨micacheRemove_buddy hp h.buddy hr, ?_⟩
  obtain ⟨L, D, hinv⟩ := h.buddy
  obtain ⟨A, s, R, hv, hoc, -, -, hv', -⟩ := micacheRemove_vista hr
  rw [hv']
  intro u hu hviva
  rcases List.mem_append.mp hu with hu | hu
  · exact h.bloques u (by rw [hv]; simp [hu]) hviva
  · rcases List.mem_cons.mp hu with rfl | hu
    · have hs := h.bloques s (by rw [hv]; simp) (by simp [Particion.viva, hoc])
      rw [alineada, largoBuddy_of_ocupado hoc, ← hinv.chunk] at hs
      exact hs
    · exact h.bloques u (by rw [hv]; simp [hu]) hviva

/-- So does an eviction. -/
theorem reemplazar_alineada {ahora : Nat} (hp : 0 < cfg.ptrdata) (h : Alineada cfg t)
    (hr : reemplazar ahora t = some t') : Alineada cfg t' := by
  refine ⟨reemplazar_buddy hp h.buddy hr, ?_⟩
  obtain ⟨key, t₁, -, h1, rfl⟩ := reemplazar_remove hr
  exact (micacheRemove_alineada hp h h1).bloques

/-- Halving an aligned block leaves two aligned halves. -/
theorem mitades_alineadas {a : Nat} {F part : Int} (hF : F = 2 * part) (hpart : 0 ≤ part)
    (h : alineada cfg (libre a F)) :
    alineada cfg (libre a part) ∧ alineada cfg (libre (a + part.toNat) part) := by
  simp only [alineada, largoBuddy_libre, inicio_libre] at h ⊢
  have h1 : part ∣ (a : Int) - cfg.ptrdata :=
    Int.dvd_trans ⟨2, by rw [hF]; ring⟩ h
  refine ⟨h1, ?_⟩
  obtain ⟨q, hq⟩ := h1
  exact ⟨q + 1, by push_cast; rw [Int.toNat_of_nonneg hpart]; linarith⟩

/-- The search hands out an aligned block and leaves the others aligned. -/
theorem buscarHueco_alineada {n i : Nat} (hc : 0 < cfg.chunkSize) (hn : 0 < n)
    (h : Alineada cfg t) (hr : buscarHueco e t n = some (some (t', i))) :
    Alineada cfg (soltar i t') := by
  obtain ⟨hh, hp⟩ := buscarHueco_casos hr
  obtain ⟨A₀, s₀, R₀, hes, rfl, hs, -⟩ := findIdx?_parte hh
  simp only [Bool.and_eq_true, Bool.not_eq_true', decide_eq_true_eq] at hs
  obtain ⟨L, D, hinv⟩ := h.buddy
  obtain ⟨B, rfl, -⟩ := hinv.parte hes (fun hm => by have := hm.2.1; omega)
  have hlib : limpia s₀ = libre s₀.item.data s₀.bytesDisponibles := by
    refine limpia_of_libre hs.1 ?_
    rw [← limpia_inutilizados]
    exact (hinv.bien (limpia s₀) (by simp)).libre (by simpa using hs.1)
  have hal := h.bloque hc hinv
  have hsol := hinv.soltar (by simpa using hs.1)
  rw [List.length_map, hlib] at hsol
  rw [hlib] at hal
  have hget : t.elements.getD A₀.length Particion.vacia = s₀ := by
    rw [hes]; exact getD_mitad _ _ _ _
  rw [hget] at hp
  -- the block of slot `i` is the whole block, then its halves
  obtain ⟨-, ⟨A, a, F, B', D', hinv', -, hal', -⟩, -⟩ := partir_regla
    (P := fun part u => ∃ A a F B D, BuddyInv cfg True (soltar A₀.length u) (A ++ libre a F :: B) D
      ∧ A.length = A₀.length ∧ (∀ s ∈ A ++ libre a F :: B, alineada cfg s)
      ∧ (part = F.tdiv 2 ∨ part = -1))
    (by
      rintro u part ⟨A, a, F, B, D, hinv, hA, hal, hpart⟩ hle hcp
      have hcp' : (cfg.chunkSize : Int) ≤ part := by rw [← hinv.chunk]; exact hcp
      have hhalf : part = F.tdiv 2 := by
        rcases hpart with h | h
        · exact h
        · omega
      have hpot : ∃ j : Nat, F = cfg.chunkSize * 2 ^ j :=
        (hinv.bien (libre a F) (by simp)).potencia trivial
      obtain ⟨hF, -⟩ := mitad_potencia hc hpot (by rw [← hhalf]; exact hcp')
      rw [← hhalf] at hF
      obtain ⟨D', hinv'⟩ := desplazarUnoAbajo_buddy hc hinv hA hhalf hcp'
      obtain ⟨h1, h2⟩ := mitades_alineadas hF (by omega) (hal (libre a F) (by simp))
      refine ⟨A, a, part, libre (a + part.toNat) part :: B, D', hinv', hA, ?_, Or.inl rfl⟩
      intro s hs
      rcases List.mem_append.mp hs with hs | hs
      · exact hal s (by simp [hs])
      · rcases List.mem_cons.mp hs with rfl | hs
        · exact h1
        · rcases List.mem_cons.mp hs with rfl | hs
          · exact h2
          · exact hal s (by simp [hs]))
    (by
      rintro u part ⟨A, a, F, B, D, hinv, hA, hal, -⟩ -
      exact ⟨A, a, F, B, D, hinv, hA, hal, Or.inr rfl⟩)
    e.vueltas ⟨_, _, _, _, _, hsol, List.length_map _, hal, Or.inl rfl⟩ hp
  exact Alineada.de_inv hinv' hal'

/-- **PLACEMENT** keeps the blocks aligned when its merges do. -/
theorem buddysystem_alineada {n : Nat} (hp : 0 < cfg.ptrdata) (hc : 0 < cfg.chunkSize)
    (hn : 0 < n) {i : Nat} (h : Alineada cfg t)
    (hv : EnCadaVueltaBuddy e n (fun _ _ => True) (UnionRecta e.fuera e.vueltas)
      (fun _ _ => True) e.vueltas 0 t)
    (hr : buddysystem e n e.vueltas 0 t = some (t', i)) : Alineada cfg (soltar i t') := by
  refine buddysystem_regla (m := n)
    (P := fun v j u => Alineada cfg u ∧ EnCadaVueltaBuddy e n (fun _ _ => True)
      (UnionRecta e.fuera e.vueltas) (fun _ _ => True) v j u)
    (U := fun v j u => Alineada cfg u ∧ ∀ v', v = v' + 1 → huecoBuddy u n = none →
      if u.elementsAmount ≠ 0 then ∀ u' ∈ reemplazar (e.relojLru j) u,
          EnCadaVueltaBuddy e n (fun _ _ => True) (UnionRecta e.fuera e.vueltas) (fun _ _ => True)
            v' (j + 1) u'
        else EnCadaVueltaBuddy e n (fun _ _ => True) (UnionRecta e.fuera e.vueltas)
          (fun _ _ => True) v' (j + 1) u)
    (Q := fun u i => Alineada cfg (soltar i u)) ?_ ?_ ?_ ?_ ?_ _ _ ⟨h, hv⟩ hr
  · rintro v j u u' i ⟨hu, -⟩ hb
    exact buscarHueco_alineada hc hn hu hb
  · rintro v j u u' ⟨hu, hvu⟩ hb hun
    obtain ⟨hrec, hsig⟩ := hvu.2 (buscarHueco_none hb)
    refine ⟨unirTodasLasHermanas_alineada hc _ hu hrec hun, ?_⟩
    rintro v' heq hno
    obtain rfl : v = v' := by omega
    have := (hsig u' hun).2 hno
    split at this
    · rename_i he
      rw [if_pos he]
      exact this.2
    · rename_i he
      rw [if_neg he]
      exact this
  · rintro v j u u' i ⟨hu, -⟩ hb
    exact buscarHueco_alineada hc hn hu hb
  · rintro v j u u' ⟨hu, hvu⟩ hb he hq
    have := hvu v rfl (buscarHueco_none hb)
    rw [if_pos he] at this
    exact ⟨reemplazar_alineada hp hu hq, this u' hq⟩
  · rintro v j u ⟨hu, hvu⟩ hb he
    have := hvu v rfl (buscarHueco_none hb)
    rw [if_neg (by simpa using he)] at this
    exact ⟨hu, this⟩

/-- **SET on a placed slot**: the new item has the block that was placed. -/
theorem alta_alineada {t₀ : TableInfo} {ahora i : Nat} {key : Clave} {valor : List UInt8}
    {A B D : List Particion} {a : Nat} {F : Int}
    (h : Lugar cfg True t₀ t valor.length i A a F B D) (hal : Alineada cfg (soltar i t))
    (hc : 0 < cfg.chunkSize)
    (hr : itemRelease (storeInfo (copiarValor (buddyCreateElement ahora t key i valor.length)
      i valor) i) i = some t') : Alineada cfg t' := by
  refine ⟨(alta_buddy h hr).1, ?_⟩
  obtain ⟨A₀, x, R₀, hes, rfl, hA, hR, hxd, hxb, -⟩ := buddyCreateElement_buddy ahora key h
  have heq := buddyCreateElement_eq ahora key valor.length hes
  have hes₁ : (buddyCreateElement ahora t key A₀.length valor.length).elements
      = A₀ ++ creadaBuddy ahora key valor.length x :: R₀ := by rw [heq]
  have hv : vista t' = A ++ marcar true (creadaBuddy ahora key valor.length x) :: (B ++ D) := by
    rw [guardar_eq hes₁ hr]
    simp [vista, hA, hR, limpia, marcar, creadaBuddy]
  have hbl := hal.bloque hc h.inv
  have hmin : (cfg.chunkSize : Int) ≤ F := (h.inv.bien (libre a F) (by simp)).chunk_le
  obtain ⟨-, -, -, hjusto⟩ := largoBuddy_creada (c := cfg.chunkSize) ahora key hxb hmin h.cabe
  rw [hv]
  intro s hs hviva
  rcases List.mem_append.mp hs with hs | hs
  · exact hbl s (by simp [hs])
  · rcases List.mem_cons.mp hs with rfl | hs
    · have hF := hbl (libre a F) (by simp)
      rw [alineada, show largoBuddy cfg.chunkSize
        (marcar true (creadaBuddy ahora key valor.length x)) = F from hjusto (h.justo trivial),
        show inicio (marcar true (creadaBuddy ahora key valor.length x)) = a by
          simp [inicio, marcar, creadaBuddy, hxd]]
      exact hF
    · rcases List.mem_append.mp hs with hs | hs
      · exact hbl s (by simp [hs])
      · rw [muerta_not_viva (h.inv.muertas s hs)] at hviva
        cases hviva

end Rutinas

/-! ## Whole runs -/

/-- The merges a SET makes go no further than `acum` is right. -/
def SinSaltear (cfg : Config) (op : Op) (e : Entorno) (t : TableInfo) : Prop :=
  match op with
  | .set key valor => valor.length ≤ cfg.blockSizeMax → ∀ t₁ ∈ quitarPrevio t key,
      EnCadaVueltaBuddy e valor.length (fun _ _ => True) (UnionRecta e.fuera e.vueltas)
        (fun _ _ => True) e.vueltas 0 t₁
  | .get _ => True
  | .delete _ => True
  | .flushAll => True

instance (cfg : Config) (op : Op) (e : Entorno) (t : TableInfo) :
    Decidable (SinSaltear cfg op e t) :=
  match op with
  | .set _ _ => inferInstanceAs (Decidable (_ → _))
  | .get _ => inferInstanceAs (Decidable True)
  | .delete _ => inferInstanceAs (Decidable True)
  | .flushAll => inferInstanceAs (Decidable True)

/-- A SET has at least one byte. -/
def ConBytes : Op → Prop
  | .set _ valor => 0 < valor.length
  | .get _ => True
  | .delete _ => True
  | .flushAll => True

instance : DecidablePred ConBytes
  | .set _ valor => inferInstanceAs (Decidable (0 < valor.length))
  | .get _ => inferInstanceAs (Decidable True)
  | .delete _ => inferInstanceAs (Decidable True)
  | .flushAll => inferInstanceAs (Decidable True)

section Corridas

variable {cfg : Config} {k : Nat} {t t' : TableInfo} {e : Entorno}

/-- A change that keeps the form keeps it too. -/
theorem Alineada.retoque {A B : List Particion} {s : Particion} {f : Particion → Particion}
    (h : Alineada cfg t) (hes : t.elements = A ++ s :: B) (hoc : s.ocupado = true)
    (hf : MismaForma s (f s)) : Alineada cfg (t.modificar A.length f) := by
  refine ⟨h.buddy.retoque hes hoc hf, ?_⟩
  have hv : vista t = A.map limpia ++ s :: B.map limpia := by
    simp [vista, hes, limpia_of_ocupado hoc]
  rw [vista_modificar hes f, limpia_of_ocupado (hf.ocupado.trans hoc)]
  intro u hu hviva
  rcases List.mem_append.mp hu with hu | hu
  · exact h.bloques u (by rw [hv]; exact List.mem_append_left _ hu) hviva
  · rcases List.mem_cons.mp hu with rfl | hu
    · have hs := h.bloques s (by rw [hv]; simp) (by simp [Particion.viva, hoc])
      rw [alineada] at hs ⊢
      rw [show largoBuddy cfg.chunkSize (f s) = largoBuddy cfg.chunkSize s by
        simp [largoBuddy, largoOcupada, hf.ocupado, hf.ndata, hf.inutilizados, hf.disponibles],
        show inicio (f s) = inicio s by simp [inicio, hf.data]]
      exact hs
    · exact h.bloques u (by rw [hv]; simp [hu]) hviva

/-- A flush leaves one block, at the beginning. -/
theorem micacheClean_alineada (hcfg : ConfigBuddy cfg k) (h : Alineada cfg t) :
    Alineada cfg (micacheClean t) := by
  refine ⟨micacheClean_buddy (fun _ => ⟨k, hcfg.tam⟩) h.buddy, ?_⟩
  obtain ⟨L, D, hinv⟩ := h.buddy
  obtain ⟨s, B, rfl⟩ := List.exists_cons_of_ne_nil hinv.hay
  have hv : vista t = s :: (B ++ D) := hinv.tabla
  obtain ⟨D', hD', hv', -⟩ := micacheClean_vista hv
  have hini : inicio s = cfg.ptrdata + _ := BuddyInv.inicio_eq (A := []) hinv
  rw [hv']
  intro u hu hviva
  rcases List.mem_cons.mp hu with rfl | hu
  · rw [alineada, inicio_libre]
    simp only [inicio, List.map_nil, List.sum_nil, add_zero] at hini
    rw [hini, sub_self]
    exact Int.dvd_zero _
  · rw [muerta_not_viva (hD' u hu)] at hviva
    cases hviva

/-- A SET keeps the alignment. -/
theorem opSet_alineada {key : Clave} {valor : List UInt8} {r : Respuesta}
    (hcfg : ConfigBuddy cfg k) (hv : 0 < valor.length) (h : Alineada cfg t)
    (hC : SinSaltear cfg (.set key valor) e t)
    (hr : opSet cfg e t key valor = some (t', r)) : Alineada cfg t' := by
  unfold opSet at hr
  split at hr
  · obtain ⟨rfl, -⟩ := Prod.mk.inj (Option.some.inj hr)
    exact h
  · rename_i hmax
    obtain ⟨⟨t₂, pos⟩, h1, hr⟩ := Option.bind_eq_some_iff.mp hr
    obtain ⟨t₃, h2, heq⟩ := Option.map_eq_some_iff.mp hr
    obtain ⟨rfl, -⟩ := Prod.mk.inj heq
    unfold colocar at h1
    obtain ⟨t₁, hprev, hbs⟩ := Option.bind_eq_some_iff.mp h1
    simp only [hcfg.esquema] at hbs
    simp only [crear, hcfg.esquema] at h2
    have h₁ : Alineada cfg t₁ := by
      rcases quitarPrevio_casos hprev with ⟨rfl, -⟩ | hrem
      · exact h
      · exact micacheRemove_alineada hcfg.area h hrem
    obtain ⟨A, a, F, B, D, hl⟩ :=
      buddysystem_buddy hcfg.area hcfg.chunk hv e.vueltas 0 h₁.buddy hbs
    exact alta_alineada hl (buddysystem_alineada hcfg.area hcfg.chunk hv h₁
      (hC (by omega) t₁ hprev) hbs) hcfg.chunk h2

/-- So does every operation. -/
theorem ejecutar_alineada {op : Op} {r : Respuesta} (hcfg : ConfigBuddy cfg k)
    (hop : ConBytes op) (hC : SinSaltear cfg op e t) (h : Alineada cfg t)
    (hr : ejecutar cfg op e t = some (t', r)) : Alineada cfg t' := by
  cases op with
  | set key valor => exact opSet_alineada hcfg hop h hC hr
  | get key =>
      rcases opGet_casos hr with ⟨rfl, -⟩ | ⟨A, s, B, hes, hoc, -, -, -, ⟨-, rfl⟩ | ⟨-, rfl⟩⟩
      · exact h
      · exact h
      · exact h.retoque hes hoc (mismaForma_usar _ s)
  | delete key =>
      obtain ⟨⟨t₁, b⟩, h1, heq⟩ := Option.map_eq_some_iff.mp hr
      obtain ⟨rfl, -⟩ := Prod.mk.inj heq
      rcases deleteOne_casos h1 with ⟨rfl, -⟩ | ⟨A, s, B, hes, hoc, -, hrem⟩
      · exact h
      · exact micacheRemove_alineada hcfg.area (h.retoque hes hoc (mismaForma_marcar _ s)) hrem
  | flushAll =>
      obtain ⟨rfl, -⟩ := Prod.mk.inj (Option.some.inj hr)
      exact micacheClean_alineada hcfg h

/-- A new cache is one block. -/
theorem cacheInitialize_alineada (hcfg : ConfigBuddy cfg k) :
    Alineada cfg (cacheInitialize cfg) := by
  refine ⟨cacheInitialize_buddy hcfg.chunk hcfg.entra fun _ => ⟨k, hcfg.tam⟩, ?_⟩
  intro s hs hviva
  obtain ⟨s₀, hs₀, rfl⟩ := List.mem_map.mp hs
  obtain ⟨i, hi, rfl⟩ := List.mem_iff_getElem.mp hs₀
  rw [limpia_viva] at hviva
  simp only [cacheInitialize, List.getElem_modify, List.getElem_replicate] at hviva ⊢
  split at hviva
  · rename_i h0
    rw [if_pos h0, alineada]
    simp [inicio]
  · cases hviva

end Corridas

/-- **BUDDIES ARE ALIGNED** after every run with keys that fit their cells in
    which no merging pass merges once it has passed over a live slot: each live
    block starts at a multiple of its length from the base of the data area. -/
theorem alineacion {cfg : Config} {k : Nat} {ops : List (Op × Entorno)} {claves : Nat → UInt8}
    {p : Plana} (hcfg : ConfigBuddy cfg k) (hcortas : ∀ x ∈ ops, SetCorta x.1 ∧ AntesCorta x.2)
    (hops : Cumple cfg (fun op e t => ConBytes op ∧ SinSaltear cfg op e t) ops
      (cacheInitialize cfg))
    (hr : correrPlano cfg ops (planaInicial cfg claves) = some p) :
    ∀ s ∈ p.tabla.elements, s.viva = true →
      largoBuddy cfg.chunkSize s ∣ (s.item.data : Int) - cfg.ptrdata := by
  have hr' : correr cfg ops (cacheInitialize cfg) = some p.tabla := by
    rw [← correrPlano_refina claves hcortas, hr, Option.map_some]
  have hal : Alineada cfg p.tabla := correr_regla (P := fun _ t => Alineada cfg t)
    (fun hop h hr => ejecutar_alineada hcfg hop.1 hop.2 h hr) ops []
    (cacheInitialize_alineada hcfg) hops hr'
  intro s hs hviva
  have := hal.bloques (limpia s) (List.mem_map_of_mem hs) (by rw [limpia_viva]; exact hviva)
  rw [alineada, largoBuddy_limpia] at this
  simpa [inicio] using this

/-- Eight chunks of one byte. -/
def cacheOcho : Config :=
  { esquema := .buddySystem, algBusqueda := .firstFit, algReemplazo := .lru
    frecuenciaCompactacion := 0, blockSizeMax := 8, chunkSize := 1, ptrdata := 100 }

theorem cacheOcho_config : ConfigBuddy cacheOcho 3 := ⟨rfl, by decide, by decide, rfl⟩

/-- Two of three items go and their blocks are merged for a fourth. -/
def pedidosParejos : List (Op × Entorno) :=
  [(.set [1] [1], entornoDiez), (.set [2] [2], entornoDiez), (.set [3] [3, 3], entornoDiez),
   (.delete [1], entornoDiez), (.delete [2], entornoDiez), (.set [4] [4, 4, 4, 4], entornoDiez),
   (.delete [3], entornoDiez), (.set [5] [5, 5, 5, 5], entornoDiez)]

/-- A run with splits and merges that is aligned. -/
theorem alineacion_parejos : ∃ p,
    correrPlano cacheOcho pedidosParejos (planaInicial cacheOcho fun _ => 0) = some p
      ∧ ∀ s ∈ p.tabla.elements, s.viva = true →
        largoBuddy cacheOcho.chunkSize s ∣ (s.item.data : Int) - cacheOcho.ptrdata := by
  have hcortas : ∀ x ∈ pedidosParejos, SetCorta x.1 ∧ AntesCorta x.2 := by
    simp [pedidosParejos, SetCorta, antesCorta_diez]
  have hsome : (correr cacheOcho pedidosParejos (cacheInitialize cacheOcho)).isSome = true := by
    decide
  obtain ⟨p, hp, -⟩ := correrPlano_de (fun _ => 0) hcortas hsome
  exact ⟨p, hp, alineacion cacheOcho_config hcortas (by decide) hp⟩

/-- Blocks of 1, 1, 2, 1, 1, 1 and 1 bytes, of which the first three and the
    fifth and sixth are freed before a SET of four. -/
def pedidosTorcidos : List (Op × Entorno) :=
  [(.set [1] [1], entornoDiez), (.set [2] [2], entornoDiez), (.set [3] [3, 3], entornoDiez),
   (.set [4] [4], entornoDiez), (.set [5] [5], entornoDiez), (.set [6] [6], entornoDiez),
   (.set [7] [7], entornoDiez), (.delete [1], entornoDiez), (.delete [2], entornoDiez),
   (.delete [3], entornoDiez), (.delete [5], entornoDiez), (.delete [6], entornoDiez),
   (.set [8] [8, 8, 8, 8], entornoDiez)]

/-- **BLOCKS THAT ARE NOT BUDDIES ARE MERGED**: those at offsets 5 and 6
    become a block of two bytes. -/
theorem alineacion_falla : ∃ p, (∀ x ∈ pedidosTorcidos, ConBytes x.1)
    ∧ correrPlano cacheOcho pedidosTorcidos (planaInicial cacheOcho fun _ => 0) = some p
    ∧ ∃ s ∈ p.tabla.elements, s.viva = true
      ∧ ¬ largoBuddy cacheOcho.chunkSize s ∣ (s.item.data : Int) - cacheOcho.ptrdata := by
  have hno : (correr cacheOcho pedidosTorcidos (cacheInitialize cacheOcho)).map (fun t =>
      decide (∃ s ∈ t.elements, s.viva = true
        ∧ ¬ largoBuddy cacheOcho.chunkSize s ∣ (s.item.data : Int) - cacheOcho.ptrdata))
      = some true := by decide
  obtain ⟨t, ht, hdec⟩ := Option.map_eq_some_iff.mp hno
  have hcortas : ∀ x ∈ pedidosTorcidos, SetCorta x.1 ∧ AntesCorta x.2 := by
    simp [pedidosTorcidos, SetCorta, antesCorta_diez]
  obtain ⟨p, hp, heq⟩ := correrPlano_de (fun _ => 0) hcortas (by rw [ht]; rfl)
  rw [ht] at heq
  obtain rfl := Option.some.inj heq
  exact ⟨p, by decide, hp, of_decide_eq_true hdec⟩

end Rc
