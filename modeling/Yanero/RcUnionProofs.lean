import Yanero.RcAlineaProofs
import Yanero.Hermanas

/-! # The merging passes end, and end on one block

    Each pass of `unirTodasLasHermanas` that merges leaves one live slot less,
    so there are at most as many passes as live slots, and the last of them
    merges nothing.  While the blocks are aligned that says much: a table with
    no occupied slot is then a single block of the whole data area.

    One merge is not one: at the last slot of the table the slot below is past
    the end.  A live block there is a chunk at an odd multiple of its length,
    so the pass looks at the slot above. -/

namespace Rc

open Bucles Teselado

/-- How many slots are live. -/
def vivas (t : TableInfo) : Nat := t.elements.countP (·.viva)

/-- A pass over the table would merge nothing. -/
def SinHermanas (fuera : Nat → Particion) (t : TableInfo) : Prop :=
  ∀ i < t.tableMaxSize, une fuera i ⟨t, acumHasta t i, false⟩ = false

section Pasadas

variable {cfg : Config} {k : Nat} {t t' : TableInfo} {fuera : Nat → Particion} {p p' : Pasada}

theorem vivas_le (t : TableInfo) : vivas t ≤ t.tableMaxSize := List.countP_le_length

theorem BuddyInv.vivas {L D : List Particion} (hc : 0 < cfg.chunkSize)
    (h : BuddyInv cfg True t L D) : vivas t = L.length := by
  have hmap : (vista t).countP (·.viva) = Rc.vivas t := by
    rw [vista, List.countP_map]
    exact congrArg (List.countP · t.elements) (funext fun s => limpia_viva s)
  have hL : L.countP (·.viva) = L.length :=
    List.countP_eq_length.mpr fun s hs => (h.bien s hs).viva hc
  have hD : D.countP (·.viva) = 0 := by
    rw [List.countP_eq_zero]
    intro s hs
    simp [muerta_not_viva (h.muertas s hs)]
  rw [← hmap, h.tabla, List.countP_append, hL, hD, Nat.add_zero]

/-- A merge leaves one live slot less. -/
theorem Fusion.vivas {A₀ R₀ : List Particion} {u w : Particion} (hf : Fusion p p' A₀ u w R₀)
    (hc : 0 < cfg.chunkSize) (h : Buddy cfg True p.self) :
    Rc.vivas p'.self + 1 = Rc.vivas p.self := by
  obtain ⟨L, D, hinv⟩ := h
  obtain ⟨B, rfl, -⟩ := hf.parte hinv
  obtain ⟨z, -, hinv', -⟩ := hf.buddy hinv
  rw [hinv.vivas hc, hinv'.vivas hc]
  simp only [List.length_append, List.length_cons]
  omega

theorem unirTurno_seUnieron (fuera : Nat → Particion) (i : Nat) (p : Pasada) :
    (unirTurno fuera i p).seUnieron = (p.seUnieron || une fuera i p) := by
  unfold une unirTurno
  dsimp only
  split
  · split <;> split <;> simp
  · split <;> simp

/-- **THE LAST SLOT**: a live block there is a chunk at an odd multiple of its
    length. -/
theorem ultimo_impar {i : Nat} (hcfg : ConfigBuddy cfg k) (hk : 1 ≤ k) (h : Buddy cfg True t)
    (hi : i + 1 = t.tableMaxSize) (ho : (t.leer fuera i).ocupado = false)
    (hb : (t.leer fuera i).bytesDisponibles ≠ 0) :
    ((acumHasta t i).tdiv (t.leer fuera i).bytesDisponibles).tmod 2 ≠ 0 := by
  obtain ⟨L, D, hinv⟩ := h
  have hc := hcfg.chunk
  have hlt : i < t.elements.length := by
    have : t.tableMaxSize = t.elements.length := rfl
    omega
  obtain ⟨A₀, s, hes, rfl⟩ : ∃ A₀ s, t.elements = A₀ ++ s :: [] ∧ A₀.length = i := by
    refine ⟨t.elements.take i, t.elements[i], ?_, by simp; omega⟩
    have hdrop : t.elements.drop (i + 1) = [] := List.drop_eq_nil_of_le hi.ge
    rw [← hdrop, List.cons_getElem_drop_succ, List.take_append_drop]
  have hleer := leer_mitad fuera hes
  rw [hleer] at ho hb ⊢
  obtain ⟨B, rfl, hBD⟩ := hinv.parte hes fun hm => hb hm.2.1
  obtain ⟨rfl, rfl⟩ := List.append_eq_nil_iff.mp hBD.symm
  -- as many blocks as chunks, so each is one chunk
  have hlen := hinv.lleno
  rw [hcfg.tam, Nat.mul_div_cancel_left _ hc] at hlen
  have hsum := hinv.suma trivial
  have hA := suma_minima (L := A₀.map limpia) fun s hs => (hinv.bien s (by simp [hs])).chunk_le
  have hs := (hinv.bien (limpia s) (by simp)).chunk_le
  have hv : vista t = A₀.map limpia ++ [limpia s] := by rw [hinv.tabla]; simp
  have hacum := acumHasta_vista hv
  rw [hcfg.tam] at hsum
  simp only [List.length_append, List.length_map, List.length_cons, List.length_nil,
    List.map_append, List.map_cons, List.map_nil, List.sum_append, List.sum_cons, List.sum_nil,
    add_zero, largoBuddy_limpia, largoBuddy_of_libre ho] at hlen hsum hA hs
  rw [List.length_map, hinv.chunk] at hacum
  obtain ⟨m, rfl⟩ : ∃ m, k = m + 1 := ⟨k - 1, by omega⟩
  have hlen' : (A₀.length : Int) + 1 = 2 * 2 ^ m := by
    have : ((A₀.length + 1 : Nat) : Int) = 2 ^ (m + 1) := by rw [hlen]; push_cast; rfl
    push_cast at this
    rw [this]
    ring
  have htot : ((cfg.chunkSize * 2 ^ (m + 1) : Nat) : Int)
      = cfg.chunkSize * A₀.length + cfg.chunkSize := by
    push_cast
    rw [pow_succ, mul_comm ((2 : Int) ^ m) 2, ← hlen']
    ring
  rw [htot] at hsum
  have hbc : s.bytesDisponibles = cfg.chunkSize := by omega
  have hac : acumHasta t A₀.length = cfg.chunkSize * A₀.length := by rw [hacum]; omega
  rw [hac, hbc, Int.mul_tdiv_cancel_left _ (by omega), Int.tmod_eq_emod_of_nonneg (by omega)]
  omega

/-- One turn that merges only when `acum` is right: a merge leaves one live
    slot less, any other turn leaves the table and counts its slot. -/
theorem unirTurno_vivas {i : Nat} (hcfg : ConfigBuddy cfg k) (hk : 1 ≤ k)
    (h : Buddy cfg True p.self) (hi : i < p.self.tableMaxSize) (h0 : i = 0 → p.acum = 0)
    (hune : une fuera i p = true → p.acum = acumHasta p.self i) :
    (une fuera i p = true ∧ vivas (unirTurno fuera i p).self + 1 = vivas p.self) ∨
    (une fuera i p = false ∧ (unirTurno fuera i p).self = p.self
      ∧ (unirTurno fuera i p).acum
        = p.acum + largoBuddy p.self.sizeChunk (p.self.leer fuera i)) := by
  rcases unirTurno_casos fuera hi h0 with ⟨hs, hac, hult⟩ | ⟨A, u, w, R, hf, -, hu, -⟩
    | ⟨A, u, w, R, hf, -, hu, -⟩
  · cases hu : une fuera i p with
    | false => exact Or.inr ⟨rfl, hs, hac⟩
    | true =>
        exfalso
        obtain ⟨hN, ho, hb, hpar⟩ := hult hu
        rw [hune hu] at hpar
        exact ultimo_impar hcfg hk h hN ho hb hpar
  · exact Or.inl ⟨hu, hf.vivas hcfg.chunk h⟩
  · exact Or.inl ⟨hu, hf.vivas hcfg.chunk h⟩

/-- **ONE PASS** either leaves fewer live slots or finds no two sisters. -/
theorem unirPasada_vivas (hcfg : ConfigBuddy cfg k) (hk : 1 ≤ k) (h : Alineada cfg t)
    (hr : PasadaRecta fuera t) :
    ((unirPasada fuera t).seUnieron = true → vivas (unirPasada fuera t).self < vivas t) ∧
    ((unirPasada fuera t).seUnieron = false →
      (unirPasada fuera t).self = t ∧ SinHermanas fuera t) := by
  have := iterar_invariante (f := unirTurno fuera) (n := t.tableMaxSize)
    (s := (⟨t, 0, false⟩ : Pasada))
    (fun i p => p = pasadaHasta fuera t i
      ∧ (p.seUnieron = true → vivas p.self < vivas t)
      ∧ (p.seUnieron = false → p.self = t ∧ p.acum = acumHasta t i
        ∧ ∀ j < i, une fuera j ⟨t, acumHasta t j, false⟩ = false))
    ⟨rfl, by simp, fun _ => ⟨rfl, by simp [acumHasta], by simp⟩⟩
    (by
      rintro i p hi ⟨hp, hmenos, hnada⟩
      obtain ⟨hal, h0, hacum⟩ := pasadaHasta_alineada hcfg.chunk h hr (Nat.le_of_lt hi)
      rw [← hp] at hal h0 hacum
      have hN := Buddy.tableMaxSize_eq h.buddy hal.buddy
      have hturno := unirTurno_vivas hcfg hk hal.buddy (by omega) h0 fun hu => by
        rcases hacum with hacum | ⟨j, hj, hsal⟩
        · exact hacum
        · have := hr i hi j hj hsal
          rw [← hp, hu] at this
          cases this
      refine ⟨by rw [hp, pasadaHasta, pasadaHasta, iterar_succ], ?_, ?_⟩
      · intro hse
        rcases hturno with ⟨-, hviv⟩ | ⟨hno, hs, -⟩
        · cases hant : p.seUnieron with
          | true =>
              have := hmenos hant
              omega
          | false =>
              rw [(hnada hant).1] at hviv
              omega
        · rw [unirTurno_seUnieron, hno, Bool.or_false] at hse
          rw [hs]
          exact hmenos hse
      · intro hse
        rw [unirTurno_seUnieron, Bool.or_eq_false_iff] at hse
        obtain ⟨hself, hac, hune⟩ := hnada hse.1
        rcases hturno with ⟨hu, -⟩ | ⟨-, hs, hac'⟩
        · rw [hse.2] at hu
          cases hu
        · refine ⟨hs.trans hself, ?_, ?_⟩
          · rw [hac', hac, hself, acumHasta_succ hi, leer_vacia hi]
          · intro j hj
            rcases Nat.lt_succ_iff_lt_or_eq.mp hj with hj | rfl
            · exact hune j hj
            · have hno := hse.2
              unfold une at hno ⊢
              rw [hself, hac] at hno
              exact hno)
  exact ⟨this.2.1, fun hse => ⟨(this.2.2 hse).1, (this.2.2 hse).2.2⟩⟩

/-- **THE PASSES END** within as many turns as there are live slots, on a
    table without sisters. -/
theorem unirTodasLasHermanas_termina (hcfg : ConfigBuddy cfg k) (hk : 1 ≤ k) :
    ∀ (vueltas : Nat) {t : TableInfo}, Alineada cfg t → UnionRecta fuera vueltas t →
      vivas t < vueltas →
      ∃ t', unirTodasLasHermanas fuera vueltas t = some t' ∧ SinHermanas fuera t' := by
  intro vueltas
  induction vueltas with
  | zero => intro t _ _ hlt; omega
  | succ v ih =>
      intro t h hu hlt
      obtain ⟨hmenos, hnada⟩ := unirPasada_vivas hcfg hk h hu.1
      simp only [unirTodasLasHermanas]
      cases hse : (unirPasada fuera t).seUnieron with
      | true =>
          have hm := hmenos hse
          simp only [if_true]
          exact ih (unirPasada_alineada hcfg.chunk h hu.1) (hu.2 hse) (by omega)
      | false =>
          obtain ⟨hself, hsin⟩ := hnada hse
          refine ⟨(unirPasada fuera t).self, by simp, ?_⟩
          rw [hself]
          exact hsin

/-- **ONE BLOCK**: an aligned table with no occupied slot and no two sisters
    is a single block of the whole data area. -/
theorem SinHermanas.bloque (hsin : SinHermanas fuera t) (hcfg : ConfigBuddy cfg k)
    (h : Alineada cfg t) (hlib : ∀ s ∈ t.elements, s.ocupado = false) :
    ∃ D, vista t = libre cfg.ptrdata cfg.blockSizeMax :: D ∧ ∀ d ∈ D, muerta d := by
  obtain ⟨L, D, hinv⟩ := h.buddy
  have hc := hcfg.chunk
  have hsum := hinv.suma trivial
  have hlibL : ∀ s ∈ L, s.ocupado = false := by
    intro s hs
    obtain ⟨s₀, hs₀, rfl⟩ := List.mem_map.mp (show s ∈ vista t by rw [hinv.tabla]; simp [hs])
    rw [limpia_ocupado]
    exact hlib s₀ hs₀
  have htes : Tesela inicio (largoBuddy cfg.chunkSize) cfg.ptrdata L
      (cfg.ptrdata + cfg.chunkSize * 2 ^ k) := by
    have := tesela_of_cabe hinv.cabe (by rw [hsum])
    rw [hcfg.tam] at this
    push_cast at this
    exact this
  rcases Hermanas.hermanas_o_una (by exact_mod_cast hc) htes
    (fun s hs => (hinv.bien s hs).potencia trivial) (h.bloque hc hinv) with
    ⟨s, rfl⟩ | ⟨A, s, u, B, rfl, hlen, hpar⟩
  · refine ⟨D, ?_, hinv.muertas⟩
    have hini := hinv.inicio_eq (A := []) (B := [])
    have hs := hlibL s (by simp)
    obtain ⟨s₀, hs₀, rfl⟩ := List.mem_map.mp (show s ∈ vista t by rw [hinv.tabla]; simp)
    rw [limpia_ocupado] at hs
    simp only [List.map_nil, List.sum_nil, add_zero, inicio, limpia_data] at hini
    simp only [List.map_cons, List.map_nil, List.sum_cons, List.sum_nil, add_zero,
      largoBuddy_limpia, largoBuddy_of_libre hs] at hsum
    have hin : s₀.bytesInutilizados = 0 := by
      rw [← limpia_inutilizados]
      exact (hinv.bien (limpia s₀) (by simp)).libre (by simpa using hs)
    rw [hinv.tabla, limpia_of_libre hs hin, hsum, show s₀.item.data = cfg.ptrdata by omega]
    rfl
  · -- the pass would merge these two
    exfalso
    have hs := hlibL s (by simp)
    have hu := hlibL u (by simp)
    rw [largoBuddy_of_libre hs] at hpar
    rw [largoBuddy_of_libre hs, largoBuddy_of_libre hu] at hlen
    have hmin := (hinv.bien s (by simp)).chunk_le
    rw [largoBuddy_of_libre hs] at hmin
    have hini := hinv.inicio_eq
    have hv : vista t = A ++ (s :: u :: (B ++ D)) := by rw [hinv.tabla]; simp
    have hacum := acumHasta_vista hv
    obtain ⟨A₀, s₀, R₀, hes, rfl, rfl, hR⟩ := vista_parte hv
    obtain ⟨u₀, R₁, rfl, rfl, -⟩ := List.map_eq_cons_iff.mp hR
    rw [List.length_map, hinv.chunk] at hacum
    rw [show inicio (limpia s₀) - cfg.ptrdata = acumHasta t A₀.length by omega] at hpar
    simp only [limpia_ocupado, limpia_disponibles] at hs hu hlen hpar hmin
    have hleer := leer_mitad fuera hes
    have hleer' := leer_siguiente fuera hes
    have hcero : s₀.bytesDisponibles ≠ 0 := by omega
    have hdos : ((acumHasta t A₀.length).tdiv s₀.bytesDisponibles).tmod 2 = 0 := by
      obtain ⟨q, hq⟩ := hpar
      rw [hq, show 2 * s₀.bytesDisponibles * q = s₀.bytesDisponibles * (2 * q) by ring,
        Int.mul_tdiv_cancel_left _ hcero, Int.mul_tmod_right]
    have hno := hsin A₀.length (by rw [TableInfo.tableMaxSize, hes]; simp)
    simp [une, unirTurno, hleer, hleer', hs, hu, hcero, hdos, hlen] at hno

end Pasadas

end Rc
