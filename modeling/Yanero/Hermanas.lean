import Yanero.Teselado
import Mathlib.Data.Set.Finite.List
import Mathlib.Data.Set.Finite.Lemmas
import Mathlib.Algebra.Order.Ring.Int
import Mathlib.Tactic.Ring

/-! # Sisters in an aligned layout

    Cells of lengths `c * 2 ^ j` that cover an area of `c * 2 ^ k` without
    gaps, each at a multiple of its length from the start of the area.  Unless
    one cell is the whole area, two neighbours are the halves of one block: a
    shortest cell cannot end on the start of a longer one unless its sister
    lies on the other side. -/

namespace Hermanas

open Teselado

variable {α : Type} {ini len : α → Int} {a c : Int} {k : Nat} {L : List α}

/-- Of two lengths the greater is the lesser, or a multiple of twice it. -/
theorem potencia_dvd {i j : Nat} (hc : 0 < c) (h : c * 2 ^ i ≤ c * 2 ^ j) :
    c * 2 ^ j = c * 2 ^ i ∨ 2 * (c * 2 ^ i) ∣ c * 2 ^ j := by
  have hij : i ≤ j := by
    by_contra hlt
    have hpow : (2 : Int) ^ j < 2 ^ i := pow_lt_pow_right₀ (by norm_num) (by omega)
    have := mul_lt_mul_of_pos_left hpow hc
    omega
  rcases Nat.lt_or_ge i j with hlt | hge
  · right
    obtain ⟨d, rfl⟩ : ∃ d, j = i + 1 + d := ⟨j - (i + 1), by omega⟩
    exact ⟨2 ^ d, by ring⟩
  · left
    rw [Nat.le_antisymm hij hge]

/-- A length that ends a multiple of twice itself short is not one. -/
theorem no_dobla {n x : Int} (hn : 0 < n) (h : 2 * n ∣ x) : ¬ 2 * n ∣ x + n := by
  intro h'
  have hd : 2 * n ∣ n := by simpa using Int.dvd_sub h' h
  have := Int.le_of_dvd hn hd
  omega

/-- A shortest cell: every other is as long, or a multiple of twice as long. -/
theorem celda_corta (hc : 0 < c) (hpot : ∀ s ∈ L, ∃ j : Nat, len s = c * 2 ^ j) (hne : L ≠ []) :
    ∃ A s B, L = A ++ s :: B ∧ ∀ u ∈ L, len u = len s ∨ 2 * len s ∣ len u := by
  obtain ⟨s, hs, hmin⟩ : ∃ s ∈ L, ∀ u ∈ L, len s ≤ len u :=
    Set.exists_min_image {u | u ∈ L} len L.finite_toSet (List.exists_mem_of_ne_nil L hne)
  obtain ⟨A, B, rfl⟩ := List.append_of_mem hs
  refine ⟨A, s, B, rfl, fun u hu => ?_⟩
  obtain ⟨i, hi⟩ := hpot s hs
  obtain ⟨j, hj⟩ := hpot u hu
  have hle := hmin u hu
  rw [hi, hj] at hle ⊢
  exact potencia_dvd hc hle

section Vecinas

variable {A B : List α} {s u : α}

/-- The last cell, at an even multiple of its length, is the only one. -/
theorem unica_celda (hc : 0 < c) (ht : Tesela ini len a (A ++ [s]) (a + c * 2 ^ k))
    (hpos : ∀ v ∈ A ++ [s], 0 < len v) (hpot : ∃ i : Nat, len s = c * 2 ^ i)
    (hpar : 2 * len s ∣ ini s - a) : A = [] := by
  obtain ⟨m, hA, hini, hfin⟩ := tesela_append.mp ht
  have hfin : m + len s = a + c * 2 ^ k := hfin
  obtain ⟨i, hi⟩ := hpot
  by_cases hle : k ≤ i
  · -- the cell is the whole area
    have hpow : c * 2 ^ k ≤ c * 2 ^ i :=
      mul_le_mul_of_nonneg_left (pow_le_pow_right₀ (by norm_num) hle) hc.le
    cases A with
    | nil => rfl
    | cons u A =>
        exfalso
        have hsum := suma_of_tesela hA
        have hu := hpos u (by simp)
        have hnn := suma_nonneg (L := A) fun v hv => (hpos v (by simp [hv])).le
        simp only [List.map_cons, List.sum_cons] at hsum
        omega
  · exfalso
    obtain ⟨d, hd⟩ : ∃ d, k = i + 1 + d := ⟨k - (i + 1), by omega⟩
    refine no_dobla (hpos s (by simp)) hpar ?_
    rw [hini, show m - a + len s = c * 2 ^ k by omega, hi, hd]
    exact ⟨2 ^ d, by ring⟩

/-- A shortest cell at an even multiple of its length has its sister after it. -/
theorem hermana_abajo {e : Int} (ht : Tesela ini len a (A ++ s :: u :: B) e) (hs : 0 < len s)
    (hpar : 2 * len s ∣ ini s - a) (hu : len u = len s ∨ 2 * len s ∣ len u)
    (halu : len u ∣ ini u - a) : len u = len s := by
  obtain ⟨m, -, hini, hB⟩ := tesela_append.mp ht
  refine hu.resolve_right fun hdvd => ?_
  have hsig : ini u = m + len s := hB.1
  refine no_dobla hs hpar ?_
  rw [hini, show m - a + len s = ini u - a by omega]
  exact hdvd.trans halu

/-- At an odd one it has it before it, at an even multiple. -/
theorem hermana_arriba {e : Int} (ht : Tesela ini len a (A ++ u :: s :: B) e)
    (hal : len s ∣ ini s - a) (hpar : ¬ 2 * len s ∣ ini s - a)
    (hu : len u = len s ∨ 2 * len s ∣ len u) (halu : len u ∣ ini u - a) :
    len u = len s ∧ 2 * len u ∣ ini u - a := by
  obtain ⟨m, -, hini, hB⟩ := tesela_append.mp ht
  have hsig : ini s = m + len u := hB.1
  have heq : len u = len s := by
    refine hu.resolve_right fun hdvd => hpar ?_
    rw [show ini s - a = (ini u - a) + len u by omega]
    exact Int.dvd_add (hdvd.trans halu) hdvd
  refine ⟨heq, ?_⟩
  -- an odd multiple, less one
  obtain ⟨q, hq⟩ := hal
  rcases Int.even_or_odd' q with ⟨r, hr | hr⟩
  · exact absurd ⟨r, by rw [hq, hr]; ring⟩ hpar
  · refine ⟨r, ?_⟩
    rw [show ini u - a = (ini s - a) - len s by omega, hq, hr, heq]
    ring

end Vecinas

/-- **TWO SISTERS OR ONE CELL**: an aligned layout of more than one cell has
    two neighbours of one length, of which the first lies at an even multiple
    of it. -/
theorem hermanas_o_una (hc : 0 < c) (ht : Tesela ini len a L (a + c * 2 ^ k))
    (hpot : ∀ s ∈ L, ∃ j : Nat, len s = c * 2 ^ j) (hal : ∀ s ∈ L, len s ∣ ini s - a) :
    (∃ s, L = [s]) ∨ ∃ A s u B, L = A ++ s :: u :: B ∧ len u = len s
      ∧ 2 * len s ∣ ini s - a := by
  have hpos : ∀ s ∈ L, 0 < len s := by
    intro s hs
    obtain ⟨j, hj⟩ := hpot s hs
    rw [hj]
    positivity
  have hne : L ≠ [] := by
    rintro rfl
    have h0 : a = a + c * 2 ^ k := ht
    have : 0 < c * 2 ^ k := by positivity
    omega
  obtain ⟨A, s, B, rfl, hmayor⟩ := celda_corta hc hpot hne
  have hs : s ∈ A ++ s :: B := by simp
  by_cases hpar : 2 * len s ∣ ini s - a
  · -- the sister is the next cell
    cases B with
    | nil =>
        obtain rfl := unica_celda hc ht hpos (hpot s hs) hpar
        exact .inl ⟨s, rfl⟩
    | cons u B =>
        refine .inr ⟨A, s, u, B, rfl, ?_, hpar⟩
        exact hermana_abajo ht (hpos s hs) hpar (hmayor u (by simp)) (hal u (by simp))
  · -- the sister is the cell before it
    have hA : A ≠ [] := by
      rintro rfl
      refine hpar ?_
      rw [show ini s = a from ht.1, sub_self]
      exact Int.dvd_zero _
    obtain ⟨A, u, rfl⟩ : ∃ A' u, A = A' ++ [u] :=
      ⟨A.dropLast, A.getLast hA, (List.dropLast_append_getLast hA).symm⟩
    have hL : (A ++ [u]) ++ s :: B = A ++ u :: s :: B := by simp
    rw [hL] at ht
    obtain ⟨heq, hdos⟩ := hermana_arriba ht (hal s hs) hpar (hmayor u (by simp)) (hal u (by simp))
    exact .inr ⟨A, u, s, B, hL, heq.symm, hdos⟩

end Hermanas
