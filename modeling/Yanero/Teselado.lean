import Mathlib.Data.List.Basic
import Mathlib.Algebra.Order.BigOperators.Group.List
import Mathlib.Tactic.Linarith

/-! # Intervals laid out in order

    A list of cells, each with a start `ini` and a length `len`, laid out
    between two addresses.  `Cabe a L b` allows gaps, `Tesela a L b` does not;
    a layout that loses no length has no gap (`tesela_of_cabe`).  The rule
    `cabe_trueque` replaces one segment of a layout by another that fits
    wherever the first did. -/

namespace Teselado

variable {α : Type} {ini len : α → Int}

/-- The cells of `L` lie in order between `a` and `b`, each ending before the
    next starts. -/
def Cabe (ini len : α → Int) : Int → List α → Int → Prop
  | a, [], b => a ≤ b
  | a, s :: L, b => a ≤ ini s ∧ Cabe ini len (ini s + len s) L b

/-- The cells of `L` cover `[a, b)` in order and without gaps. -/
def Tesela (ini len : α → Int) : Int → List α → Int → Prop
  | a, [], b => a = b
  | a, s :: L, b => ini s = a ∧ Tesela ini len (a + len s) L b

instance decidableTesela : ∀ (a : Int) (L : List α) (b : Int), Decidable (Tesela ini len a L b)
  | a, [], b => inferInstanceAs (Decidable (a = b))
  | a, s :: L, b =>
      have := decidableTesela (a + len s) L b
      inferInstanceAs (Decidable (ini s = a ∧ Tesela ini len (a + len s) L b))

@[simp] theorem cabe_nil {a b : Int} : Cabe ini len a [] b ↔ a ≤ b := Iff.rfl

@[simp] theorem cabe_cons {a b : Int} {s : α} {L : List α} :
    Cabe ini len a (s :: L) b ↔ a ≤ ini s ∧ Cabe ini len (ini s + len s) L b := Iff.rfl

theorem cabe_baja {a a' b : Int} {L : List α} (h : Cabe ini len a L b)
    (ha : a' ≤ a) : Cabe ini len a' L b := by
  cases L with
  | nil => exact le_trans ha h
  | cons s L => exact ⟨le_trans ha h.1, h.2⟩

theorem cabe_append {a b : Int} {L M : List α} :
    Cabe ini len a (L ++ M) b ↔ ∃ m, Cabe ini len a L m ∧ Cabe ini len m M b := by
  induction L generalizing a with
  | nil =>
      constructor
      · intro h; exact ⟨a, le_refl a, h⟩
      · rintro ⟨m, ham, h⟩; exact cabe_baja h ham
  | cons s L ih =>
      constructor
      · rintro ⟨h1, h2⟩
        obtain ⟨m, hL, hM⟩ := ih.mp h2
        exact ⟨m, ⟨h1, hL⟩, hM⟩
      · rintro ⟨m, ⟨h1, hL⟩, hM⟩
        exact ⟨h1, ih.mpr ⟨m, hL, hM⟩⟩

/-- **LOCAL REPLACEMENT**: a segment may be replaced by any other that fits
    wherever it did. -/
theorem cabe_trueque {a b : Int} {A M M' B : List α}
    (h : Cabe ini len a (A ++ (M ++ B)) b)
    (hM : ∀ x y, Cabe ini len x M y → Cabe ini len x M' y) :
    Cabe ini len a (A ++ (M' ++ B)) b := by
  obtain ⟨x, hA, hr⟩ := cabe_append.mp h
  obtain ⟨y, hMx, hB⟩ := cabe_append.mp hr
  exact cabe_append.mpr ⟨x, hA, cabe_append.mpr ⟨y, hM x y hMx, hB⟩⟩

/-- A layout is at least as wide as the lengths it holds. -/
theorem cabe_suma {a b : Int} {L : List α} (h : Cabe ini len a L b) :
    a + (L.map len).sum ≤ b := by
  induction L generalizing a with
  | nil => simpa using h
  | cons s L ih =>
      have h1 := h.1
      have h2 := ih h.2
      simp only [List.map_cons, List.sum_cons]
      linarith

/-- A layout that holds as much length as it is wide has no gaps. -/
theorem tesela_of_cabe {a b : Int} {L : List α} (h : Cabe ini len a L b)
    (hs : b ≤ a + (L.map len).sum) : Tesela ini len a L b := by
  induction L generalizing a with
  | nil =>
      have hab : a ≤ b := h
      have hba : b ≤ a := by simpa using hs
      exact le_antisymm hab hba
  | cons s L ih =>
      have h1 := h.1
      have h2 := cabe_suma h.2
      simp only [List.map_cons, List.sum_cons] at hs
      have hini : ini s = a := by linarith
      refine ⟨hini, ?_⟩
      have h3 := h.2
      rw [hini] at h3
      exact ih h3 (by linarith)

theorem cabe_of_tesela {a b : Int} {L : List α} (h : Tesela ini len a L b) :
    Cabe ini len a L b := by
  induction L generalizing a with
  | nil => exact le_of_eq h
  | cons s L ih =>
      obtain ⟨h1, h2⟩ := h
      exact ⟨le_of_eq h1.symm, by rw [h1]; exact ih h2⟩

theorem suma_of_tesela {a b : Int} {L : List α} (h : Tesela ini len a L b) :
    a + (L.map len).sum = b := by
  induction L generalizing a with
  | nil =>
      have hab : a = b := h
      simpa using hab
  | cons s L ih =>
      have h2 := ih h.2
      simp only [List.map_cons, List.sum_cons]
      linarith

theorem tesela_append {a b : Int} {L M : List α} :
    Tesela ini len a (L ++ M) b ↔ ∃ m, Tesela ini len a L m ∧ Tesela ini len m M b := by
  induction L generalizing a with
  | nil =>
      constructor
      · intro h; exact ⟨a, rfl, h⟩
      · rintro ⟨m, ham, h⟩
        have : a = m := ham
        rw [this]
        exact h
  | cons s L ih =>
      constructor
      · rintro ⟨h1, h2⟩
        obtain ⟨m, hL, hM⟩ := ih.mp h2
        exact ⟨m, ⟨h1, hL⟩, hM⟩
      · rintro ⟨m, ⟨h1, hL⟩, hM⟩
        exact ⟨h1, ih.mpr ⟨m, hL, hM⟩⟩

/-- A change of cells that keeps starts and lengths. -/
theorem tesela_map {β : Type} {ini' len' : β → Int} {g : β → α} (hi : ∀ s, ini (g s) = ini' s)
    (hl : ∀ s, len (g s) = len' s) {a b : Int} {L : List β} :
    Tesela ini len a (L.map g) b ↔ Tesela ini' len' a L b := by
  induction L generalizing a with
  | nil => exact Iff.rfl
  | cons s L ih => simp only [List.map_cons, Tesela, hi, hl, ih]

theorem cabe_map {β : Type} {ini' len' : β → Int} {g : β → α} (hi : ∀ s, ini (g s) = ini' s)
    (hl : ∀ s, len (g s) = len' s) {a b : Int} {L : List β} :
    Cabe ini len a (L.map g) b ↔ Cabe ini' len' a L b := by
  induction L generalizing a with
  | nil => exact Iff.rfl
  | cons s L ih => simp only [List.map_cons, Cabe, hi, hl, ih]

/-- Rewriting a cell without moving it. -/
theorem cabe_modify {g : α → α} (hi : ∀ s, ini (g s) = ini s) (hl : ∀ s, len (g s) = len s)
    {L : List α} : ∀ {a b : Int} {q : Nat}, Cabe ini len a L b →
      Cabe ini len a (L.modify q g) b := by
  induction L with
  | nil =>
      intro a b q h
      simpa using h
  | cons s L ih =>
      intro a b q h
      cases q with
      | zero =>
          rw [List.modify_zero_cons, cabe_cons, hi, hl]
          exact h
      | succ q =>
          rw [List.modify_succ_cons]
          exact ⟨h.1, ih h.2⟩

/-- Cells of length at least `c` weigh at least `c` each. -/
theorem suma_minima {c : Int} {L : List α} (h : ∀ s ∈ L, c ≤ len s) :
    c * L.length ≤ (L.map len).sum := by
  have := List.card_nsmul_le_sum (L.map len) c (by simpa using h)
  simpa [mul_comm] using this

theorem suma_nonneg {L : List α} (hlen : ∀ s ∈ L, 0 ≤ len s) :
    0 ≤ (L.map len).sum := by
  apply List.sum_nonneg
  intro x hx
  obtain ⟨s, hs, rfl⟩ := List.mem_map.mp hx
  exact hlen s hs

/-- Every cell of a layout lies between its ends. -/
theorem cabe_mem {a b : Int} {L : List α} (h : Cabe ini len a L b)
    (hlen : ∀ s ∈ L, 0 ≤ len s) :
    ∀ s ∈ L, a ≤ ini s ∧ ini s + len s ≤ b := by
  induction L generalizing a with
  | nil => intro s hs; exact nomatch hs
  | cons t L ih =>
      have hL : ∀ s ∈ L, 0 ≤ len s := fun s hs => hlen s (by simp [hs])
      intro s hs
      rcases List.mem_cons.mp hs with rfl | hs
      · refine ⟨h.1, ?_⟩
        have hsum := cabe_suma h.2
        have hnn := suma_nonneg hL
        linarith
      · obtain ⟨h1, h2⟩ := ih h.2 hL s hs
        have ht : 0 ≤ len t := hlen t (by simp)
        have := h.1
        exact ⟨by linarith, h2⟩

/-- Two cells of a layout, one before the other, do not overlap. -/
theorem cabe_separadas {a b : Int} {A B C : List α} {s t : α}
    (h : Cabe ini len a (A ++ s :: (B ++ t :: C)) b)
    (hlen : ∀ u ∈ B, 0 ≤ len u) : ini s + len s ≤ ini t := by
  obtain ⟨x, -, hs⟩ := cabe_append.mp h
  obtain ⟨y, hB, ht⟩ := cabe_append.mp hs.2
  have hsum := cabe_suma hB
  have hnn := suma_nonneg hlen
  have := ht.1
  linarith

/-- The cells of a layout are pairwise apart. -/
theorem cabe_pairwise {a b : Int} {L : List α} (h : Cabe ini len a L b)
    (hlen : ∀ s ∈ L, 0 ≤ len s) :
    L.Pairwise (fun s t => ini s + len s ≤ ini t) := by
  induction L generalizing a with
  | nil => exact List.Pairwise.nil
  | cons s L ih =>
      have hL : ∀ u ∈ L, 0 ≤ len u := fun u hu => hlen u (by simp [hu])
      exact List.Pairwise.cons (fun t ht => (cabe_mem h.2 hL t ht).1) (ih h.2 hL)

end Teselado
