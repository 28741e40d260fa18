import Mathlib

/-! # Streaks of a list

    A streak is a run of consecutive cells with a property that starts where
    the property starts to hold.  Streaks are named by their first cell and how
    many cells they have, so a scan from the left meets the streaks one by one,
    each as long as the cells read so far (`Racha.crece`), and two streaks that
    end at one cell are the same (`Racha.unica`). -/

namespace Rachas

variable {α : Type} {h : α → Bool} {l : List α} {p k p' k' : Nat}

/-- `k` cells with the property, from cell `p` on, the one before `p` being
    without it. -/
structure Racha (h : α → Bool) (l : List α) (p k : Nat) : Prop where
  dentro : p + k ≤ l.length
  todas : ∀ i, p ≤ i → i < p + k → ∃ a, l[i]? = some a ∧ h a = true
  comienza : ∀ q, q + 1 = p → ∀ a, l[q]? = some a → h a = false

/-- A streak that cannot be made longer. -/
structure Entera (h : α → Bool) (l : List α) (p k : Nat) : Prop extends Racha h l p k where
  alguna : 0 < k
  termina : ∀ a, l[p + k]? = some a → h a = false

/-- What `k` cells from cell `p` on weigh. -/
def peso (w : α → Int) (l : List α) (p k : Nat) : Int := (((l.drop p).take k).map w).sum

@[simp] theorem peso_cero (w : α → Int) (l : List α) (p : Nat) : peso w l p 0 = 0 := by
  simp [peso]

theorem peso_succ (w : α → Int) {a : α} (ha : l[p + k]? = some a) :
    peso w l p (k + 1) = peso w l p k + w a := by
  have hget : (l.drop p)[k]? = some a := by rwa [List.getElem?_drop]
  rw [peso, peso, List.take_add_one, hget]
  simp

/-- Without cells a streak can start anywhere the property does not hold. -/
theorem Racha.vacia {n : Nat} (hn : n ≤ l.length)
    (hant : ∀ q, q + 1 = n → ∀ a, l[q]? = some a → h a = false) : Racha h l n 0 :=
  ⟨hn, fun i h1 h2 => absurd h2 (by omega), hant⟩

/-- The next cell makes the streak longer. -/
theorem Racha.crece {a : α} (hr : Racha h l p k) (ha : l[p + k]? = some a) (hp : h a = true) :
    Racha h l p (k + 1) := by
  refine ⟨?_, fun i h1 h2 => ?_, hr.comienza⟩
  · have := (List.getElem?_eq_some_iff.mp ha).1
    omega
  · rcases Nat.lt_or_ge i (p + k) with hi | hi
    · exact hr.todas i h1 hi
    · obtain rfl : i = p + k := by omega
      exact ⟨a, ha, hp⟩

/-- The last cell of a streak has the property. -/
theorem Racha.ultima {a : α} (hr : Racha h l p k) (hk : 0 < k) {i : Nat} (hi : p + k = i + 1)
    (ha : l[i]? = some a) : h a = true := by
  obtain ⟨b, hb, hpb⟩ := hr.todas i (by omega) (by omega)
  rw [ha] at hb
  rwa [Option.some.inj hb]

/-- A streak that starts before another one is over before it. -/
theorem Racha.antes (hr : Racha h l p k) (hr' : Racha h l p' k') (hlt : p' < p) :
    p' + k' < p := by
  by_contra hno
  obtain ⟨a, ha, hpa⟩ := hr'.todas (p - 1) (by omega) (by omega)
  rw [hr.comienza (p - 1) (by omega) a ha] at hpa
  cases hpa

/-- **ONE FOR EACH END**. -/
theorem Racha.unica (hr : Racha h l p k) (hr' : Racha h l p' k') (hk : 0 < k) (hk' : 0 < k')
    (hfin : p + k = p' + k') : p = p' ∧ k = k' := by
  rcases Nat.lt_trichotomy p p' with hlt | heq | hgt
  · have := hr'.antes hr hlt
    omega
  · omega
  · have := hr.antes hr' hgt
    omega

/-- A streak is the start of a whole one. -/
theorem Racha.entera (hr : Racha h l p k) (hk : 0 < k) : ∃ k', k ≤ k' ∧ Entera h l p k' := by
  obtain ⟨resto, hresto⟩ : ∃ resto, p + k + resto = l.length := ⟨_, Nat.add_sub_cancel' hr.dentro⟩
  induction resto generalizing k with
  | zero =>
      refine ⟨k, Nat.le_refl k, hr, hk, fun a ha => ?_⟩
      have := (List.getElem?_eq_some_iff.mp ha).1
      omega
  | succ resto ih =>
      obtain ⟨a, ha⟩ : ∃ a, l[p + k]? = some a :=
        ⟨_, List.getElem?_eq_getElem (show p + k < l.length by omega)⟩
      cases hpa : h a with
      | false =>
          refine ⟨k, Nat.le_refl k, hr, hk, fun b hb => ?_⟩
          rw [ha] at hb
          rwa [← Option.some.inj hb]
      | true =>
          obtain ⟨k', hle, hent⟩ := ih (hr.crece ha hpa) (Nat.succ_pos k) (by omega)
          exact ⟨k', by omega, hent⟩

/-- More cells weigh more. -/
theorem peso_mono {w : α → Int} (hw : ∀ a ∈ l, 0 ≤ w a) (hk : k ≤ k') :
    peso w l p k ≤ peso w l p k' := by
  obtain ⟨m, rfl⟩ : ∃ m, k' = k + m := ⟨_, (Nat.add_sub_cancel' hk).symm⟩
  rw [peso, peso, List.take_add, List.map_append, List.sum_append]
  refine Int.le_add_of_nonneg_right (List.sum_nonneg fun x hx => ?_)
  obtain ⟨a, ha, rfl⟩ := List.mem_map.mp hx
  exact hw a (List.mem_of_mem_drop (List.mem_of_mem_drop (List.mem_of_mem_take ha)))

/-- Some cells of a list weigh at most what all do. -/
theorem peso_le_suma {w : α → Int} (hw : ∀ a ∈ l, 0 ≤ w a) (p k : Nat) :
    peso w l p k ≤ (l.map w).sum := by
  have hsub : (((l.drop p).take k).map w).Sublist (l.map w) :=
    ((List.take_sublist _ _).trans (List.drop_sublist _ _)).map w
  refine hsub.sum_le_sum fun x hx => ?_
  obtain ⟨a, ha, rfl⟩ := List.mem_map.mp hx
  exact hw a ha

end Rachas
