import Mathlib.Data.List.GetD
import Mathlib.Algebra.Order.Ring.Nat
import Mathlib.Algebra.Group.Int.Defs

/-! # A flat byte memory

    Reads, writes and moves of byte ranges over `Nat → UInt8`, with the frame
    rules: a range disjoint from the written one reads the same. -/

namespace Bytes

/-- The `n` bytes at address `a`. -/
def leer (m : Nat → UInt8) (a n : Nat) : List UInt8 :=
  (List.range n).map fun i => m (a + i)

/-- Write the bytes `v` at address `a` (`memcpy` into the memory). -/
def escribir (m : Nat → UInt8) (a : Nat) (v : List UInt8) : Nat → UInt8 :=
  fun x => if a ≤ x ∧ x < a + v.length then v.getD (x - a) 0 else m x

/-- Move `n` bytes from `src` to `dst` (`memmove`: the source is read first). -/
def mover (m : Nat → UInt8) (dst src n : Nat) : Nat → UInt8 :=
  fun x => if dst ≤ x ∧ x < dst + n then m (src + (x - dst)) else m x

@[simp] theorem length_leer (m : Nat → UInt8) (a n : Nat) : (leer m a n).length = n := by
  simp [leer]

theorem leer_congr {m m' : Nat → UInt8} {a a' n : Nat}
    (h : ∀ i, i < n → m (a + i) = m' (a' + i)) : leer m a n = leer m' a' n := by
  refine List.map_congr_left ?_
  intro i hi
  exact h i (List.mem_range.mp hi)

/-- Part of a range that was read. -/
theorem leer_trozo (m : Nat → UInt8) (a : Nat) {n j k : Nat} (h : j + k ≤ n) :
    leer m (a + j) k = ((leer m a n).drop j).take k := by
  refine List.ext_getElem (by simp only [length_leer, List.length_take, List.length_drop]; omega) ?_
  intro i h1 h2
  simp only [leer, List.getElem_map, List.getElem_range, List.getElem_take, List.getElem_drop,
    Nat.add_assoc]

/-- What was written is read back. -/
theorem leer_escribir (m : Nat → UInt8) (a : Nat) (v : List UInt8) :
    leer (escribir m a v) a v.length = v := by
  refine List.ext_getElem (by simp) ?_
  intro i h1 h2
  have hi : a ≤ a + i ∧ a + i < a + v.length := by omega
  simp only [leer, List.getElem_map, List.getElem_range, escribir, if_pos hi]
  rw [Nat.add_sub_cancel_left, List.getD_eq_getElem _ _ h2]

/-- A write leaves every disjoint range alone. -/
theorem leer_escribir_ajeno {m : Nat → UInt8} {a b n : Nat} {v : List UInt8}
    (h : b + n ≤ a ∨ a + v.length ≤ b) : leer (escribir m a v) b n = leer m b n := by
  refine leer_congr ?_
  intro i hi
  have hno : ¬ (a ≤ b + i ∧ b + i < a + v.length) := by omega
  simp only [escribir, if_neg hno]

theorem escribir_nil (m : Nat → UInt8) (a : Nat) : escribir m a [] = m := by
  funext x
  rw [escribir, if_neg]
  rintro ⟨h1, h2⟩
  simp only [List.length_nil] at h2
  omega

theorem escribir_congr {m m' : Nat → UInt8} {x : Nat} (h : m' x = m x) (a : Nat)
    (v : List UInt8) : escribir m' a v x = escribir m a v x := by
  rw [escribir, escribir, h]

/-- Two writes one after the other are one write. -/
theorem escribir_append (m : Nat → UInt8) (a : Nat) (v w : List UInt8) :
    escribir (escribir m a v) (a + v.length) w = escribir m a (v ++ w) := by
  funext x
  unfold escribir
  rw [List.length_append]
  by_cases h1 : a + v.length ≤ x ∧ x < a + v.length + w.length
  · rw [if_pos h1, if_pos (by omega), List.getD_append_right _ _ _ _ (by omega), Nat.sub_sub]
  rw [if_neg h1]
  by_cases h2 : a ≤ x ∧ x < a + v.length
  · rw [if_pos h2, if_pos (by omega), List.getD_append _ _ _ _ (by omega)]
  · rw [if_neg h2, if_neg (by omega)]

/-- The destination of a move reads what the source held. -/
theorem leer_mover (m : Nat → UInt8) (dst src n : Nat) :
    leer (mover m dst src n) dst n = leer m src n := by
  refine leer_congr ?_
  intro i hi
  have hin : dst ≤ dst + i ∧ dst + i < dst + n := by omega
  simp only [mover, if_pos hin]
  rw [Nat.add_sub_cancel_left]

/-- A move leaves every range disjoint from its destination alone. -/
theorem leer_mover_ajeno {m : Nat → UInt8} {dst src n b k : Nat}
    (h : b + k ≤ dst ∨ dst + n ≤ b) : leer (mover m dst src n) b k = leer m b k := by
  refine leer_congr ?_
  intro i hi
  have hno : ¬ (dst ≤ b + i ∧ b + i < dst + n) := by omega
  simp only [mover, if_neg hno]

/-- Reading a range, changing one of its bytes and writing it back changes that
    byte only. -/
theorem escribir_modify (m : Nat → UInt8) (a : Nat) {n k : Nat} (f : UInt8 → UInt8) (hk : k < n) :
    escribir m a ((leer m a n).modify k f) = fun o => if o = a + k then f (m o) else m o := by
  funext o
  unfold escribir
  rw [List.length_modify, length_leer]
  by_cases ho : a ≤ o ∧ o < a + n
  · obtain ⟨i, rfl⟩ := Nat.exists_eq_add_of_le ho.1
    have hi : i < n := by omega
    have hget : (leer m a n)[i]? = some (m (a + i)) := by simp [leer, hi]
    rw [if_pos ho, Nat.add_sub_cancel_left, List.getD_eq_getElem?_getD]
    by_cases hik : k = i
    · subst hik
      rw [List.getElem?_modify_eq, hget, if_pos rfl]
      rfl
    · rw [List.getElem?_modify_ne _ _ hik, hget, if_neg (by omega)]
      rfl
  · rw [if_neg ho, if_neg (by omega)]

end Bytes
