import Yanero.RfsGrupos
import Mathlib.Data.Nat.Bitwise
import Mathlib.Tactic.IntervalCases

/-! # The bit arrays

    What a test, an update and the search of `bitarray.c` do to the bits of an
    array: bit `i` is bit `i % 8`, least significant first, of byte `i / 8`. -/

namespace Rfs

/-- Bit `i` of the byte that holds it. -/
def bitDe (b : UInt8) (i : Nat) : Bool := b.toNat.testBit (i % 8)

theorem toNat_bitInChar (i : Nat) : (bitInChar i).toNat = 2 ^ (i % 8) := by
  have hi : i % 8 < 8 := Nat.mod_lt _ (by decide)
  unfold bitInChar
  generalize i % 8 = j at hi
  interval_cases j <;> rfl

/-- The mask picks one bit of a byte. -/
theorem bitDe_mask (b : UInt8) (i : Nat) : ((b &&& bitInChar i) != 0) = bitDe b i := by
  have h : (b &&& bitInChar i).toNat = 2 ^ (i % 8) * (bitDe b i).toNat := by
    rw [UInt8.toNat_and, toNat_bitInChar, Nat.and_comm]
    exact Nat.two_pow_and b.toNat (i % 8)
  cases hb : bitDe b i with
  | false =>
      rw [hb] at h
      have h0 : b &&& bitInChar i = 0 := UInt8.toNat_inj.mp (by simpa using h)
      simp [h0]
  | true =>
      rw [hb] at h
      refine bne_iff_ne.mpr ?_
      intro h0
      rw [h0] at h
      have hpos : 0 < 2 ^ (i % 8) := Nat.two_pow_pos _
      simp at h
      omega

theorem bitDe_or (b : UInt8) (i j : Nat) :
    bitDe (b ||| bitInChar i) j = if j % 8 = i % 8 then true else bitDe b j := by
  unfold bitDe
  rw [UInt8.toNat_or, toNat_bitInChar, Nat.testBit_or, Nat.testBit_two_pow]
  by_cases h : j % 8 = i % 8
  · simp [h]
  · simp [h, Ne.symm h]

theorem bitDe_and_not (b : UInt8) (i j : Nat) :
    bitDe (b &&& ~~~ bitInChar i) j = if j % 8 = i % 8 then false else bitDe b j := by
  have hj : j % 8 < 8 := Nat.mod_lt _ (by decide)
  have hi : 2 ^ (i % 8) < 2 ^ 8 := Nat.pow_lt_pow_right (by decide) (Nat.mod_lt _ (by decide))
  have hnot : (~~~ bitInChar i).toNat = 2 ^ 8 - (2 ^ (i % 8) + 1) := by
    rw [UInt8.toNat_not, toNat_bitInChar]
    simp only [UInt8.size]
    omega
  unfold bitDe
  rw [UInt8.toNat_and, Nat.testBit_and, hnot, Nat.testBit_two_pow_sub_succ hi,
    Nat.testBit_two_pow]
  by_cases h : j % 8 = i % 8
  · simp [h]
  · simp [h, hj, Ne.symm h]

theorem bitarrayTestBit_eq (self : List UInt8) (i : Nat) :
    bitarrayTestBit self i = bitDe (self.getD (i / 8) 0) i := bitDe_mask _ i

theorem getD_modify {f : UInt8 → UInt8} {self : List UInt8} {k j : Nat} (hk : k < self.length) :
    (self.modify k f).getD j 0 = if j = k then f (self.getD j 0) else self.getD j 0 := by
  by_cases hj : j = k
  · subst hj
    simp [List.getD_eq_getElem?_getD, hk]
  · have hkj : k ≠ j := fun h => hj h.symm
    simp [List.getD_eq_getElem?_getD, hj, hkj]

/-- Within one byte two positions are the same when their bits are. -/
theorem mismo_bit {i j : Nat} (h : j / 8 = i / 8) : j % 8 = i % 8 ↔ j = i := by omega

/-- The search returns the first clear bit when the array has one. -/
theorem buscarPosicionLibre_primera {self : List UInt8} {i : Nat} (hi : i < self.length * 8)
    (hlibre : bitarrayTestBit self i = false) :
    ∃ pos, bitarrayBuscarPosicionLibre self = pos ∧ pos ≤ i
      ∧ bitarrayTestBit self pos = false := by
  unfold bitarrayBuscarPosicionLibre
  cases hf : (List.range (self.length * 8)).find? fun pos => !bitarrayTestBit self pos with
  | none =>
      have h := List.find?_eq_none.mp hf i (List.mem_range.mpr hi)
      simp [hlibre] at h
  | some pos =>
      refine ⟨pos, Option.getD_some, ?_, by simpa using List.find?_some hf⟩
      -- a clear bit before the one found would have been found first
      obtain ⟨_, as, bs, hsplit, has⟩ := List.find?_eq_some_iff_append.mp hf
      by_contra hlt
      have hmem : i ∈ as := by
        have hpos : pos = as.length := by
          have hget : (List.range (self.length * 8))[as.length]? = some pos := by simp [hsplit]
          obtain ⟨_, hval⟩ := List.getElem?_eq_some_iff.mp hget
          simpa using hval.symm
        have hget : (List.range (self.length * 8))[i]? = some i := by simp [hi]
        rw [hsplit, List.getElem?_append_left (by omega)] at hget
        exact List.mem_of_getElem? hget
      have h := has i hmem
      simp [hlibre] at h

end Rfs
