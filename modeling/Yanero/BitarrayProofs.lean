import Yanero.Bitarray
import Yanero.RfsBitmapProofs
import Mathlib.Order.Bounds.Basic

/-! # The bit arrays, bit by bit

    A mask picks one bit of a byte whatever the sign of the byte, so a test
    reads bit `i % 8` of byte `i / 8`, an update changes that bit alone, and the
    search stops at the first clear bit or at the end of the array, whatever it
    reads there.  The file system works on lists of bytes: they are these
    arrays (`enMemoria`). -/

namespace Commons

/-! ## One byte -/

section Byte

variable {r : Nat}

/-- The promotion to `int` keeps the bits of the byte. -/
theorem getLsbD_toInt32 (b : Int8) (hr : r < 8) :
    b.toInt32.toBitVec.getLsbD r = b.toBitVec.getLsbD r := by
  rw [Int8.toBitVec_toInt32, BitVec.getLsbD_signExtend, if_pos hr]
  simp [show r < 32 by omega]

/-- So does the way back to `char`. -/
theorem getLsbD_toInt8 (n : Int32) (hr : r < 8) :
    n.toInt8.toBitVec.getLsbD r = n.toBitVec.getLsbD r := by
  rw [Int32.toBitVec_toInt8, BitVec.getLsbD_signExtend, if_pos (by omega)]
  simp [hr]

/-- Bit `i % 8`, least significant first. -/
def bitDe (b : Int8) (i : Nat) : Bool := b.toBitVec.getLsbD (i % 8)

/-- The mask of a bit is a power of two. -/
theorem toBitVec_bitInChar (i : Nat) : (bitInChar i).toBitVec = BitVec.twoPow 32 (i % 8) := by
  have hi : i % 8 < 8 := Nat.mod_lt i (by decide)
  unfold bitInChar
  generalize i % 8 = r at hi
  interval_cases r <;> decide

/-- The mask of `bitarray_clean_bit` has every bit of a byte but one. -/
theorem getLsbD_mascara (i : Nat) (hr : r < 8) :
    (~~~ (bitInChar i).toInt8.toUInt8).toUInt32.toInt32.toBitVec.getLsbD r
      = decide (r ≠ i % 8) := by
  have hi : i % 8 < 8 := Nat.mod_lt i (by decide)
  unfold bitInChar
  generalize i % 8 = s at hi
  interval_cases s <;> interval_cases r <;> decide

/-- The sign of the byte is above the mask. -/
theorem bitDe_mascara (b : Int8) (i : Nat) : ((b.toInt32 &&& bitInChar i) != 0) = bitDe b i := by
  have hi : i % 8 < 8 := Nat.mod_lt i (by decide)
  have hand : (b.toInt32 &&& bitInChar i).toBitVec
      = if bitDe b i then BitVec.twoPow 32 (i % 8) else 0#32 := by
    rw [Int32.toBitVec_and, toBitVec_bitInChar, BitVec.and_twoPow, getLsbD_toInt32 b hi]
    rfl
  cases hb : bitDe b i with
  | false =>
      rw [hb] at hand
      have h0 : b.toInt32 &&& bitInChar i = 0 := Int32.toBitVec_inj.mp hand
      rw [h0]
      rfl
  | true =>
      rw [hb] at hand
      refine bne_iff_ne.mpr fun h0 => ?_
      have hbit := congrArg (fun v => v.getLsbD (i % 8)) hand
      rw [h0] at hbit
      simp [show i % 8 < 32 by omega] at hbit

/-- Setting a bit through the widened byte changes that bit alone. -/
theorem bitDe_or (b : Int8) (i j : Nat) :
    bitDe (b.toInt32 ||| bitInChar i).toInt8 j = if j % 8 = i % 8 then true else bitDe b j := by
  have hj : j % 8 < 8 := Nat.mod_lt j (by decide)
  rw [bitDe, getLsbD_toInt8 _ hj, Int32.toBitVec_or, BitVec.getLsbD_or, getLsbD_toInt32 b hj,
    toBitVec_bitInChar, BitVec.getLsbD_twoPow]
  by_cases h : j % 8 = i % 8
  · simp [h, show i % 8 < 32 by omega]
  · simp [h, Ne.symm h, bitDe]

/-- So does clearing it. -/
theorem bitDe_and (b : Int8) (i j : Nat) :
    bitDe (b.toInt32 &&& (~~~ (bitInChar i).toInt8.toUInt8).toUInt32.toInt32).toInt8 j
      = if j % 8 = i % 8 then false else bitDe b j := by
  have hj : j % 8 < 8 := Nat.mod_lt j (by decide)
  rw [bitDe, getLsbD_toInt8 _ hj, Int32.toBitVec_and, BitVec.getLsbD_and, getLsbD_toInt32 b hj,
    getLsbD_mascara i hj]
  by_cases h : j % 8 = i % 8
  · simp [h]
  · simp [h, bitDe]

end Byte

/-! ## The array -/

namespace Bitarray

variable {self : Bitarray} {i j n : Nat}

/-- A test reads the bit of its byte. -/
theorem testBit_eq (self : Bitarray) (i : Nat) :
    self.testBit i = bitDe (self.bitarray (i / 8)) i := bitDe_mascara _ i

theorem bitarray_conByte (self : Bitarray) (k : Nat) (byte : Int8) (k' : Nat) :
    (self.conByte k byte).bitarray k' = if k' = k then byte else self.bitarray k' :=
  Function.update_apply self.bitarray k byte k'

/-- An update of the byte of a bit that changes that bit alone. -/
theorem testBit_conByte {byte : Int8} {v : Bool}
    (h : ∀ j, bitDe byte j = if j % 8 = i % 8 then v else bitDe (self.bitarray (i / 8)) j)
    (j : Nat) :
    (self.conByte (i / 8) byte).testBit j = if j = i then v else self.testBit j := by
  rw [testBit_eq, testBit_eq, bitarray_conByte]
  by_cases hj : j / 8 = i / 8
  · have hji : j % 8 = i % 8 ↔ j = i := by omega
    rw [if_pos hj, h, hj]
    simp only [hji]
  · have hne : j ≠ i := fun heq => hj (by rw [heq])
    rw [if_neg hj, if_neg hne]

/-- After a set the bit is set and the others are as before. -/
theorem testBit_setBit (self : Bitarray) (i j : Nat) :
    (self.setBit i).testBit j = if j = i then true else self.testBit j :=
  testBit_conByte (bitDe_or (self.bitarray (i / 8)) i) j

/-- After a clean it is clear and the others are as before. -/
theorem testBit_cleanBit (self : Bitarray) (i j : Nat) :
    (self.cleanBit i).testBit j = if j = i then false else self.testBit j :=
  testBit_conByte (bitDe_and (self.bitarray (i / 8)) i) j

/-! ## The search -/

/-- A position that fits an int. -/
theorem toInt_ofNat (hn : n < 2 ^ 31) : (Int32.ofNat n).toInt = n :=
  Int32.toInt_ofNat_of_lt hn

theorem aSize_ofNat (hn : n < 2 ^ 31) : aSize (Int32.ofNat n) = n := by
  rw [aSize, toInt_ofNat hn]
  omega

/-- **THE SCAN** stops at the first clear bit, or at the bound: there the bit of
    the byte after the array is read but does not count. -/
theorem posicionDesde_eq (h : self.size < 2 ^ 28) : ∀ {turnos n : Nat},
    n ≤ self.size * 8 → self.size * 8 < n + turnos →
    ∃ m, n ≤ m ∧ m ≤ self.size * 8 ∧ self.posicionDesde turnos (Int32.ofNat n)
      = some (Int32.ofNat m)
      ∧ (∀ j, n ≤ j → j < m → self.testBit j = true)
      ∧ (m < self.size * 8 → self.testBit m = false) := by
  intro turnos
  induction turnos with
  | zero =>
      intro n hn hfin
      omega
  | succ turnos ih =>
      intro n hn hfin
      have hn31 : n < 2 ^ 31 := by omega
      rw [posicionDesde, toInt_ofNat hn31, aSize_ofNat hn31, Int.toNat_natCast]
      by_cases hsigue : (self.testBit n && decide (n < self.size * 8)) = true
      · obtain ⟨hbit, hlt⟩ := Bool.and_eq_true_iff.mp hsigue
        have hlt := of_decide_eq_true hlt
        have hmas : Int32.ofNat n + 1 = Int32.ofNat (n + 1) := (Int32.ofNat_add n 1).symm
        rw [if_pos hsigue, hmas]
        obtain ⟨m, h1, h2, heq, hunos, hfin⟩ := ih (n := n + 1) hlt (by omega)
        refine ⟨m, by omega, h2, heq, fun j hj hjm => ?_, hfin⟩
        rcases Nat.eq_or_lt_of_le hj with rfl | hj
        · exact hbit
        · exact hunos j hj hjm
      · rw [if_neg hsigue]
        refine ⟨n, Nat.le_refl n, hn, rfl, fun j h1 h2 => absurd h2 (by omega), fun hlt => ?_⟩
        cases hbit : self.testBit n with
        | false => rfl
        | true => exact absurd (Bool.and_eq_true_iff.mpr ⟨hbit, decide_eq_true hlt⟩) hsigue

/-- What the search answers: the least clear bit, or `-1` where there is none. -/
structure Encuentra (bits : Bitarray) (r : Int32) : Prop where
  menor : ∀ i : Nat, r.toInt = i ↔ IsLeast {i | i < 8 * bits.size ∧ bits.testBit i = false} i
  ninguno : r = -1 ↔ ∀ i, i < 8 * bits.size → bits.testBit i = true

/-- **THE SEARCH** ends and answers the first clear bit, or that there is none. -/
theorem buscarPosicionLibre_encuentra (h : self.size < 2 ^ 28) :
    ∃ r, self.buscarPosicionLibre = some r ∧ Encuentra self r := by
  obtain ⟨m, -, hm, heq, hunos, hfin⟩ :=
    @posicionDesde_eq self h (self.size * 8 + 1) 0 (Nat.zero_le _) (by omega)
  have hm31 : m < 2 ^ 31 := by omega
  rw [buscarPosicionLibre, show (0 : Int32) = Int32.ofNat 0 from rfl, heq, Option.map_some,
    aSize_ofNat hm31]
  by_cases htope : m = self.size * 8
  · rw [if_pos htope]
    have hlleno : ∀ i, i < 8 * self.size → self.testBit i = true := fun i hi =>
      hunos i (Nat.zero_le i) (by omega)
    refine ⟨-1, rfl, fun i => ⟨fun hi => ?_, fun hi => ?_⟩, iff_of_true rfl hlleno⟩
    · have hneg : (-1 : Int32).toInt = -1 := by decide
      omega
    · obtain ⟨hlt, hlibre⟩ := hi.1
      exact absurd ((hlleno i hlt).symm.trans hlibre) Bool.true_eq_false.mp
  · rw [if_neg htope]
    have hlt : m < self.size * 8 := Nat.lt_of_le_of_ne hm htope
    have hleast : IsLeast {i | i < 8 * self.size ∧ self.testBit i = false} m := by
      refine ⟨⟨by omega, hfin hlt⟩, fun i hi => ?_⟩
      by_contra hno
      exact absurd ((hunos i (Nat.zero_le i) (by omega)).symm.trans hi.2) Bool.true_eq_false.mp
    refine ⟨_, rfl, fun i => ?_, ⟨fun hmenos => ?_, fun hlleno => ?_⟩⟩
    · rw [toInt_ofNat hm31]
      constructor
      · intro hi
        obtain rfl : m = i := by omega
        exact hleast
      · intro hi
        rw [hleast.unique hi]
    · have hint := congrArg Int32.toInt hmenos
      rw [toInt_ofNat hm31] at hint
      have hneg : (-1 : Int32).toInt = -1 := by decide
      omega
    · exact absurd ((hlleno m (by omega)).symm.trans (hfin hlt)) Bool.true_eq_false.mp

/-- One answer does. -/
theorem Encuentra.unica {r r' : Int32} (h : Encuentra self r)
    (h' : Encuentra self r') : r = r' := by
  by_cases hlleno : ∀ i, i < 8 * self.size → self.testBit i = true
  · rw [h.ninguno.mpr hlleno, h'.ninguno.mpr hlleno]
  · have hhay : ∃ i, i < 8 * self.size ∧ self.testBit i = false := by
      by_contra hno
      exact hlleno fun i hi => by
        by_contra hbit
        exact hno ⟨i, hi, Bool.eq_false_iff.mpr hbit⟩
    have hleast : IsLeast {i | i < 8 * self.size ∧ self.testBit i = false} (Nat.find hhay) :=
      ⟨Nat.find_spec hhay, fun i hi => Nat.find_min' hhay hi⟩
    exact Int32.toInt_inj.mp (((h.menor _).mpr hleast).trans ((h'.menor _).mpr hleast).symm)

/-- The bytes after the array do not count. -/
theorem Encuentra.congr {otra : Bitarray} {r : Int32} (h : Encuentra self r)
    (hsize : otra.size = self.size)
    (hbytes : ∀ k, k < self.size → otra.bitarray k = self.bitarray k) :
    Encuentra otra r := by
  have hbit : ∀ i, i < 8 * self.size → otra.testBit i = self.testBit i := by
    intro i hi
    rw [testBit_eq, testBit_eq, hbytes (i / 8) (by omega)]
  have hset : {i | i < 8 * otra.size ∧ otra.testBit i = false}
      = {i | i < 8 * self.size ∧ self.testBit i = false} := by
    ext i
    rw [Set.mem_ofPred_eq, Set.mem_ofPred_eq, hsize]
    exact and_congr_right fun hi => by rw [hbit i hi]
  refine ⟨fun i => ?_, ?_⟩
  · rw [hset]
    exact h.menor i
  · rw [h.ninguno, hsize]
    exact forall_congr' fun i => forall_congr' fun hi => by rw [hbit i hi]

/-! ## The whole of it -/

/-- **BIT ARRAYS**: what bit `i` is, what the updates change, and what the
    search answers, whatever the memory holds after the array. -/
theorem bitarray_bits (self : Bitarray) (h : self.size < 2 ^ 28) :
    (∀ i, self.testBit i = (self.bitarray (i / 8)).toBitVec.getLsbD (i % 8))
      ∧ (∀ i, i < 8 * self.size → ∀ j,
        (self.setBit i).testBit j = if j = i then true else self.testBit j)
      ∧ (∀ i, i < 8 * self.size → ∀ j,
        (self.cleanBit i).testBit j = if j = i then false else self.testBit j)
      ∧ ∃ r, self.buscarPosicionLibre = some r ∧ Encuentra self r
        ∧ ∀ otra : Bitarray, otra.size = self.size →
          (∀ k, k < self.size → otra.bitarray k = self.bitarray k) →
          otra.buscarPosicionLibre = some r := by
  refine ⟨testBit_eq self, fun i _ => testBit_setBit self i, fun i _ => testBit_cleanBit self i, ?_⟩
  obtain ⟨r, heq, hr⟩ := self.buscarPosicionLibre_encuentra h
  refine ⟨r, heq, hr, fun otra hsize hbytes => ?_⟩
  obtain ⟨r', hotra, hr'⟩ := otra.buscarPosicionLibre_encuentra (by rwa [hsize])
  rw [hotra, hr'.unica (hr.congr hsize hbytes)]

/-- A full byte and one with its first two bits set, of three bytes of memory. -/
theorem bitarray_bits_dos :
    ∃ r, Encuentra ⟨fun k => if k = 1 then 3 else -1, 2⟩ r ∧ r = 10 := by
  obtain ⟨-, -, -, r, heq, hr, -⟩ :=
    bitarray_bits ⟨fun k => if k = 1 then 3 else -1, 2⟩ (by decide)
  exact ⟨r, hr, Option.some.inj (heq.symm.trans (by decide))⟩

end Bitarray

/-! ## Lists of bytes -/

section Lista

variable {l : List UInt8} {resto : Nat → Int8} {i k : Nat}

/-- The bytes of a list, and what comes after them in memory. -/
def enMemoria (l : List UInt8) (resto : Nat → Int8) : Bitarray :=
  ⟨fun k => ((l[k]?).map UInt8.toInt8).getD (resto k), l.length⟩

/-- The bytes of a list in memory. -/
theorem bitarray_enMemoria (hk : k < l.length) :
    (enMemoria l resto).bitarray k = (l.getD k 0).toInt8 := by
  simp [enMemoria, hk]

/-- A bit does not depend on the sign of its byte. -/
theorem bitDe_toInt8 (b : UInt8) (i : Nat) : bitDe b.toInt8 i = Rfs.bitDe b i := rfl

/-- Two bytes with the same bits. -/
theorem int8_ext {a b : Int8} (h : ∀ i, bitDe a i = bitDe b i) : a = b := by
  refine Int8.toBitVec_inj.mp (BitVec.eq_of_getLsbD_eq fun r hr => ?_)
  have hbit := h r
  rwa [bitDe, bitDe, Nat.mod_eq_of_lt hr] at hbit

/-- The test of the file system is the test of the code. -/
theorem testBit_enMemoria (hi : i < 8 * l.length) :
    (enMemoria l resto).testBit i = Rfs.bitarrayTestBit l i := by
  rw [Bitarray.testBit_eq, Rfs.bitarrayTestBit_eq, bitarray_enMemoria (by omega), bitDe_toInt8]

/-- A byte of the list is touched in memory. -/
theorem conByte_enMemoria {f : UInt8 → UInt8} {byte : Int8} (hk : k < l.length)
    (h : byte = (f (l.getD k 0)).toInt8) :
    (enMemoria l resto).conByte k byte = enMemoria (l.modify k f) resto := by
  have hget : ∀ j, ((enMemoria l resto).conByte k byte).bitarray j
      = (enMemoria (l.modify k f) resto).bitarray j := by
    intro j
    rw [Bitarray.bitarray_conByte]
    by_cases hj : j = k
    · subst hj
      rw [if_pos rfl, h, bitarray_enMemoria (by simpa using hk), Rfs.getD_modify hk, if_pos rfl]
    · have hjk : k ≠ j := fun heq => hj heq.symm
      simp [enMemoria, hj, hjk]
  rw [Bitarray.conByte, enMemoria, enMemoria, List.length_modify]
  exact congrArg (Bitarray.mk · l.length) (funext hget)

/-- The updates of the file system are those of the code. -/
theorem setBit_enMemoria (hi : i < 8 * l.length) :
    (enMemoria l resto).setBit i = enMemoria (Rfs.bitarraySetBit l i) resto := by
  have hk : bitChar i < l.length := Nat.div_lt_of_lt_mul hi
  refine conByte_enMemoria hk ?_
  rw [bitarray_enMemoria hk]
  refine int8_ext fun j => ?_
  rw [bitDe_or, bitDe_toInt8, bitDe_toInt8, Rfs.bitDe_or]

/-- Clearing a bit in memory is clearing it in the list. -/
theorem cleanBit_enMemoria (hi : i < 8 * l.length) :
    (enMemoria l resto).cleanBit i = enMemoria (Rfs.bitarrayCleanBit l i) resto := by
  have hk : bitChar i < l.length := Nat.div_lt_of_lt_mul hi
  refine conByte_enMemoria hk ?_
  rw [bitarray_enMemoria hk]
  refine int8_ext fun j => ?_
  rw [bitDe_and, bitDe_toInt8, bitDe_toInt8, Rfs.bitDe_and_not]

/-- So is the search, whose result the callers keep in a `uint32_t`. -/
theorem buscarPosicionLibre_enMemoria (h : l.length < 2 ^ 28) :
    ∃ r, (enMemoria l resto).buscarPosicionLibre = some r
      ∧ r.toUInt32.toNat = Rfs.bitarrayBuscarPosicionLibre l := by
  obtain ⟨r, heq, hr⟩ := (enMemoria l resto).buscarPosicionLibre_encuentra h
  refine ⟨r, heq, ?_⟩
  have hsize : (enMemoria l resto).size = l.length := rfl
  by_cases hlleno : ∀ i, i < 8 * l.length → Rfs.bitarrayTestBit l i = true
  · have hnone : (List.range (l.length * 8)).find? (fun pos => !Rfs.bitarrayTestBit l pos)
      = none := by
      refine List.find?_eq_none.mpr fun i hi => ?_
      have hi' := List.mem_range.mp hi
      simp [hlleno i (by omega)]
    have hmenos : r = -1 := hr.ninguno.mpr fun i hi => by
      rw [testBit_enMemoria hi, hlleno i hi]
    rw [hmenos, Rfs.bitarrayBuscarPosicionLibre, hnone]
    rfl
  · have hhay : ∃ i, i < 8 * l.length ∧ Rfs.bitarrayTestBit l i = false := by
      by_contra hno
      exact hlleno fun i hi => by
        by_contra hbit
        exact hno ⟨i, hi, Bool.eq_false_iff.mpr hbit⟩
    obtain ⟨i, hi, hlibre⟩ := hhay
    obtain ⟨pos, hpos, hle, hpbit⟩ := Rfs.buscarPosicionLibre_primera (by omega) hlibre
    have hlt : pos < 8 * (enMemoria l resto).size := by omega
    have hleast : IsLeast {i | i < 8 * (enMemoria l resto).size
        ∧ (enMemoria l resto).testBit i = false} pos := by
      refine ⟨⟨hlt, by rw [testBit_enMemoria (by omega), hpbit]⟩, fun j hj => ?_⟩
      obtain ⟨hj, hjlibre⟩ := hj
      rw [testBit_enMemoria (by omega)] at hjlibre
      obtain ⟨pos', hpos', hle', -⟩ := Rfs.buscarPosicionLibre_primera (by omega) hjlibre
      rwa [hpos.symm.trans hpos']
    have hint := (hr.menor pos).mpr hleast
    have hpos31 : pos < 2 ^ 31 := by omega
    have hr' : r = Int32.ofNat pos := Int32.toInt_inj.mp
      (hint.trans (Bitarray.toInt_ofNat hpos31).symm)
    rw [hr', hpos]
    show pos % 2 ^ 32 = pos
    omega

end Lista

end Commons
