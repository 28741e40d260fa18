import Mathlib.Logic.Function.Basic
import Mathlib.Algebra.Order.Ring.Int

/-! # Bit arrays in memory

    `commons/bitarray.c` over the bytes the code has: a `char` is signed and is
    promoted to `int` with its sign, and the memory goes on after the array. -/

namespace Commons

/-- `t_bitarray`: the memory from the pointer on, of which the first `size`
    bytes are the array. -/
structure Bitarray where
  bitarray : Nat → Int8
  size : Nat

/-- `BIT_CHAR`. -/
def bitChar (bit : Nat) : Nat := bit / 8

/-- `BIT_IN_CHAR`, an `int`. -/
def bitInChar (bit : Nat) : Int32 := 0x80 >>> Int32.ofNat (8 - 1 - bit % 8)

/-- An `int32_t` where the other operand is a `size_t`. -/
def aSize (pos : Int32) : Nat := (pos.toInt % 2 ^ 64).toNat

namespace Bitarray

/-- `bitarray_test_bit`. -/
def testBit (self : Bitarray) (bitIndex : Nat) : Bool :=
  ((self.bitarray (bitChar bitIndex)).toInt32 &&& bitInChar bitIndex) != 0

/-- One byte of the memory gets another value. -/
def conByte (self : Bitarray) (k : Nat) (byte : Int8) : Bitarray :=
  { self with bitarray := Function.update self.bitarray k byte }

/-- `bitarray_set_bit`. -/
def setBit (self : Bitarray) (bitIndex : Nat) : Bitarray :=
  self.conByte (bitChar bitIndex)
    ((self.bitarray (bitChar bitIndex)).toInt32 ||| bitInChar bitIndex).toInt8

/-- `bitarray_clean_bit`; the mask is an `unsigned char`. -/
def cleanBit (self : Bitarray) (bitIndex : Nat) : Bitarray :=
  let mask : UInt8 := ~~~ (bitInChar bitIndex).toInt8.toUInt8
  self.conByte (bitChar bitIndex)
    ((self.bitarray (bitChar bitIndex)).toInt32 &&& mask.toUInt32.toInt32).toInt8

/-- The loop of `bitarray_buscarPosicionLibre`: the bit is tested before the
    bound. -/
def posicionDesde (self : Bitarray) : Nat → Int32 → Option Int32
  | 0, _ => none
  | turnos + 1, pos =>
      if self.testBit pos.toInt.toNat && decide (aSize pos < self.size * 8) then
        posicionDesde self turnos (pos + 1)
      else some pos

/-- `bitarray_buscarPosicionLibre`. -/
def buscarPosicionLibre (self : Bitarray) : Option Int32 :=
  (self.posicionDesde (self.size * 8 + 1) 0).map fun pos =>
    if aSize pos = self.size * 8 then -1 else pos

end Bitarray

end Commons
