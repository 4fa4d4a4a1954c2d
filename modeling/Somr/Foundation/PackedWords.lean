import Mathlib.Data.Nat.Bitwise

/-!
Owns words that keep a number above some low bits: how the two parts are read, and
what updates of either part do to the other.

The number is read back whole if and only if it leaves the low bits free.
-/

namespace Somr.Foundation

namespace PackedWord

variable {width bits : Nat}

/-- The number above the low bits. -/
def upper (bits : Nat) (word : BitVec width) : BitVec width := word >>> bits

/-- The low bits. -/
def lower (bits : Nat) (word : BitVec width) : BitVec bits := word.setWidth bits

/-- A mask without a bit above the low bits. -/
def IsLow (bits : Nat) (mask : BitVec width) : Prop := mask.toNat < 2 ^ bits

theorem upper_isLow {mask : BitVec width} (low : IsLow bits mask) :
    upper bits mask = BitVec.ofNat width 0 := by
  apply BitVec.eq_of_toNat_eq
  rw [upper, BitVec.toNat_ushiftRight, Nat.shiftRight_eq_div_pow, Nat.div_eq_of_lt low]
  exact BitVec.toNat_zero.symm

theorem getLsbD_isLow {mask : BitVec width} (low : IsLow bits mask) (i : Nat) :
    mask.getLsbD (bits + i) = false := by
  have shifted : (upper bits mask).getLsbD i = mask.getLsbD (bits + i) :=
    BitVec.getLsbD_ushiftRight mask bits i
  rw [← shifted, upper_isLow low]
  exact BitVec.getLsbD_zero

/-! ### Updates of the low bits -/

/-- Clearing and setting low bits leaves the number alone. -/
theorem upper_update (word : BitVec width) {clear set : BitVec width} (clearLow : IsLow bits clear)
    (setLow : IsLow bits set) : upper bits ((word &&& ~~~clear) ||| set) = upper bits word := by
  apply BitVec.eq_of_getLsbD_eq
  intro i inside
  rw [upper, upper, BitVec.getLsbD_ushiftRight, BitVec.getLsbD_ushiftRight, BitVec.getLsbD_or,
    BitVec.getLsbD_and, BitVec.getLsbD_not, getLsbD_isLow clearLow, getLsbD_isLow setLow]
  by_cases within : bits + i < width
  · simp [within]
  · simp [BitVec.getLsbD_of_ge word (bits + i) (by omega)]

theorem lower_update (word clear set : BitVec width) (fits : bits ≤ width) :
    lower bits ((word &&& ~~~clear) ||| set) =
      (lower bits word &&& ~~~lower bits clear) ||| lower bits set := by
  rw [lower, BitVec.setWidth_or, BitVec.setWidth_and, BitVec.setWidth_not fits]
  rfl

/-! ### Packing -/

/-- The number comes back if and only if no bit of it was shifted out. -/
theorem upper_shiftLeft_eq_iff (number : BitVec width) (fits : bits ≤ width) :
    upper bits (number <<< bits) = number ↔ number.toNat < 2 ^ (width - bits) := by
  have split : 2 ^ width = 2 ^ (width - bits) * 2 ^ bits := by
    rw [← Nat.pow_add, Nat.sub_add_cancel fits]
  have positive : 0 < 2 ^ bits := Nat.two_pow_pos bits
  have value : (upper bits (number <<< bits)).toNat = number.toNat % 2 ^ (width - bits) := by
    rw [upper, BitVec.toNat_ushiftRight, BitVec.toNat_shiftLeft, Nat.shiftRight_eq_div_pow,
      Nat.shiftLeft_eq, split, Nat.mul_mod_mul_right, Nat.mul_div_cancel _ positive]
  constructor
  · intro same
    rw [← same, value]
    exact Nat.mod_lt _ (Nat.two_pow_pos _)
  · intro small
    apply BitVec.eq_of_toNat_eq
    rw [value, Nat.mod_eq_of_lt small]

theorem upper_pack (number : BitVec width) {low : BitVec width} (isLow : IsLow bits low) :
    upper bits (number <<< bits ||| low) = upper bits (number <<< bits) := by
  have noLow : low >>> bits = BitVec.ofNat width 0 := upper_isLow isLow
  rw [upper, BitVec.ushiftRight_or_distrib, noLow, BitVec.or_zero]
  rfl

theorem lower_pack (number low : BitVec width) (fits : bits ≤ width) :
    lower bits (number <<< bits ||| low) = lower bits low := by
  apply BitVec.eq_of_getLsbD_eq
  intro i inside
  have withinWidth : i < width := Nat.lt_of_lt_of_le inside fits
  simp [lower, inside, BitVec.getLsbD_shiftLeft]

/-! ### Multiples -/

/-- Without its low bits a word is the multiple below it. -/
theorem toNat_clear (word mask : BitVec width) (isMask : mask.toNat = 2 ^ bits - 1) :
    (word &&& ~~~mask).toNat = word.toNat / 2 ^ bits * 2 ^ bits := by
  apply Nat.eq_of_testBit_eq
  intro i
  rw [Nat.mul_comm, Nat.testBit_two_pow_mul, Nat.testBit_div_two_pow, BitVec.testBit_toNat,
    BitVec.testBit_toNat, BitVec.getLsbD_and, BitVec.getLsbD_not]
  have maskBit : mask.getLsbD i = decide (i < bits) := by
    rw [← BitVec.testBit_toNat, isMask, Nat.testBit_two_pow_sub_one]
  rw [maskBit]
  by_cases low : i < bits
  · simp [low, Nat.not_le.mpr low]
  · have above : bits ≤ i := Nat.le_of_not_lt low
    have same : i - bits + bits = i := Nat.sub_add_cancel above
    by_cases within : i < width
    · simp [low, above, same, within]
    · simp [above, same, BitVec.getLsbD_of_ge word i (by omega)]

end PackedWord
end Somr.Foundation
