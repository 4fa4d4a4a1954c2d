import Mathlib.Data.Int.Bitwise
import Mathlib.Tactic.Ring

/-!
Owns signed arithmetic on 64-bit words as the language definition gives it: an
operation whose exact result does not fit has no result, and neither has a
division by zero.

Each partial operation is characterised by the exact result on the integers.
The bitwise conjunction of two words is that of their values in unbounded two's
complement.
-/

namespace Somr.Foundation

/-- The values of a signed word of 32 bits. -/
def Fits32 (value : Int) : Prop := -2147483648 ≤ value ∧ value ≤ 2147483647

/-- The values of a signed word of 64 bits. -/
def Fits64 (value : Int) : Prop :=
  -9223372036854775808 ≤ value ∧ value ≤ 9223372036854775807

instance (value : Int) : Decidable (Fits32 value) := inferInstanceAs (Decidable (_ ∧ _))

instance (value : Int) : Decidable (Fits64 value) := inferInstanceAs (Decidable (_ ∧ _))

theorem fits32_toInt (word : Int32) : Fits32 word.toInt := by
  have low := word.le_toInt
  have high := word.toInt_lt
  exact ⟨by omega, by omega⟩

theorem fits64_toInt (word : Int64) : Fits64 word.toInt := by
  have low := word.le_toInt
  have high := word.toInt_lt
  exact ⟨by omega, by omega⟩

theorem Fits32.fits64 {value : Int} (fits : Fits32 value) : Fits64 value :=
  ⟨by have := fits.1; omega, by have := fits.2; omega⟩

theorem toInt_ofInt32 {value : Int} (fits : Fits32 value) : (Int32.ofInt value).toInt = value :=
  Int32.toInt_ofInt_of_le (by have := fits.1; omega) (by have := fits.2; omega)

theorem toInt_ofInt64 {value : Int} (fits : Fits64 value) : (Int64.ofInt value).toInt = value :=
  Int64.toInt_ofInt_of_le (by have := fits.1; omega) (by have := fits.2; omega)

/-- Narrowing keeps a value that fits. -/
theorem toInt_toInt32 {word : Int64} (fits : Fits32 word.toInt) :
    word.toInt32.toInt = word.toInt := by
  have low := fits.1
  have high := fits.2
  rw [Int64.toInt_toInt32]
  exact Int.bmod_eq_of_le (by omega) (by omega)

/-! ### Signed and unsigned words -/

theorem toInt_ofUInt32 {word : UInt32} (small : word.toNat < 2147483648) :
    word.toInt32.toInt = word.toNat := by
  have same : word.toInt32.toBitVec.toNat = word.toNat := rfl
  rw [Int32.toInt, BitVec.toInt_eq_toNat_cond, same]
  split <;> omega

theorem toNat_toUInt32 (value : Int32) :
    (value.toUInt32.toNat : Int) = value.toInt % 4294967296 := by
  have same : value.toUInt32.toNat = value.toBitVec.toNat := rfl
  have bound := value.toBitVec.isLt
  rw [Int32.toInt, BitVec.toInt_eq_toNat_cond, same]
  split <;> omega

theorem toInt_succ {i : Int32} {k : Nat} (position : i.toInt = k) (small : k < 2147483647) :
    (i + 1).toInt = (k + 1 : Nat) := by
  have one : (1 : Int32).toInt = 1 := rfl
  rw [Int32.toInt_add, position, one]
  exact Int.bmod_eq_of_le (by omega) (by omega)

/-- `i - 1`, with the least index wrapping around. -/
theorem toInt_pred (index : Int32) :
    (index - 1).toInt = if index.toInt = -2147483648 then 2147483647 else index.toInt - 1 := by
  have one : (1 : Int32).toInt = 1 := rfl
  have low := index.le_toInt
  have high := index.toInt_lt
  rw [Int32.toInt_sub, one]
  split
  · next least =>
      rw [least]
      rfl
  · next other => exact Int.bmod_eq_of_le (by omega) (by omega)

/-! ### Partial operations -/

def toInt64? (exact : Int) : Option Int64 :=
  if Fits64 exact then some (Int64.ofInt exact) else none

theorem toInt64?_eq_some_iff {exact : Int} {word : Int64} :
    toInt64? exact = some word ↔ word.toInt = exact := by
  unfold toInt64?
  by_cases fits : Fits64 exact
  · rw [if_pos fits, Option.some.injEq]
    constructor
    · rintro rfl
      exact toInt_ofInt64 fits
    · rintro rfl
      exact Int64.ofInt_toInt word
  · rw [if_neg fits]
    constructor
    · intro impossible
      cases impossible
    · rintro rfl
      exact absurd (fits64_toInt word) fits

def plus? (left right : Int64) : Option Int64 := toInt64? (left.toInt + right.toInt)

def minus? (left right : Int64) : Option Int64 := toInt64? (left.toInt - right.toInt)

def star? (left right : Int64) : Option Int64 := toInt64? (left.toInt * right.toInt)

/-- Division truncates towards zero. -/
def slash? (left right : Int64) : Option Int64 :=
  if right = 0 then none else toInt64? (left.toInt.tdiv right.toInt)

/-- The remainder is defined where the quotient is. -/
def percent? (left right : Int64) : Option Int64 :=
  (slash? left right).map fun _ => Int64.ofInt (left.toInt.tmod right.toInt)

theorem toInt_eq_zero_iff {word : Int64} : word.toInt = 0 ↔ word = 0 := by
  rw [← Int64.toInt_inj, Int64.toInt_zero]

theorem slash?_eq_some_iff {left right word : Int64} (divisor : right.toInt ≠ 0) :
    slash? left right = some word ↔ word.toInt = left.toInt.tdiv right.toInt := by
  rw [slash?, if_neg (mt toInt_eq_zero_iff.mpr divisor), toInt64?_eq_some_iff]

theorem fits64_tmod {left right : Int} (fits : Fits64 left) : Fits64 (left.tmod right) := by
  have absolute := Int.natAbs_tmod left right
  have bound := Nat.mod_le left.natAbs right.natAbs
  have low := fits.1
  have high := fits.2
  have nonneg : 0 ≤ left → 0 ≤ left.tmod right := Int.tmod_nonneg right
  have nonpos : left ≤ 0 → left.tmod right ≤ 0 := by
    intro below
    have flipped := Int.tmod_nonneg right (Int.neg_nonneg_of_nonpos below)
    rw [Int.neg_tmod] at flipped
    omega
  exact ⟨by omega, by omega⟩

/-! ### Bitwise conjunction -/

theorem toInt_eq_cases {width : Nat} (word : BitVec width) :
    word.toInt = if word.msb then Int.negSucc (~~~word).toNat else Int.ofNat word.toNat := by
  have bound := word.isLt
  rw [BitVec.toInt_eq_msb_cond]
  split
  · rw [BitVec.toNat_not, Int.negSucc_eq]
    omega
  · rfl

theorem toNat_and_not {width : Nat} (left right : BitVec width) :
    (left &&& ~~~right).toNat = Nat.ldiff left.toNat right.toNat := by
  apply Nat.eq_of_testBit_eq
  intro i
  rw [Nat.testBit_ldiff, BitVec.testBit_toNat, BitVec.testBit_toNat, BitVec.testBit_toNat,
    BitVec.getLsbD_and, BitVec.getLsbD_not]
  by_cases inside : i < width
  · simp [inside]
  · simp [BitVec.getLsbD_of_ge left i (by omega)]

theorem toInt_and {width : Nat} (left right : BitVec width) :
    (left &&& right).toInt = Int.land left.toInt right.toInt := by
  rw [toInt_eq_cases (left &&& right), toInt_eq_cases left, toInt_eq_cases right, BitVec.msb_and]
  cases left.msb <;> cases right.msb
  · rfl
  · have same := toNat_and_not left (~~~right)
    rw [BitVec.not_not] at same
    exact congrArg Int.ofNat same
  · have same := toNat_and_not right (~~~left)
    rw [BitVec.not_not, BitVec.and_comm] at same
    exact congrArg Int.ofNat same
  · have same : (~~~(left &&& right)).toNat = (~~~left).toNat ||| (~~~right).toNat := by
      rw [BitVec.not_and, BitVec.toNat_or]
    exact congrArg Int.negSucc same

theorem toInt_and64 (left right : Int64) :
    (left &&& right).toInt = Int.land left.toInt right.toInt := by
  have words := toInt_and left.toBitVec right.toBitVec
  rwa [← Int64.toBitVec_and] at words

end Somr.Foundation
