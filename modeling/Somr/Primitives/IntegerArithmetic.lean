import Somr.Primitives.Numbers

/-!
Owns exact integer arithmetic: what the arithmetic primitives of Integer and
BigInteger push for operands in their canonical representation, and for which
operands of either class they push a result at all.

Every operation computes the exact result as a word. What differs is how it is
pushed: `%` and `&` of BigInteger push a BigInteger whatever the result is.
-/

namespace Somr.Primitives

open Somr.Foundation

variable {Float64 : Type}

/-! ### Values and their representation -/

/-- An Integer if the value fits in 32 bits, a BigInteger otherwise. -/
def represent (value : Int) : Number Float64 :=
  if Fits32 value then .integer (Int32.ofInt value) else .bigInteger (Int64.ofInt value)

/-- The completion pushes exactly `value`, as an Integer if and only if it fits. -/
def PushesExactly (completion : Completion Float64) (value : Int) : Prop :=
  ∃ number, completion = .push number ∧ number.value? = some value ∧
    (number.isInteger = true ↔ Fits32 value)

theorem pushesExactly_pushResult {word : Int64} {value : Int} (same : word.toInt = value) :
    PushesExactly (Integer.pushResult word : Completion Float64) value := by
  unfold Integer.pushResult
  by_cases fits : Fits32 word.toInt
  · have low := fits.1
    have high := fits.2
    rw [if_neg (by simp; omega)]
    refine ⟨_, rfl, congrArg some ((toInt_toInt32 fits).trans same), ?_⟩
    simp [Number.isInteger, ← same, fits]
  · have outside : word.toInt > 2147483647 ∨ word.toInt < -2147483648 := by
      by_contra inside
      exact fits ⟨by omega, by omega⟩
    rw [if_pos (by simpa using outside)]
    refine ⟨_, rfl, congrArg some same, ?_⟩
    simp [Number.isInteger, ← same, fits]

theorem pushesExactly_pushBigint {word : Int64} {value : Int} (same : word.toInt = value) :
    PushesExactly (BigInteger.pushBigint word : Completion Float64) value ↔ ¬ Fits32 value := by
  constructor
  · rintro ⟨number, pushed, _, canonical⟩ fits
    cases pushed
    exact Bool.noConfusion (canonical.mpr fits)
  · intro noFit
    exact ⟨_, rfl, congrArg some same, by simp [Number.isInteger, noFit]⟩

theorem pushIntOrBigint_eq_pushResult (word : Int64) :
    (BigInteger.pushIntOrBigint word : Completion Float64) = Integer.pushResult word := rfl

/-! ### The operators -/

inductive IntegerOperator where
  | plus | minus | star | slash | percent | and
deriving DecidableEq, Repr

namespace IntegerOperator

def selector : IntegerOperator → String
  | plus => "+"
  | minus => "-"
  | star => "*"
  | slash => "/"
  | percent => "%"
  | and => "&"

/-- The mathematical result; division and remainder truncate, the conjunction is
that of two's complement. -/
def exact : IntegerOperator → Int → Int → Int
  | plus => (· + ·)
  | minus => (· - ·)
  | star => (· * ·)
  | slash => Int.tdiv
  | percent => Int.tmod
  | and => Int.land

def divides : IntegerOperator → Bool
  | slash | percent => true
  | _ => false

/-- The operators whose BigInteger routine converts its result. -/
def converts : IntegerOperator → Bool
  | percent | and => false
  | _ => true

/-- The operation on words behind both routines. -/
def word? : IntegerOperator → Int64 → Int64 → Option Int64
  | plus => plus?
  | minus => minus?
  | star => star?
  | slash => slash?
  | percent => percent?
  | and => fun left right => some (left &&& right)

/-- How the BigInteger routine pushes its result. -/
def pushWide (op : IntegerOperator) : Int64 → Completion Float64 :=
  if op.converts then BigInteger.pushIntOrBigint else BigInteger.pushBigint

variable (arithmetic : DoubleArithmetic Float64)

theorem send_integer (op : IntegerOperator) (left right : Int32) :
    Number.send arithmetic (.integer left) op.selector (some (.integer right)) =
      .ofWord Integer.pushResult (op.word? left.toInt64 right.toInt64) := by
  cases op <;> rfl

theorem send_integer_bigInteger (op : IntegerOperator) (left : Int32) (right : Int64) :
    Number.send arithmetic (.integer left) op.selector (some (.bigInteger right)) =
      .ofWord op.pushWide (op.word? left.toInt64 right) := by
  cases op <;> rfl

theorem send_bigInteger_integer (op : IntegerOperator) (left : Int64) (right : Int32) :
    Number.send arithmetic (.bigInteger left) op.selector (some (.integer right)) =
      .ofWord op.pushWide (op.word? left right.toInt64) := by
  cases op <;> rfl

theorem send_bigInteger (op : IntegerOperator) (left right : Int64) :
    Number.send arithmetic (.bigInteger left) op.selector (some (.bigInteger right)) =
      .ofWord op.pushWide (op.word? left right) := by
  cases op <;> rfl

/-! ### The words computed -/

theorem fits64_tdiv {a b : Int} (fits : Fits64 a) (noOverflow : ¬ (a = -9223372036854775808 ∧
    b = -1)) : Fits64 (a.tdiv b) := by
  have low := fits.1
  have high := fits.2
  have absolute : (a.tdiv b).natAbs = a.natAbs / b.natAbs := Int.natAbs_tdiv a b
  by_cases one : b.natAbs = 1
  · rcases Int.natAbs_eq_iff.mp one with rfl | rfl
    · simpa using fits
    · have negated : a.tdiv (-1) = -a := by rw [Int.tdiv_neg, Int.tdiv_one]
      have other : a ≠ -9223372036854775808 := fun least => noOverflow ⟨least, rfl⟩
      change Fits64 (a.tdiv (-1))
      rw [negated]
      exact ⟨by omega, by omega⟩
  · have half : a.natAbs / b.natAbs ≤ a.natAbs / 2 := by
      by_cases zero : b.natAbs = 0
      · simp [zero]
      · exact Nat.div_le_div_left (by omega) (by decide)
    exact ⟨by omega, by omega⟩

/-- The word is the exact result; only a remainder can lack one. -/
theorem word?_eq {op : IntegerOperator} {left right : Int64}
    (divisor : op.divides = true → right.toInt ≠ 0)
    (fits : Fits64 (op.exact left.toInt right.toInt))
    (noOverflow : op = percent →
      ¬ (left.toInt = -9223372036854775808 ∧ right.toInt = -1)) :
    ∃ word, op.word? left right = some word ∧
      word.toInt = op.exact left.toInt right.toInt := by
  have exactly := toInt_ofInt64 fits
  cases op with
  | plus => exact ⟨_, toInt64?_eq_some_iff.mpr exactly, exactly⟩
  | minus => exact ⟨_, toInt64?_eq_some_iff.mpr exactly, exactly⟩
  | star => exact ⟨_, toInt64?_eq_some_iff.mpr exactly, exactly⟩
  | slash => exact ⟨_, (slash?_eq_some_iff (divisor rfl)).mpr exactly, exactly⟩
  | percent =>
      have quotient := fits64_tdiv (fits64_toInt left) (noOverflow rfl)
      have divided := (slash?_eq_some_iff (divisor rfl)).mpr (toInt_ofInt64 quotient)
      exact ⟨_, by rw [word?, percent?, divided]; rfl, exactly⟩
  | and => exact ⟨_, rfl, toInt_and64 left right⟩

/-- Without a conversion a BigInteger is pushed, if anything is. -/
theorem pushesExactly_wide_iff {op : IntegerOperator} {left right : Int64}
    (divisor : op.divides = true → right.toInt ≠ 0)
    (fits : Fits64 (op.exact left.toInt right.toInt)) :
    PushesExactly (.ofWord op.pushWide (op.word? left right) : Completion Float64)
        (op.exact left.toInt right.toInt) ↔
      (op.converts = true ∨ ¬ Fits32 (op.exact left.toInt right.toInt)) := by
  by_cases overflow : op = percent ∧ left.toInt = -9223372036854775808 ∧ right.toInt = -1
  · -- the quotient does not fit, so the remainder 0 is not computed
    obtain ⟨rfl, least, minusOne⟩ := overflow
    have undefined : percent? left right = none := by
      rw [percent?, slash?, if_neg (mt toInt_eq_zero_iff.mpr (divisor rfl)), least, minusOne]
      rfl
    have zero : Fits32 (exact percent left.toInt right.toInt) := by
      rw [least, minusOne]
      decide
    simp only [word?, undefined, Completion.ofWord, PushesExactly, converts, reduceCtorEq,
      false_and, exists_false, Bool.false_eq_true, zero, not_true_eq_false, or_self]
  · have noOverflow : op = percent →
        ¬ (left.toInt = -9223372036854775808 ∧ right.toInt = -1) :=
      fun isPercent both => overflow ⟨isPercent, both⟩
    obtain ⟨word, computed, same⟩ := word?_eq divisor fits noOverflow
    rw [computed, Completion.ofWord, pushWide]
    by_cases converting : op.converts = true
    · simp only [converting, if_true, true_or, iff_true]
      exact pushesExactly_pushResult same
    · simp only [converting, Bool.false_eq_true, if_false, false_or]
      exact pushesExactly_pushBigint same

theorem pushesExactly_integer {op : IntegerOperator} {left right : Int32}
    (divisor : op.divides = true → right.toInt ≠ 0)
    (fits : Fits64 (op.exact left.toInt right.toInt)) :
    PushesExactly (.ofWord Integer.pushResult (op.word? left.toInt64 right.toInt64) :
      Completion Float64) (op.exact left.toInt right.toInt) := by
  have low := (fits32_toInt left).1
  rw [← Int32.toInt_toInt64 left, ← Int32.toInt_toInt64 right] at *
  obtain ⟨word, computed, same⟩ := word?_eq divisor fits (fun _ both => by omega)
  rw [computed]
  exact pushesExactly_pushResult same

end IntegerOperator

/-- Exact, canonical results for all operands, but for `%` and `&` with a
BigInteger operand and a result that fits in 32 bits. -/
theorem pushes_exactly_iff (arithmetic : DoubleArithmetic Float64) (op : IntegerOperator)
    (a b : Int) (leftFits : Fits64 a) (rightFits : Fits64 b)
    (divisor : op.divides = true → b ≠ 0) (resultFits : Fits64 (op.exact a b)) :
    PushesExactly
        (Number.send arithmetic (represent a) op.selector (some (represent b))) (op.exact a b) ↔
      (op.converts = true ∨ (Fits32 a ∧ Fits32 b) ∨ ¬ Fits32 (op.exact a b)) := by
  unfold represent
  by_cases leftNarrow : Fits32 a
  · obtain ⟨left, rfl⟩ : ∃ left : Int32, left.toInt = a := ⟨_, toInt_ofInt32 leftNarrow⟩
    by_cases rightNarrow : Fits32 b
    · obtain ⟨right, rfl⟩ : ∃ right : Int32, right.toInt = b := ⟨_, toInt_ofInt32 rightNarrow⟩
      rw [if_pos leftNarrow, if_pos rightNarrow, Int32.ofInt_toInt, Int32.ofInt_toInt,
        op.send_integer]
      simp only [leftNarrow, rightNarrow, and_self, true_or, or_true, iff_true]
      exact op.pushesExactly_integer divisor resultFits
    · obtain ⟨right, rfl⟩ : ∃ right : Int64, right.toInt = b := ⟨_, toInt_ofInt64 rightFits⟩
      rw [if_pos leftNarrow, if_neg rightNarrow, Int32.ofInt_toInt, Int64.ofInt_toInt,
        op.send_integer_bigInteger]
      rw [← Int32.toInt_toInt64 left] at *
      simp only [rightNarrow, and_false, false_or]
      exact op.pushesExactly_wide_iff divisor resultFits
  · obtain ⟨left, rfl⟩ : ∃ left : Int64, left.toInt = a := ⟨_, toInt_ofInt64 leftFits⟩
    simp only [leftNarrow, false_and, false_or, if_false, Int64.ofInt_toInt]
    by_cases rightNarrow : Fits32 b
    · obtain ⟨right, rfl⟩ : ∃ right : Int32, right.toInt = b := ⟨_, toInt_ofInt32 rightNarrow⟩
      rw [if_pos rightNarrow, Int32.ofInt_toInt, op.send_bigInteger_integer]
      rw [← Int32.toInt_toInt64 right] at *
      exact op.pushesExactly_wide_iff divisor resultFits
    · obtain ⟨right, rfl⟩ : ∃ right : Int64, right.toInt = b := ⟨_, toInt_ofInt64 rightFits⟩
      rw [if_neg rightNarrow, Int64.ofInt_toInt, op.send_bigInteger]
      exact op.pushesExactly_wide_iff divisor resultFits

theorem pushes_exactly_carry :
    PushesExactly (Number.send integralDoubles (represent 2147483647)
      IntegerOperator.plus.selector (some (represent 1))) (IntegerOperator.plus.exact 2147483647 1) :=
  (pushes_exactly_iff integralDoubles .plus 2147483647 1 (by decide) (by decide) (by decide)
    (by decide)).mpr (.inl rfl)

/-- `4294967296 % 10` is 6 and comes as a BigInteger. -/
theorem remainder_not_converted :
    Number.send integralDoubles (represent 4294967296) "%" (some (represent 10)) =
        .push (.bigInteger 6) ∧
      ¬ PushesExactly
        (Number.send integralDoubles (represent 4294967296) "%" (some (represent 10))) 6 := by
  have pushed : Number.send integralDoubles (represent 4294967296) "%" (some (represent 10)) =
      .push (.bigInteger 6) := by decide
  refine ⟨pushed, ?_⟩
  rw [pushed]
  rintro ⟨number, same, _, canonical⟩
  cases same
  exact Bool.noConfusion (canonical.mpr (by decide))

/-! ### Results that are exact or reported -/

/-- The number of that value is pushed, or the program ends with an error. -/
def PushesOrReports (completion : Completion Float64) (value : Int) : Prop :=
  (∃ number, completion = .push number ∧ number.value? = some value) ∨
    ∃ message, completion = .errorExit message

namespace IntegerOperator

/-- A divisor that is not zero, a result that fits in 64 bits and, for a remainder,
a quotient that does. -/
def InRange (op : IntegerOperator) (a b : Int) : Prop :=
  (op.divides = true → b ≠ 0) ∧ Fits64 (op.exact a b) ∧
    (op = percent → ¬ (a = -9223372036854775808 ∧ b = -1))

theorem toInt64?_eq_none {value : Int} (noFit : ¬ Fits64 value) : toInt64? value = none :=
  if_neg noFit

theorem slash?_zero {left right : Int64} (zero : right.toInt = 0) : slash? left right = none :=
  if_pos (toInt_eq_zero_iff.mp zero)

/-- Outside its range an operation on words has no result. -/
theorem word?_eq_none {op : IntegerOperator} {left right : Int64}
    (outside : ¬ op.InRange left.toInt right.toInt) : op.word? left right = none := by
  by_cases divisor : op.divides = true → right.toInt ≠ 0
  · by_cases fits : Fits64 (op.exact left.toInt right.toInt)
    · -- only the quotient of a remainder is left
      have overflow : op = percent ∧ left.toInt = -9223372036854775808 ∧ right.toInt = -1 := by
        by_contra inside
        exact outside ⟨divisor, fits, fun isPercent both => inside ⟨isPercent, both⟩⟩
      obtain ⟨rfl, least, minusOne⟩ := overflow
      have quotient : slash? left right = none := by
        rw [slash?, if_neg (mt toInt_eq_zero_iff.mpr (divisor rfl)), least, minusOne]
        rfl
      rw [word?, percent?, quotient]
      rfl
    · cases op with
      | plus => exact toInt64?_eq_none fits
      | minus => exact toInt64?_eq_none fits
      | star => exact toInt64?_eq_none fits
      | slash =>
          rw [word?, slash?, if_neg (mt toInt_eq_zero_iff.mpr (divisor rfl))]
          exact toInt64?_eq_none fits
      | percent => exact absurd (fits64_tmod (fits64_toInt left)) fits
      | and =>
          have conjunction : Fits64 (exact and left.toInt right.toInt) := by
            have word := fits64_toInt (left &&& right)
            rwa [toInt_and64] at word
          exact absurd conjunction fits
  · have zero : right.toInt = 0 := by
      by_contra nonzero
      exact divisor fun _ => nonzero
    have isDivision : op.divides = true := by
      by_contra other
      exact divisor fun divides => absurd divides other
    cases op with
    | slash => exact slash?_zero zero
    | percent =>
        rw [word?, percent?, slash?_zero zero]
        rfl
    | plus => exact Bool.noConfusion isDivision
    | minus => exact Bool.noConfusion isDivision
    | star => exact Bool.noConfusion isDivision
    | and => exact Bool.noConfusion isDivision

/-- What either routine pushes is the word it computed. -/
theorem pushResult_value (word : Int64) : ∃ number : Number Float64,
    Integer.pushResult word = .push number ∧ number.value? = some word.toInt := by
  have pushes : PushesExactly (Integer.pushResult word : Completion Float64) word.toInt :=
    pushesExactly_pushResult rfl
  obtain ⟨number, pushed, value, _⟩ := pushes
  exact ⟨number, pushed, value⟩

theorem pushWide_value (op : IntegerOperator) (word : Int64) : ∃ number : Number Float64,
    op.pushWide word = .push number ∧ number.value? = some word.toInt := by
  unfold pushWide
  split
  · exact pushResult_value word
  · exact ⟨_, rfl, rfl⟩

theorem pushesOrReports_ofWord {op : IntegerOperator} {left right : Int64}
    {push : Int64 → Completion Float64}
    (pushes : ∀ word, ∃ number, push word = .push number ∧ number.value? = some word.toInt) :
    PushesOrReports (.ofWord push (op.word? left right)) (op.exact left.toInt right.toInt) ↔
      op.InRange left.toInt right.toInt := by
  constructor
  · intro completes
    by_contra outside
    rw [word?_eq_none outside] at completes
    rcases completes with ⟨number, pushed, _⟩ | ⟨message, ended⟩
    · cases pushed
    · cases ended
  · intro inside
    obtain ⟨word, computed, same⟩ := word?_eq inside.1 inside.2.1 inside.2.2
    obtain ⟨number, pushed, value⟩ := pushes word
    rw [computed]
    exact .inl ⟨number, pushed, value.trans (congrArg some same)⟩

end IntegerOperator

/-- For all operands of 64 bits, canonical or not, the result is exact or an error is
reported where the operation is in range, and nowhere else. -/
theorem pushesOrReports_iff (arithmetic : DoubleArithmetic Float64) (op : IntegerOperator)
    (receiver argument : Number Float64) (a b : Int) (receiverValue : receiver.value? = some a)
    (argumentValue : argument.value? = some b) :
    PushesOrReports (receiver.send arithmetic op.selector (some argument)) (op.exact a b) ↔
      op.InRange a b := by
  refine Number.values_cases ?_ ?_ ?_ ?_ receiverValue argumentValue
  · intro left right
    rw [op.send_integer, ← Int32.toInt_toInt64 left, ← Int32.toInt_toInt64 right]
    exact IntegerOperator.pushesOrReports_ofWord IntegerOperator.pushResult_value
  · intro left right
    rw [op.send_integer_bigInteger, ← Int32.toInt_toInt64 left]
    exact IntegerOperator.pushesOrReports_ofWord op.pushWide_value
  · intro left right
    rw [op.send_bigInteger_integer, ← Int32.toInt_toInt64 right]
    exact IntegerOperator.pushesOrReports_ofWord op.pushWide_value
  · intro left right
    rw [op.send_bigInteger]
    exact IntegerOperator.pushesOrReports_ofWord op.pushWide_value

theorem pushesOrReports_remainder :
    PushesOrReports (Number.send integralDoubles (.bigInteger 7)
      IntegerOperator.percent.selector (some (.integer (-1))))
      (IntegerOperator.percent.exact 7 (-1)) :=
  (pushesOrReports_iff integralDoubles .percent (.bigInteger 7) (.integer (-1)) 7 (-1) rfl
    rfl).mpr ⟨by decide, by decide, by decide⟩

/-- `1 / 0` divides by zero: nothing is pushed and no error is reported. -/
theorem division_by_zero_unchecked :
    Number.send integralDoubles (.integer 1) "/" (some (.integer 0)) = .undefined ∧
      ¬ PushesOrReports (Number.send integralDoubles (.integer 1) "/" (some (.integer 0)))
        (IntegerOperator.slash.exact 1 0) := by
  have divided : Number.send integralDoubles (.integer 1) "/" (some (.integer 0)) =
      .undefined := by decide
  refine ⟨divided, ?_⟩
  rw [divided]
  rintro (⟨number, pushed, _⟩ | ⟨message, ended⟩)
  · cases pushed
  · cases ended

end Somr.Primitives
