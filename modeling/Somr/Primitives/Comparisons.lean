import Somr.Primitives.Numbers

/-!
Owns the comparing methods of the integer classes: `>`, `>=`, `<=`, `<>` and
`between:and:` over the primitives `<` and `=`, with the Boolean methods they use.

Whatever the two representations, `<` and `=` compare the mathematical values, so
every comparison answers as the order of the integers does.
-/

namespace Somr.Primitives

open Somr.Foundation

variable {Float64 : Type}

/-! ### Booleans -/

/-- Go on with the Boolean that an expression answers; a comparison that ends
otherwise ends the expression around it. -/
def Completion.thenBoolean (completion : Completion Float64)
    (next : Bool → Completion Float64) : Completion Float64 :=
  match completion with
  | .answer truth => next truth
  | other => other

namespace Boolean

/-- `True>>not` and `False>>not`. -/
def not : Bool → Completion Float64
  | true => .answer false
  | false => .answer true

/-- `and:` evaluates its block if the receiver is true. -/
def and_ (block : Completion Float64) : Bool → Completion Float64
  | true => block
  | false => .answer false

/-- `or:` evaluates its block if the receiver is false. -/
def or_ (block : Completion Float64) : Bool → Completion Float64
  | true => .answer true
  | false => block

end Boolean

/-! ### Methods

The text is the same in Integer.som and BigInteger.som, and `<>` is inherited from
Object; every send to `self` is dispatched on the class of the receiver. -/

namespace Number

variable (arithmetic : DoubleArithmetic Float64)

/-- `self < argument`. -/
def less (self argument : Number Float64) : Completion Float64 :=
  self.send arithmetic "<" (some argument)

/-- `self = argument`. -/
def equals (self argument : Number Float64) : Completion Float64 :=
  self.send arithmetic "=" (some argument)

/-- `(self = argument) not`. -/
def differs (self argument : Number Float64) : Completion Float64 :=
  (self.equals arithmetic argument).thenBoolean Boolean.not

/-- `(self < argument) not`. -/
def greaterOrEqual (self argument : Number Float64) : Completion Float64 :=
  (self.less arithmetic argument).thenBoolean Boolean.not

/-- `(self >= argument) and: [ self <> argument ]`. -/
def greater (self argument : Number Float64) : Completion Float64 :=
  (self.greaterOrEqual arithmetic argument).thenBoolean
    (Boolean.and_ (self.differs arithmetic argument))

/-- `(self < argument) or: [ self = argument ]`. -/
def lessOrEqual (self argument : Number Float64) : Completion Float64 :=
  (self.less arithmetic argument).thenBoolean (Boolean.or_ (self.equals arithmetic argument))

/-- `(self > a) and: [ self < b ]`; neither bound is included. -/
def between_and_ (self a b : Number Float64) : Completion Float64 :=
  (self.greater arithmetic a).thenBoolean (Boolean.and_ (self.less arithmetic b))

/-! ### What the primitives compare -/

variable {arithmetic}

theorem less_eq {a b : Number Float64} {x y : Int} (leftValue : a.value? = some x)
    (rightValue : b.value? = some y) : a.less arithmetic b = .answer (decide (x < y)) := by
  refine values_cases ?_ ?_ ?_ ?_ leftValue rightValue
  · intro left right
    rfl
  · intro left right
    have resent : (integer left).less arithmetic (.bigInteger right) =
        .answer (decide (left.toInt64.toInt < right.toInt)) := rfl
    rw [resent, Int32.toInt_toInt64]
  · intro left right
    have widened : (bigInteger left).less arithmetic (.integer right) =
        .answer (decide (left.toInt < right.toInt64.toInt)) := rfl
    rw [widened, Int32.toInt_toInt64]
  · intro left right
    rfl

theorem equals_eq {a b : Number Float64} {x y : Int} (leftValue : a.value? = some x)
    (rightValue : b.value? = some y) : a.equals arithmetic b = .answer (decide (x = y)) := by
  refine values_cases ?_ ?_ ?_ ?_ leftValue rightValue
  · intro left right
    rfl
  · intro left right
    have resent : (integer left).equals arithmetic (.bigInteger right) =
        .answer (left.toInt64.toInt == right.toInt) := rfl
    rw [resent, Int32.toInt_toInt64]
    rfl
  · intro left right
    have widened : (bigInteger left).equals arithmetic (.integer right) =
        .answer (left.toInt == right.toInt64.toInt) := rfl
    rw [widened, Int32.toInt_toInt64]
    rfl
  · intro left right
    rfl

/-! ### What the methods answer -/

section

variable {a b c : Number Float64} {x y z : Int} (first : a.value? = some x)
  (second : b.value? = some y) (third : c.value? = some z)

include first second

theorem differs_eq : a.differs arithmetic b = .answer (decide (x ≠ y)) := by
  rw [differs, equals_eq first second]
  by_cases same : x = y
  · simp [Completion.thenBoolean, Boolean.not, same]
  · simp [Completion.thenBoolean, Boolean.not, same]

theorem greaterOrEqual_eq : a.greaterOrEqual arithmetic b = .answer (decide (y ≤ x)) := by
  rw [greaterOrEqual, less_eq first second]
  by_cases below : x < y
  · have notAbove : ¬ y ≤ x := Int.not_le.mpr below
    simp [Completion.thenBoolean, Boolean.not, below, notAbove]
  · have above : y ≤ x := Int.not_lt.mp below
    simp [Completion.thenBoolean, Boolean.not, below, above]

theorem greater_eq : a.greater arithmetic b = .answer (decide (y < x)) := by
  rw [greater, greaterOrEqual_eq first second, differs_eq first second]
  by_cases atLeast : y ≤ x
  · have strict : x ≠ y ↔ y < x :=
      ⟨fun apart => lt_of_le_of_ne atLeast (Ne.symm apart), ne_of_gt⟩
    simp only [Completion.thenBoolean, atLeast, decide_true, Boolean.and_, strict]
  · have notAbove : ¬ y < x := fun above => atLeast (le_of_lt above)
    simp only [Completion.thenBoolean, atLeast, decide_false, Boolean.and_, notAbove]

theorem lessOrEqual_eq : a.lessOrEqual arithmetic b = .answer (decide (x ≤ y)) := by
  rw [lessOrEqual, less_eq first second, equals_eq first second]
  by_cases below : x < y
  · have atMost : x ≤ y := le_of_lt below
    simp only [Completion.thenBoolean, below, decide_true, Boolean.or_, atMost]
  · have onlyEqual : x = y ↔ x ≤ y := ⟨le_of_eq, fun atMost => by omega⟩
    simp only [Completion.thenBoolean, below, decide_false, Boolean.or_, onlyEqual]

include third

theorem between_and_eq :
    a.between_and_ arithmetic b c = .answer (decide (y < x ∧ x < z)) := by
  rw [between_and_, greater_eq first second, less_eq first third]
  by_cases above : y < x
  · simp [Completion.thenBoolean, Boolean.and_, above]
  · simp [Completion.thenBoolean, Boolean.and_, above]

end

/-! ### The order -/

variable (arithmetic)

/-- Exactly one of `a < b`, `a = b` and `b < a` answers true, and none fails to answer. -/
def Trichotomous (a b : Number Float64) : Prop :=
  ∃ below same above, a.less arithmetic b = .answer below ∧
    a.equals arithmetic b = .answer same ∧ b.less arithmetic a = .answer above ∧
    [below, same, above].count true = 1

/-- The comparisons of three integers are those of their values. -/
structure OrderedAs (a b c : Number Float64) (x y z : Int) : Prop where
  trichotomous : Trichotomous arithmetic a b
  less_trans : a.less arithmetic b = .answer true → b.less arithmetic c = .answer true →
    a.less arithmetic c = .answer true
  equals_trans : a.equals arithmetic b = .answer true → b.equals arithmetic c = .answer true →
    a.equals arithmetic c = .answer true
  less : a.less arithmetic b = .answer (decide (x < y))
  equals : a.equals arithmetic b = .answer (decide (x = y))
  greater : a.greater arithmetic b = .answer (decide (y < x))
  greaterOrEqual : a.greaterOrEqual arithmetic b = .answer (decide (y ≤ x))
  lessOrEqual : a.lessOrEqual arithmetic b = .answer (decide (x ≤ y))
  differs : a.differs arithmetic b = .answer (decide (x ≠ y))
  between : a.between_and_ arithmetic b c = .answer (decide (y < x ∧ x < z))

variable {arithmetic}

theorem answer_true_iff {proposition : Prop} [Decidable proposition] :
    (Completion.answer (decide proposition) : Completion Float64) = .answer true ↔
      proposition := by
  rw [Completion.answer.injEq, decide_eq_true_iff]

theorem trichotomous_of_values {a b : Number Float64} {x y : Int} (first : a.value? = some x)
    (second : b.value? = some y) : Trichotomous arithmetic a b := by
  refine ⟨_, _, _, less_eq first second, equals_eq first second, less_eq second first, ?_⟩
  rcases Int.lt_trichotomy x y with below | same | above
  · simp [below, Int.ne_of_lt below, Int.lt_asymm below]
  · simp [same]
  · simp [above, Int.ne_of_gt above, Int.lt_asymm above]

end Number

/-- All integers of either class are ordered as their values are. -/
theorem comparisons_ordered (arithmetic : DoubleArithmetic Float64) (a b c : Number Float64)
    (x y z : Int) (first : a.value? = some x) (second : b.value? = some y)
    (third : c.value? = some z) : Number.OrderedAs arithmetic a b c x y z where
  trichotomous := Number.trichotomous_of_values first second
  less_trans := by
    rw [Number.less_eq first second, Number.less_eq second third, Number.less_eq first third,
      Number.answer_true_iff, Number.answer_true_iff, Number.answer_true_iff]
    exact Int.lt_trans
  equals_trans := by
    rw [Number.equals_eq first second, Number.equals_eq second third,
      Number.equals_eq first third, Number.answer_true_iff, Number.answer_true_iff,
      Number.answer_true_iff]
    exact Eq.trans
  less := Number.less_eq first second
  equals := Number.equals_eq first second
  greater := Number.greater_eq first second
  greaterOrEqual := Number.greaterOrEqual_eq first second
  lessOrEqual := Number.lessOrEqual_eq first second
  differs := Number.differs_eq first second
  between := Number.between_and_eq first second third

/-- An Integer between a BigInteger of a small value and one of a large value. -/
theorem comparisons_ordered_mixed :
    Number.OrderedAs integralDoubles (.integer 5) (.bigInteger 3) (.bigInteger 4294967296) 5 3
      4294967296 :=
  comparisons_ordered integralDoubles (.integer 5) (.bigInteger 3) (.bigInteger 4294967296) 5 3
    4294967296 rfl rfl rfl

end Somr.Primitives
