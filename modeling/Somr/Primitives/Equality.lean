import Somr.Primitives.HashCodes

/-!
Owns `=` over the classes of the core objects: which argument each implementation
can take, and that two answers given in either order are the same.

Integer, String and the identity of Object take every object. BigInteger takes
whatever is no Integer for a BigInteger, and Double ends the program for whatever
is no number.
-/

namespace Somr.Primitives

open Somr.Foundation

variable {Float64 : Type} (arithmetic : DoubleArithmetic Float64)

namespace Content

/-- Can `=` of the receiver's class take an argument of the other's? -/
def takes : Content Float64 → Content Float64 → Bool
  | .number (.bigInteger _), .number (.integer _) => true
  | .number (.bigInteger _), .number (.bigInteger _) => true
  | .number (.bigInteger _), _ => false
  | .number (.double _), .number _ => true
  | .number (.double _), _ => false
  | _, _ => true

/-- The answer to `a = b` where there is one. -/
def answers (receiver argument : Content Float64) (identical : Bool) : Bool :=
  (receiver.isIdentity && identical) || receiver.agrees arithmetic argument

end Content

/-! ### One comparison -/

theorem equal_of_takes {store : Store Float64} {a b : Address}
    (takes : (store a).takes (store b) = true) :
    equal arithmetic store a b =
      .answer ((store a).answers arithmetic (store b) (equalequal a b)) := by
  unfold equal
  cases receiver : store a with
  | string chars => cases store b <;> rfl
  | symbol chars => simp [Content.answers, Content.isIdentity, Content.agrees]
  | plain => simp [Content.answers, Content.isIdentity, Content.agrees]
  | number left =>
      rw [receiver] at takes
      cases argument : store b with
      | number right =>
          rw [argument] at takes
          have noWrongKind : (left.isBigInteger && right.isDouble) = false := by
            cases left <;> cases right <;> first | rfl | exact Bool.noConfusion takes
          simp [Content.operand, send_equal, noWrongKind, Content.answers, Content.isIdentity]
      | string | symbol | plain =>
          rw [argument] at takes
          cases left <;> first | rfl | exact Bool.noConfusion takes

/-- An argument that is not taken leaves `=` without an answer. -/
theorem equal_of_not_takes {store : Store Float64} {a b : Address}
    (foreign : (store a).takes (store b) = false) (truth : Bool) :
    equal arithmetic store a b ≠ .answer truth := by
  unfold equal
  cases receiver : store a with
  | string | symbol | plain =>
      rw [receiver] at foreign
      cases argument : store b <;> exact Bool.noConfusion foreign
  | number left =>
      rw [receiver] at foreign
      intro answered
      cases left with
      | integer value => cases argument : store b <;> exact Bool.noConfusion foreign
      | bigInteger value =>
          cases argument : store b with
          | number right =>
              rw [argument] at foreign answered
              cases right with
              | integer | bigInteger => exact Bool.noConfusion foreign
              | double other => cases answered
          | string | symbol | plain =>
              rw [argument] at answered
              cases answered
      | double value =>
          cases argument : store b with
          | number right =>
              rw [argument] at foreign
              exact Bool.noConfusion foreign
          | string | symbol | plain =>
              rw [argument] at answered
              cases answered

/-! ### Both orders -/

/-- Contents are compared alike in both orders where each is taken by the other. -/
theorem agrees_comm (symmetric : ∀ l r, arithmetic.equal l r = arithmetic.equal r l)
    {left right : Content Float64} (forward : left.takes right = true)
    (backward : right.takes left = true) :
    left.agrees arithmetic right = right.agrees arithmetic left := by
  cases left with
  | number l =>
      cases right with
      | number r =>
          cases l with
          | integer => cases r <;> first | exact Bool.beq_comm | exact symmetric _ _
          | bigInteger =>
              cases r with
              | integer | bigInteger => exact Bool.beq_comm
              | double => exact Bool.noConfusion forward
          | double =>
              cases r with
              | integer | double => exact symmetric _ _
              | bigInteger => exact Bool.noConfusion backward
      | string | symbol | plain => cases l <;> rfl
  | string l =>
      cases right with
      | number r => cases r <;> rfl
      | string r => exact Bool.beq_comm
      | symbol | plain => rfl
  | symbol | plain =>
      cases right with
      | number r => cases r <;> rfl
      | string | symbol | plain => rfl

/-- Identity is asked of one object, or fails in both orders. -/
theorem answers_comm (symmetric : ∀ l r, arithmetic.equal l r = arithmetic.equal r l)
    {store : Store Float64} {a b : Address} (forward : (store a).takes (store b) = true)
    (backward : (store b).takes (store a) = true) :
    (store a).answers arithmetic (store b) (equalequal a b) =
      (store b).answers arithmetic (store a) (equalequal b a) := by
  by_cases same : a = b
  · rw [same]
  · have apart : equalequal a b = false := beq_eq_false_iff_ne.mpr same
    have otherApart : equalequal b a = false := beq_eq_false_iff_ne.mpr (Ne.symm same)
    simp only [Content.answers, apart, otherApart, Bool.and_false, Bool.false_or]
    exact agrees_comm arithmetic symmetric forward backward

/-- Both orders complete with one answer exactly where either implementation takes the
other object. -/
theorem equality_symmetric_iff
    (symmetric : ∀ l r, arithmetic.equal l r = arithmetic.equal r l) (store : Store Float64)
    (a b : Address) :
    (∃ truth, equal arithmetic store a b = .answer truth ∧
        equal arithmetic store b a = .answer truth) ↔
      (store a).takes (store b) = true ∧ (store b).takes (store a) = true := by
  constructor
  · rintro ⟨truth, forward, backward⟩
    constructor
    · by_contra foreign
      exact equal_of_not_takes arithmetic (Bool.eq_false_iff.mpr foreign) truth forward
    · by_contra foreign
      exact equal_of_not_takes arithmetic (Bool.eq_false_iff.mpr foreign) truth backward
  · rintro ⟨forward, backward⟩
    have first := equal_of_takes arithmetic forward
    have second := equal_of_takes arithmetic backward
    rw [← answers_comm arithmetic symmetric forward backward] at second
    exact ⟨_, first, second⟩

theorem equality_symmetric_strings :
    ∃ truth, equal integralDoubles twoStrings 8 24 = .answer truth ∧
      equal integralDoubles twoStrings 24 8 = .answer truth :=
  (equality_symmetric_iff integralDoubles (fun _ _ => Bool.beq_comm) twoStrings 8 24).mpr
    (by decide)

/-- A BigInteger at one address, a string at another and plain objects elsewhere. -/
def mixedObjects : Store Int := fun a =>
  if a = 8 then .number (.bigInteger 2147483648)
  else if a = 16 then .string ['a']
  else .plain

/-- A BigInteger takes the string for a BigInteger; the string answers false. -/
theorem equality_depends_on_order :
    equal integralDoubles mixedObjects 8 16 = .reinterprets ∧
      equal integralDoubles mixedObjects 16 8 = .answer false ∧
      ¬ ∃ truth, equal integralDoubles mixedObjects 8 16 = .answer truth ∧
        equal integralDoubles mixedObjects 16 8 = .answer truth := by
  have forward : equal integralDoubles mixedObjects 8 16 = .reinterprets := by decide
  refine ⟨forward, by decide, ?_⟩
  rintro ⟨truth, answered, _⟩
  rw [forward] at answered
  cases answered

end Somr.Primitives
