import Somr.Foundation.TextSearch
import Somr.Primitives.Numbers

/-!
Owns equality and hash codes of the core objects: what `=` and `hashcode` answer
for each class, and where equal objects have equal hash codes.

Numbers and strings are compared by content; everything but an Integer is hashed
by its address.
-/

namespace Somr.Primitives

open Somr.Foundation

variable {Float64 : Type} (arithmetic : DoubleArithmetic Float64)

/-! ### Core objects -/

abbrev Address := UInt32

/-- What a core object holds. A plain object is any that is compared by identity and
is no Symbol (a Boolean, nil, an array, a class), so nothing else of it matters here. -/
inductive Content (Float64 : Type) where
  | number (number : Number Float64)
  | string (chars : List Char)
  | symbol (chars : List Char)
  | plain
deriving DecidableEq, Repr

/-- The objects that are alive, each at its address for as long as it lives. -/
abbrev Store (Float64 : Type) := Address → Content Float64

/-- What `dynamic_cast` to the number classes finds. -/
def Content.operand : Content Float64 → Operand Float64
  | .number value => some value
  | _ => none

/-! ### Methods -/

/-- `_Object::Equalequal`. -/
def equalequal (a b : Address) : Bool := a == b

/-- The answer to `a = b`: a primitive of the number classes and of String, and the
identity of Object for every other class, Symbol included. -/
def equal (store : Store Float64) (a b : Address) : Completion Float64 :=
  match store a with
  | .number receiver => receiver.send arithmetic "=" (store b).operand
  | .string chars =>
      match store b with
      | .string others => .answer (cString others == cString chars)
      | _ => .answer false
  | .symbol _ => .answer (equalequal a b)
  | .plain => .answer (equalequal a b)

/-- The hash that the constructor of `VMObject` stores. -/
def getHash (a : Address) : Int32 := a.toInt32

/-- The answer to `a hashcode`: Integer answers itself; the primitives of Object
and of String answer the stored hash. -/
def hashcode (store : Store Float64) (a : Address) : Int32 :=
  match store a with
  | .number (.integer value) => value
  | _ => getHash a

/-! ### Equal objects -/

namespace Content

/-- Are two objects with these contents equal, be they one object or two? -/
def agrees : Content Float64 → Content Float64 → Bool
  | .number (.integer l), .number (.integer r) => l.toInt == r.toInt
  | .number (.integer l), .number (.bigInteger r) => l.toInt == r.toInt
  | .number (.integer l), .number (.double r) => arithmetic.equal (arithmetic.ofInt l.toInt) r
  | .number (.bigInteger l), .number (.integer r) => l.toInt == r.toInt
  | .number (.bigInteger l), .number (.bigInteger r) => l.toInt == r.toInt
  | .number (.double l), .number (.integer r) => arithmetic.equal l (arithmetic.ofInt r.toInt)
  | .number (.double l), .number (.bigInteger r) => arithmetic.equal l (arithmetic.ofInt r.toInt)
  | .number (.double l), .number (.double r) => arithmetic.equal l r
  | .string l, .string r => cString r == cString l
  | _, _ => false

/-- Is `=` the identity of Object? -/
def isIdentity : Content Float64 → Bool
  | .symbol _ | .plain => true
  | _ => false

def isInteger : Content Float64 → Bool
  | .number (.integer _) => true
  | _ => false

end Content

/-- An Integer whose value is the address of the other object. -/
def Coincides (store : Store Float64) (integer other : Address) : Prop :=
  store integer = .number (.integer (getHash other)) ∧ (store other).isInteger = false

/-- One object, two Integers, contents that differ, or a coincidence. -/
def HashAgrees (store : Store Float64) (a b : Address) : Prop :=
  a = b ∨ (store a).agrees arithmetic (store b) = false ∨
    ((store a).isInteger = true ∧ (store b).isInteger = true) ∨
    Coincides store a b ∨ Coincides store b a

theorem getHash_inj {a b : Address} : getHash a = getHash b ↔ a = b := by
  constructor
  · intro same
    have words := congrArg Int32.toUInt32 same
    simpa [getHash] using words
  · exact congrArg getHash

/-- A BigInteger takes a Double for a BigInteger; all other pairs of numbers are
compared. -/
theorem send_equal (receiver argument : Number Float64) :
    receiver.send arithmetic "=" (some argument) =
      if receiver.isBigInteger && argument.isDouble then .reinterprets
      else .answer ((Content.number receiver).agrees arithmetic (.number argument)) := by
  cases receiver with
  | integer left =>
      cases argument with
      | integer right => rfl
      | bigInteger right =>
          have compared : Number.send arithmetic (.integer left) "=" (some (.bigInteger right)) =
              .answer (left.toInt64.toInt == right.toInt) := rfl
          rw [compared, Int32.toInt_toInt64]
          rfl
      | double right => rfl
  | bigInteger left =>
      cases argument with
      | integer right =>
          have compared : Number.send arithmetic (.bigInteger left) "=" (some (.integer right)) =
              .answer (left.toInt == right.toInt64.toInt) := rfl
          rw [compared, Int32.toInt_toInt64]
          rfl
      | bigInteger right => rfl
      | double right => rfl
  | double left => cases argument <;> rfl

theorem send_equal_other (receiver : Number Float64) :
    receiver.send arithmetic "=" none ≠ .answer true := by
  cases receiver with
  | integer left =>
      have compared : Number.send arithmetic (.integer left) "=" none = .answer false := rfl
      simp [compared]
  | bigInteger left => exact nofun
  | double left => exact nofun

theorem equal_iff (store : Store Float64) (a b : Address) :
    equal arithmetic store a b = .answer true ↔
      ((store a).isIdentity = true ∧ a = b) ∨
        (store a).agrees arithmetic (store b) = true := by
  unfold equal
  cases store a with
  | plain => simp [Content.agrees, Content.isIdentity, equalequal]
  | symbol chars => simp [Content.agrees, Content.isIdentity, equalequal]
  | string chars => cases store b <;> simp [Content.agrees, Content.isIdentity]
  | number receiver =>
      cases store b with
      | number argument =>
          simp only [Content.operand, send_equal, Content.isIdentity, Bool.false_eq_true,
            false_and, false_or]
          split
          · next wrong =>
              cases receiver <;> cases argument <;>
                simp_all [Number.isBigInteger, Number.isDouble, Content.agrees]
          · simp
      | string | symbol | plain =>
          have other := send_equal_other arithmetic receiver
          cases receiver <;> simp_all [Content.operand, Content.agrees, Content.isIdentity]

theorem isInteger_iff {content : Content Float64} :
    content.isInteger = true ↔ ∃ value, content = .number (.integer value) := by
  cases content with
  | number value => cases value <;> simp [Content.isInteger]
  | string | symbol | plain => simp [Content.isInteger]

theorem hashcode_integer {store : Store Float64} {a : Address} {value : Int32}
    (holds : store a = .number (.integer value)) : hashcode store a = value := by
  simp only [hashcode, holds]

theorem hashcode_other {store : Store Float64} {a : Address}
    (other : (store a).isInteger = false) : hashcode store a = getHash a := by
  unfold hashcode
  split
  · next value holds => simp [holds, Content.isInteger] at other
  · rfl

theorem coincides_iff {store : Store Float64} {a b : Address} {value : Int32}
    (holds : store a = .number (.integer value)) (other : (store b).isInteger = false) :
    Coincides store a b ↔ value = getHash b := by
  simp [Coincides, holds, other]

/-- Two objects of equal content, by how many of them are Integers. -/
theorem hashcodes_of_agreeing {store : Store Float64} {a b : Address} (differ : a ≠ b)
    (agrees : (store a).agrees arithmetic (store b) = true) :
    hashcode store a = hashcode store b ↔
      ((store a).isInteger = true ∧ (store b).isInteger = true) ∨
        Coincides store a b ∨ Coincides store b a := by
  cases leftInteger : (store a).isInteger with
  | true =>
      obtain ⟨left, leftHolds⟩ := isInteger_iff.mp leftInteger
      cases rightInteger : (store b).isInteger with
      | true =>
          obtain ⟨right, rightHolds⟩ := isInteger_iff.mp rightInteger
          rw [leftHolds, rightHolds, Content.agrees, beq_iff_eq] at agrees
          rw [hashcode_integer leftHolds, hashcode_integer rightHolds]
          simp [Int32.toInt.inj agrees]
      | false =>
          have noConverse : ¬ Coincides store b a := fun converse => by
            rw [converse.1] at rightInteger
            exact Bool.noConfusion rightInteger
          rw [hashcode_integer leftHolds, hashcode_other rightInteger,
            coincides_iff leftHolds rightInteger]
          simp [noConverse]
  | false =>
      have noCoincidence : ¬ Coincides store a b := fun coincides => by
        rw [coincides.1] at leftInteger
        exact Bool.noConfusion leftInteger
      cases rightInteger : (store b).isInteger with
      | true =>
          obtain ⟨right, rightHolds⟩ := isInteger_iff.mp rightInteger
          rw [hashcode_other leftInteger, hashcode_integer rightHolds,
            coincides_iff rightHolds leftInteger]
          simp [noCoincidence, eq_comm]
      | false =>
          have noConverse : ¬ Coincides store b a := fun converse => by
            rw [converse.1] at rightInteger
            exact Bool.noConfusion rightInteger
          rw [hashcode_other leftInteger, hashcode_other rightInteger, getHash_inj]
          simp [differ, noCoincidence, noConverse]

/-- Equal hash codes for equal objects: exactly for one object, two Integers,
contents that differ, and an Integer that is the other object's address. -/
theorem equal_hashcodes_iff (store : Store Float64) (a b : Address) :
    (equal arithmetic store a b = .answer true → hashcode store a = hashcode store b) ↔
      HashAgrees arithmetic store a b := by
  rw [equal_iff]
  by_cases same : a = b
  · subst same
    simp [HashAgrees]
  · by_cases agrees : (store a).agrees arithmetic (store b) = true
    · have codes := hashcodes_of_agreeing arithmetic same agrees
      simp only [same, and_false, agrees, or_true, true_implies, HashAgrees, false_or,
        Bool.true_eq_false]
      exact codes
    · simp [HashAgrees, agrees, same]

/-- Two strings with the same characters at different addresses. -/
def twoStrings : Store Int := fun a => if a = 8 ∨ a = 16 then .string ['a'] else .plain

theorem strings_hash_apart :
    equal integralDoubles twoStrings 8 16 = .answer true ∧
      hashcode twoStrings 8 ≠ hashcode twoStrings 16 := by
  decide

end Somr.Primitives
