import Somr.Foundation.SignedWords

/-!
Owns the binary primitives of Integer, BigInteger and Double: what each routine
does with the two popped operands, and the classes' tables of these routines.

A routine ends in a `Completion`; Integer routines may instead send their message
again to the receiver converted to BigInteger or Double. The operations on
`double` are a parameter.
-/

namespace Somr.Primitives

open Somr.Foundation

/-- What the language does with `double`s; nothing is assumed of it. -/
structure DoubleArithmetic (Float64 : Type) where
  ofInt : Int → Float64
  plus : Float64 → Float64 → Float64
  minus : Float64 → Float64 → Float64
  star : Float64 → Float64 → Float64
  slashslash : Float64 → Float64 → Float64
  equal : Float64 → Float64 → Bool
  lowerthan : Float64 → Float64 → Bool
  /-- The conversion to `int64_t`, which is undefined outside its range. -/
  toInt64 : Float64 → Option Int64

/-- `double`s that are integers, with their exact quotients. -/
def integralDoubles : DoubleArithmetic Int where
  ofInt := id
  plus := (· + ·)
  minus := (· - ·)
  star := (· * ·)
  slashslash := (· / ·)
  equal := (· == ·)
  lowerthan := fun left right => left < right
  toInt64 := toInt64?

/-- The three number representations. -/
inductive Number (Float64 : Type) where
  | integer (value : Int32)
  | bigInteger (value : Int64)
  | double (value : Float64)
deriving DecidableEq, Repr

/-- What `dynamic_cast` finds out about an operand: its number representation,
or that it is none of them. -/
abbrev Operand (Float64 : Type) := Option (Number Float64)

/-- How a send of a binary selector to a number ends. -/
inductive Completion (Float64 : Type) where
  | push (number : Number Float64)
  | answer (truth : Bool)
  /-- An object is used as one of another representation. -/
  | reinterprets
  /-- The class lookup finds nothing and its NULL is invoked. -/
  | noInvokable
  /-- The arithmetic of the language has no result. -/
  | undefined
  | errorExit (message : String)
deriving DecidableEq, Repr

/-- A routine of Integer ends at once or sends its message again. -/
inductive Reply (Float64 : Type) where
  | done (completion : Completion Float64)
  | resendAsBigInteger (op : String) (left : Int64) (right : Int64)
  | resendAsDouble (op : String) (left : Float64) (right : Float64)
deriving DecidableEq, Repr

variable {Float64 : Type}

/-- The result of a word operation, or undefined behaviour. -/
def Completion.ofWord (push : Int64 → Completion Float64) : Option Int64 → Completion Float64
  | some word => push word
  | none => .undefined

/-! ### Double -/

namespace Double

variable (arithmetic : DoubleArithmetic Float64)

def coerceDouble : Operand Float64 → Except String Float64
  | some (.double value) => .ok value
  | some (.integer value) => .ok (arithmetic.ofInt value.toInt)
  | some (.bigInteger value) => .ok (arithmetic.ofInt value.toInt)
  | none => .error "Attempt to apply Double operation to non-number."

/-- `PREPARE_OPERANDS` and then the operation. -/
def prepareOperands (right : Operand Float64) (operation : Float64 → Completion Float64) :
    Completion Float64 :=
  match coerceDouble arithmetic right with
  | .ok value => operation value
  | .error message => .errorExit message

def plus (left : Float64) (right : Operand Float64) : Completion Float64 :=
  prepareOperands arithmetic right fun value => .push (.double (arithmetic.plus left value))

def minus (left : Float64) (right : Operand Float64) : Completion Float64 :=
  prepareOperands arithmetic right fun value => .push (.double (arithmetic.minus left value))

def star (left : Float64) (right : Operand Float64) : Completion Float64 :=
  prepareOperands arithmetic right fun value => .push (.double (arithmetic.star left value))

def slashslash (left : Float64) (right : Operand Float64) : Completion Float64 :=
  prepareOperands arithmetic right fun value =>
    .push (.double (arithmetic.slashslash left value))

/-- An operation on both operands converted to `int64_t`. -/
def onInt64 (operation : Int64 → Int64 → Option Int64) (left right : Float64) :
    Completion Float64 :=
  .ofWord (fun word => .push (.double (arithmetic.ofInt word.toInt))) do
    operation (← arithmetic.toInt64 left) (← arithmetic.toInt64 right)

def percent (left : Float64) (right : Operand Float64) : Completion Float64 :=
  prepareOperands arithmetic right (onInt64 arithmetic percent? left)

def and (left : Float64) (right : Operand Float64) : Completion Float64 :=
  prepareOperands arithmetic right (onInt64 arithmetic (fun l r => some (l &&& r)) left)

def equal (left : Float64) (right : Operand Float64) : Completion Float64 :=
  prepareOperands arithmetic right fun value => .answer (arithmetic.equal left value)

def lowerthan (left : Float64) (right : Operand Float64) : Completion Float64 :=
  prepareOperands arithmetic right fun value => .answer (arithmetic.lowerthan left value)

/-- The binary selectors that `Double.som` declares as primitives. -/
def primitives : List (String × (Float64 → Operand Float64 → Completion Float64)) :=
  [("+", plus arithmetic), ("-", minus arithmetic), ("*", star arithmetic),
    ("//", slashslash arithmetic), ("%", percent arithmetic), ("&", and arithmetic),
    ("=", equal arithmetic), ("<", lowerthan arithmetic)]

def send (selector : String) (left : Float64) (right : Operand Float64) : Completion Float64 :=
  match (primitives arithmetic).lookup selector with
  | some routine => routine left right
  | none => .noInvokable

end Double

/-! ### BigInteger -/

namespace BigInteger

/-- `CHECK_BIGINT` and then the operation; anything but an Integer is taken for
a BigInteger. -/
def checkBigint (right : Operand Float64) (operation : Int64 → Completion Float64) :
    Completion Float64 :=
  match right with
  | some (.integer value) => operation value.toInt64
  | some (.bigInteger value) => operation value
  | _ => .reinterprets

/-- `PUSH_INT_OR_BIGINT`. -/
def pushIntOrBigint (result : Int64) : Completion Float64 :=
  if result.toInt > 2147483647 || result.toInt < -2147483648 then .push (.bigInteger result)
  else .push (.integer result.toInt32)

def pushBigint (result : Int64) : Completion Float64 := .push (.bigInteger result)

def plus (left : Int64) (right : Operand Float64) : Completion Float64 :=
  checkBigint right fun value => .ofWord pushIntOrBigint (plus? left value)

def minus (left : Int64) (right : Operand Float64) : Completion Float64 :=
  checkBigint right fun value => .ofWord pushIntOrBigint (minus? left value)

def star (left : Int64) (right : Operand Float64) : Completion Float64 :=
  checkBigint right fun value => .ofWord pushIntOrBigint (star? left value)

def slash (left : Int64) (right : Operand Float64) : Completion Float64 :=
  checkBigint right fun value => .ofWord pushIntOrBigint (slash? left value)

def percent (left : Int64) (right : Operand Float64) : Completion Float64 :=
  checkBigint right fun value => .ofWord pushBigint (percent? left value)

def and (left : Int64) (right : Operand Float64) : Completion Float64 :=
  checkBigint right fun value => pushBigint (left &&& value)

def equal (left : Int64) (right : Operand Float64) : Completion Float64 :=
  checkBigint right fun value => .answer (left.toInt == value.toInt)

def lowerthan (left : Int64) (right : Operand Float64) : Completion Float64 :=
  checkBigint right fun value => .answer (left.toInt < value.toInt)

/-- The binary selectors that `BigInteger.som` declares as primitives. -/
def primitives : List (String × (Int64 → Operand Float64 → Completion Float64)) :=
  [("+", plus), ("-", minus), ("*", star), ("/", slash), ("%", percent), ("&", and),
    ("=", equal), ("<", lowerthan)]

def send (selector : String) (left : Int64) (right : Operand Float64) : Completion Float64 :=
  match primitives.lookup selector with
  | some routine => routine left right
  | none => .noInvokable

end BigInteger

/-! ### Integer -/

namespace Integer

variable (arithmetic : DoubleArithmetic Float64)

/-- `CHECK_COERCION`: a BigInteger or a Double on the right imposes itself. -/
def checkCoercion (right : Operand Float64) (left : Int32) (op : String)
    (otherwise : Completion Float64) : Reply Float64 :=
  match right with
  | some (.bigInteger value) => .resendAsBigInteger op left.toInt64 value
  | some (.double value) => .resendAsDouble op (arithmetic.ofInt left.toInt) value
  | _ => .done otherwise

/-- The unchecked cast to an Integer. -/
def asInteger (right : Operand Float64) (operation : Int32 → Completion Float64) :
    Completion Float64 :=
  match right with
  | some (.integer value) => operation value
  | _ => .reinterprets

def pushResult (result : Int64) : Completion Float64 :=
  if result.toInt > 2147483647 || result.toInt < -2147483648 then .push (.bigInteger result)
  else .push (.integer result.toInt32)

def plus (left : Int32) (right : Operand Float64) : Reply Float64 :=
  checkCoercion arithmetic right left "+" <| asInteger right fun value =>
    .ofWord pushResult (plus? left.toInt64 value.toInt64)

def minus (left : Int32) (right : Operand Float64) : Reply Float64 :=
  checkCoercion arithmetic right left "-" <| asInteger right fun value =>
    .ofWord pushResult (minus? left.toInt64 value.toInt64)

def star (left : Int32) (right : Operand Float64) : Reply Float64 :=
  checkCoercion arithmetic right left "*" <| asInteger right fun value =>
    .ofWord pushResult (star? left.toInt64 value.toInt64)

/-- The message sent again is `/`. -/
def slashslash (left : Int32) (right : Operand Float64) : Reply Float64 :=
  checkCoercion arithmetic right left "/" <| asInteger right fun value =>
    .push (.double (arithmetic.slashslash (arithmetic.ofInt left.toInt)
      (arithmetic.ofInt value.toInt)))

def slash (left : Int32) (right : Operand Float64) : Reply Float64 :=
  checkCoercion arithmetic right left "/" <| asInteger right fun value =>
    .ofWord pushResult (slash? left.toInt64 value.toInt64)

def percent (left : Int32) (right : Operand Float64) : Reply Float64 :=
  checkCoercion arithmetic right left "%" <| asInteger right fun value =>
    .ofWord pushResult (percent? left.toInt64 value.toInt64)

def and (left : Int32) (right : Operand Float64) : Reply Float64 :=
  checkCoercion arithmetic right left "&" <| asInteger right fun value =>
    pushResult (left.toInt64 &&& value.toInt64)

/-- The only routine that tests for an Integer; the branch for a Double is never
reached. -/
def equal (left : Int32) (right : Operand Float64) : Reply Float64 :=
  checkCoercion arithmetic right left "=" <|
    match right with
    | some (.integer value) => .answer (left.toInt == value.toInt)
    | some (.double value) => .answer (arithmetic.equal (arithmetic.ofInt left.toInt) value)
    | _ => .answer false

def lowerthan (left : Int32) (right : Operand Float64) : Reply Float64 :=
  checkCoercion arithmetic right left "<" <| asInteger right fun value =>
    .answer (left.toInt < value.toInt)

/-- The binary selectors that `Integer.som` declares as primitives. -/
def primitives : List (String × (Int32 → Operand Float64 → Reply Float64)) :=
  [("+", plus arithmetic), ("-", minus arithmetic), ("*", star arithmetic),
    ("/", slash arithmetic), ("//", slashslash arithmetic), ("%", percent arithmetic),
    ("&", and arithmetic), ("=", equal arithmetic), ("<", lowerthan arithmetic)]

/-- Follow a message that is sent again. -/
def complete : Reply Float64 → Completion Float64
  | .done completion => completion
  | .resendAsBigInteger op left right => BigInteger.send op left (some (.bigInteger right))
  | .resendAsDouble op left right => Double.send arithmetic op left (some (.double right))

def send (selector : String) (left : Int32) (right : Operand Float64) : Completion Float64 :=
  match (primitives arithmetic).lookup selector with
  | some routine => complete arithmetic (routine left right)
  | none => .noInvokable

end Integer

/-! ### Sends to numbers -/

namespace Number

/-- Does the receiver's class declare the selector as a binary primitive? -/
def declares (arithmetic : DoubleArithmetic Float64) (receiver : Number Float64)
    (selector : String) : Bool :=
  match receiver with
  | .integer _ => ((Integer.primitives arithmetic).lookup selector).isSome
  | .bigInteger _ =>
      ((BigInteger.primitives :
        List (String × (Int64 → Operand Float64 → Completion Float64))).lookup selector).isSome
  | .double _ => ((Double.primitives arithmetic).lookup selector).isSome

/-- A send of a binary primitive of the receiver's class. -/
def send (arithmetic : DoubleArithmetic Float64) (receiver : Number Float64) (selector : String)
    (argument : Operand Float64) : Completion Float64 :=
  match receiver with
  | .integer left => Integer.send arithmetic selector left argument
  | .bigInteger left => BigInteger.send selector left argument
  | .double left => Double.send arithmetic selector left argument

/-- The mathematical value of an Integer or a BigInteger. -/
def value? : Number Float64 → Option Int
  | .integer value => some value.toInt
  | .bigInteger value => some value.toInt
  | .double _ => none

/-- Two operands with a mathematical value are each of either integer class. -/
@[elab_as_elim]
theorem values_cases {motive : Number Float64 → Number Float64 → Int → Int → Prop}
    (integers : ∀ left right : Int32,
      motive (.integer left) (.integer right) left.toInt right.toInt)
    (integer_bigInteger : ∀ (left : Int32) (right : Int64),
      motive (.integer left) (.bigInteger right) left.toInt right.toInt)
    (bigInteger_integer : ∀ (left : Int64) (right : Int32),
      motive (.bigInteger left) (.integer right) left.toInt right.toInt)
    (bigIntegers : ∀ left right : Int64,
      motive (.bigInteger left) (.bigInteger right) left.toInt right.toInt)
    {a b : Number Float64} {x y : Int} (leftValue : a.value? = some x)
    (rightValue : b.value? = some y) : motive a b x y := by
  cases a with
  | integer left =>
      cases leftValue
      cases b with
      | integer right =>
          cases rightValue
          exact integers left right
      | bigInteger right =>
          cases rightValue
          exact integer_bigInteger left right
      | double right => cases rightValue
  | bigInteger left =>
      cases leftValue
      cases b with
      | integer right =>
          cases rightValue
          exact bigInteger_integer left right
      | bigInteger right =>
          cases rightValue
          exact bigIntegers left right
      | double right => cases rightValue
  | double left => cases leftValue

def isInteger : Number Float64 → Bool
  | .integer _ => true
  | _ => false

def isBigInteger : Number Float64 → Bool
  | .bigInteger _ => true
  | _ => false

def isDouble : Number Float64 → Bool
  | .double _ => true
  | _ => false

end Number

end Somr.Primitives
