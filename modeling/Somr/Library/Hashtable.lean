import Somr.Library.Vector
import Somr.Primitives.Numbers

/-!
Owns the classes `Hashtable` and `HashEntry` of the core library, method by
method.

The objects in a table are opaque; what the methods send to them are the
messages of `Messages`. A table slot is nil or the first entry of a chain. A
method that ends the program has no result.
-/

namespace Somr.Library

open Somr.Primitives

/-- What keys and values answer. -/
structure Messages (Object : Type) where
  nil : Object
  /-- `=` -/
  equal : Object → Object → Bool
  hashcode : Object → Int32

variable {Object : Type} (messages : Messages Object)

/-! ### HashEntry -/

/-- An entry whose `next` is nil, or one with an entry behind it. -/
inductive HashEntry (Object : Type) where
  | last (key value : Object) (hash : Int32)
  | link (key value : Object) (hash : Int32) (next : HashEntry Object)
deriving DecidableEq, Repr

namespace HashEntry

/-- `newKey:value:next:` with nil for `next`. -/
def newKey (key value : Object) : HashEntry Object := .last key value (messages.hashcode key)

/-- `setKey:value:`, with the entry as it is afterwards and the answer. -/
def setKey_value_ (key value : Object) : HashEntry Object → HashEntry Object × Bool
  | .last ownKey ownValue hash =>
      if messages.equal key ownKey then (.last ownKey value hash, false)
      else (.link ownKey ownValue hash (newKey messages key value), true)
  | .link ownKey ownValue hash next =>
      if messages.equal key ownKey then (.link ownKey value hash next, false)
      else
        let (changed, added) := setKey_value_ key value next
        (.link ownKey ownValue hash changed, added)

def getValue_ (key : Object) : HashEntry Object → Object
  | .last ownKey ownValue _ => if messages.equal key ownKey then ownValue else messages.nil
  | .link ownKey ownValue _ next =>
      if messages.equal key ownKey then ownValue else getValue_ key next

/-- `keys`: the keys of the entries behind this one come first. -/
def keys : HashEntry Object → Option (Vector Object)
  | .last key _ _ => do (← Vector.new anySize messages.nil).append_ anySize messages.nil key
  | .link key _ _ next => do (← keys next).append_ anySize messages.nil key

def values : HashEntry Object → Option (Vector Object)
  | .last _ value _ => do (← Vector.new anySize messages.nil).append_ anySize messages.nil value
  | .link _ value _ next => do (← values next).append_ anySize messages.nil value

end HashEntry

/-! ### Integer messages -/

section Integers

variable {Float64 : Type} (arithmetic : DoubleArithmetic Float64)

/-- A send between Integers that answers an Integer. -/
def integerSend (selector : String) (left right : Int32) : Option Int32 :=
  match Number.send arithmetic (.integer left) selector (some (.integer right)) with
  | .push (.integer result) => some result
  | _ => none

def integerLess (left right : Int32) : Option Bool :=
  match Number.send arithmetic (.integer left) "<" (some (.integer right)) with
  | .answer truth => some truth
  | _ => none

/-- `Integer>>abs`. -/
def abs (self : Int32) : Option Int32 := do
  if ← integerLess arithmetic self 0 then integerSend arithmetic "-" 0 self else some self

/-- `(hashcode % table length) abs + 1`. -/
def indexForHash (hashcode length : Int32) : Option Int := do
  let remainder ← integerSend arithmetic "%" hashcode length
  return (← integerSend arithmetic "+" (← abs arithmetic remainder) 1).toInt

end Integers

/-! ### Hashtable -/

structure Hashtable (Object : Type) where
  table : Elements (Option (HashEntry Object))
  count : Int
deriving DecidableEq, Repr

namespace Hashtable

variable {Float64 : Type} (arithmetic : DoubleArithmetic Float64)

/-- `clear`: no entry is kept. -/
def clear : Option (Hashtable Object) := do return ⟨← Elements.new_ anySize none 11, 0⟩

/-- `Hashtable class>>new`. -/
def new : Option (Hashtable Object) := clear

def indexForKey_ (hashtable : Hashtable Object) (aKey : Object) : Option Int :=
  indexForHash arithmetic (messages.hashcode aKey) (Int32.ofInt hashtable.table.length)

/-- `at:put:`; the chain of a slot is changed in place. -/
def at_put_ (hashtable : Hashtable Object) (key value : Object) : Option (Hashtable Object) := do
  let idx ← hashtable.indexForKey_ messages arithmetic key
  match ← hashtable.table.at_ idx with
  | none =>
      let table ← hashtable.table.at_put_ idx (some (.newKey messages key value))
      return ⟨table, hashtable.count + 1⟩
  | some entry =>
      let (changed, added) := entry.setKey_value_ messages key value
      let table ← hashtable.table.at_put_ idx (some changed)
      return ⟨table, if added then hashtable.count + 1 else hashtable.count⟩

def get_ (hashtable : Hashtable Object) (key : Object) : Option Object := do
  let idx ← hashtable.indexForKey_ messages arithmetic key
  match ← hashtable.table.at_ idx with
  | none => return messages.nil
  | some entry => return entry.getValue_ messages key

def containsKey_ (hashtable : Hashtable Object) (key : Object) : Option Bool := do
  let idx ← hashtable.indexForKey_ messages arithmetic key
  match ← hashtable.table.at_ idx with
  | none => return false
  | some entry =>
      let keys ← (← entry.keys messages).visited
      return keys.any fun k => messages.equal k key

/-- The values that `containsValue:` compares for one slot of the table. -/
def valuesOfSlot : Option (HashEntry Object) → Option (List Object)
  | none => some []
  | some entry => do (← entry.values messages).visited

def containsValue_ (hashtable : Hashtable Object) (val : Object) : Option Bool := do
  let slots ← (← hashtable.table.visited).mapM (valuesOfSlot messages)
  return slots.any fun values => values.any fun v => messages.equal v val

/-- `vec append: element` for a local `vec` that is nil or a vector. Nil does not understand
the message. -/
def appendLocal (vec : Option (Vector Object)) (element : Object) :
    Option (Option (Vector Object)) := do
  return some (← (← vec).append_ anySize messages.nil element)

/-- `keys` and `values`, for the message they send to each entry. The first statement of
both compares `vec` with a new vector; only an assignment would change the local. -/
def enumerate (hashtable : Hashtable Object) (parts : HashEntry Object → Option (Vector Object)) :
    Option (Option (Vector Object)) := do
  let vec := none
  let _ ← Vector.new anySize messages.nil
  (← hashtable.table.visited).foldlM (fun vec ent =>
    match ent with
    | none => some vec
    | some ent => do (← (← parts ent).visited).foldlM (appendLocal messages) vec) vec

def keys (hashtable : Hashtable Object) : Option (Option (Vector Object)) :=
  hashtable.enumerate messages (HashEntry.keys messages)

def values (hashtable : Hashtable Object) : Option (Option (Vector Object)) :=
  hashtable.enumerate messages (HashEntry.values messages)

def size (hashtable : Hashtable Object) : Int := hashtable.count

def isEmpty (hashtable : Hashtable Object) : Bool := hashtable.count == 0

end Hashtable
end Somr.Library
