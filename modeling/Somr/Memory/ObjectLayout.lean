import Somr.Memory.ArraySizes
import Somr.Memory.Objects

/-!
Owns the layout of the objects in the 32-bit build and the words that marking finds in
them.

The number of fields is summed up through the constructors, the length of arrays and
frames is computed back from their size in bytes, and a method reads the number of its
constants from an Integer.
-/

namespace Somr.Memory

open Somr.Foundation
open VMArray (sizeofReference adjustSizeInBytes requestedBytes lengthOf)

/-! ### Objects in memory -/

/-- What a word of an object holds. -/
inductive ObjectWord where
  | reference (object : Address)
  | routine
  | empty
  /-- A pointer to the characters behind it. -/
  | chars
  | characters
  | number (value : Int32)
  | bytecodes
  /-- No constructor has written it. -/
  | unwritten
deriving DecidableEq, Repr

/-- `words` are those from `FIELDS[0]`, which is `clazz`, to the end of the object. -/
structure VMObject where
  kind : Kind
  objectSize : Int32
  numberOfFields : Int32
  words : List ObjectWord
deriving DecidableEq, Repr

abbrev ObjectMemory := Address → Option VMObject

namespace VMObject

/-- `GetEmbeddedInteger` of an Integer. -/
def getEmbeddedInteger? (object : VMObject) : Option Int32 :=
  match object.kind, object.words with
  | .vmInteger, [_, .number embeddedInteger] => some embeddedInteger
  | _, _ => none

def getAdditionalSpaceConsumption (object : VMObject) : Int32 :=
  (object.objectSize.toUInt32 -
    (VMArray.sizeofVMObject + sizeofReference * (object.numberOfFields - 1).toUInt32)).toInt32

def getNumberOfIndexableFields (memory : ObjectMemory) (object : VMObject) : Option Int32 :=
  match object.kind with
  | .vmArray | .vmFrame =>
      some (object.getAdditionalSpaceConsumption.toUInt32 / sizeofReference).toInt32
  | .vmMethod =>
      match object.words[Member.numberOfConstants.index]? with
      | some (.reference numberOfConstants) => (memory numberOfConstants).bind getEmbeddedInteger?
      | _ => none
  | _ => some 0

def getNumberOfMarkableFields (memory : ObjectMemory) (object : VMObject) : Option Int32 :=
  match object.kind with
  | .vmPrimitive => some (object.numberOfFields - 2)
  | .vmEvaluationPrimitive => some (object.numberOfFields - 2 + 1)
  | _ => (object.getNumberOfIndexableFields memory).map (object.numberOfFields + ·)

/-- `numberOfArguments` of an evaluation primitive lies behind `empty`. -/
def numberOfArgumentsSlot : Int32 := 5

/-- The word that `GetMarkableFieldObj` reads, as an index into `FIELDS`; none where it
answers NULL. -/
def markableSlot (memory : ObjectMemory) (object : VMObject) (idx : Int32) : Option Int32 :=
  match object.kind with
  | .vmEvaluationPrimitive =>
      let mfn := object.numberOfFields - 2 + 1
      if idx < mfn - 1 then some idx
      else if idx = mfn - 1 then some numberOfArgumentsSlot
      else none
  | _ => do
      let fn := object.numberOfFields
      let indexable ← object.getNumberOfIndexableFields memory
      if idx < fn then some idx
      else if idx < fn + indexable then some (fn + (idx - fn))
      else none

/-- The words that `markingScheme_scanObject` goes through. -/
def markedSlots (memory : ObjectMemory) (object : VMObject) : Option (List Nat) := do
  let totalfields ← object.getNumberOfMarkableFields memory
  (List.range totalfields.toInt.toNat).mapM fun i =>
    (object.markableSlot memory (Int32.ofNat i)).map (·.toInt.toNat)

def HoldsReference (object : VMObject) (slot : Nat) : Prop :=
  ∃ address, object.words[slot]? = some (.reference address)

/-- Marking goes through the references of the object, once each, and nothing else. -/
def MarksExactly (memory : ObjectMemory) (object : VMObject) : Prop :=
  ∃ slots, object.markedSlots memory = some slots ∧ slots.Nodup ∧
    ∀ slot, slot ∈ slots ↔ object.HoldsReference slot

end VMObject

/-! ### Constructors -/

/-- `sizeof` of the C++ classes. -/
def sizeof : Kind → UInt32
  | .vmObject | .vmArray => 48
  | .vmInteger | .vmString | .vmSymbol => 52
  | .vmBlock | .vmBigInteger | .vmDouble => 56
  | .vmClass | .vmPrimitive => 64
  | .vmEvaluationPrimitive => 68
  | .vmFrame => 72
  | .vmMethod => 76

namespace NumberOfFields

/-- `VMObject::VMObject`, with `VMObjectNumberOfFields`. -/
def vmObject (numberOfFields : Int32) : Int32 := numberOfFields + 1

def vmInvokable (nof : Int32) : Int32 := vmObject (nof + 2)

def vmMethod (nof : Int32) : Int32 := vmInvokable (nof + 5)

def vmPrimitive : Int32 := vmInvokable 2

def vmArray (nof : Int32) : Int32 := vmObject (nof + 0)

def vmFrame (nof : Int32) : Int32 := vmArray (nof + 6)

def vmBlock : Int32 := vmObject 2

def vmClass (numberOfFields : Int32) : Int32 := vmObject (numberOfFields + 4)

/-- Strings, symbols and numbers have no fields of their own. -/
def vmValue : Int32 := vmObject 0

end NumberOfFields

/-- What an object is made of. `vmObject` comes with the number of instance fields of its
class, `vmArray` with the size it was asked for, and the others with their members. -/
inductive Members where
  | vmObject (numberOfInstanceFields : Nat) (clazz : Address) (fields : List Address)
  | vmClass (clazz superClass name instanceFields instanceInvokables : Address)
      (fields : List Address)
  | vmArray (size : Int32) (clazz : Address) (entries : List Address)
  | vmFrame (clazz previousFrame context method stackPointer bytecodeIndex localOffset : Address)
      (entries : List Address)
  | vmMethod (clazz signature holder numberOfLocals maximumNumberOfStackElements bcLength
      numberOfArguments numberOfConstants : Address) (constants : List Address)
      (bytecodes : Nat)
  | vmBlock (clazz blockMethod context : Address)
  | vmPrimitive (clazz signature holder : Address)
  | vmEvaluationPrimitive (clazz signature holder numberOfArguments : Address)
  | vmString (clazz : Address) (length : Nat)
  | vmSymbol (clazz : Address) (length : Nat)
  | vmInteger (clazz : Address) (embeddedInteger : Int32)
  | vmBigInteger (clazz : Address) (low high : Int32)
  | vmDouble (clazz : Address) (low high : Int32)
deriving DecidableEq, Repr

namespace Members

def kind : Members → Kind
  | vmObject .. => .vmObject
  | vmClass .. => .vmClass
  | vmArray .. => .vmArray
  | vmFrame .. => .vmFrame
  | vmMethod .. => .vmMethod
  | vmBlock .. => .vmBlock
  | vmPrimitive .. => .vmPrimitive
  | vmEvaluationPrimitive .. => .vmEvaluationPrimitive
  | vmString .. => .vmString
  | vmSymbol .. => .vmSymbol
  | vmInteger .. => .vmInteger
  | vmBigInteger .. => .vmBigInteger
  | vmDouble .. => .vmDouble

/-- The references an object begins with. -/
def references : Members → List Address
  | vmObject _ clazz fields => clazz :: fields
  | vmClass clazz superClass name instanceFields instanceInvokables fields =>
      [clazz, superClass, name, instanceFields, instanceInvokables] ++ fields
  | vmArray _ clazz entries => clazz :: entries
  | vmFrame clazz previousFrame context method stackPointer bytecodeIndex localOffset entries =>
      [clazz, previousFrame, context, method, stackPointer, bytecodeIndex, localOffset] ++ entries
  | vmMethod clazz signature holder numberOfLocals maximumNumberOfStackElements bcLength
      numberOfArguments numberOfConstants constants _ =>
      [clazz, signature, holder, numberOfLocals, maximumNumberOfStackElements, bcLength,
        numberOfArguments, numberOfConstants] ++ constants
  | vmBlock clazz blockMethod context => [clazz, blockMethod, context]
  | vmPrimitive clazz signature holder => [clazz, signature, holder]
  | vmEvaluationPrimitive clazz signature holder _ => [clazz, signature, holder]
  | vmString clazz _ | vmSymbol clazz _ | vmInteger clazz _ | vmBigInteger clazz _ _
  | vmDouble clazz _ _ => [clazz]

/-- The words in the memory of an array of some size, behind its class. -/
def entriesFor (size : Int32) : Nat := ((adjustSizeInBytes (requestedBytes size)).toNat - 48) / 4

/-- The words that hold a number of bytes. -/
def wordsFor (bytes : Nat) : Nat := (bytes + 3) / 4

/-- The words behind those references. -/
def rest : Members → List ObjectWord
  | vmArray size _ entries => List.replicate (entriesFor size - entries.length) .unwritten
  | vmMethod _ _ _ _ _ _ _ _ _ bytecodes => List.replicate (wordsFor bytecodes) .bytecodes
  | vmPrimitive .. => [.routine, .empty]
  | vmEvaluationPrimitive _ _ _ numberOfArguments =>
      [.routine, .empty, .reference numberOfArguments]
  | vmString _ length | vmSymbol _ length =>
      .chars :: List.replicate (wordsFor (length + 1)) .characters
  | vmInteger _ embeddedInteger => [.number embeddedInteger]
  | vmBigInteger _ low high | vmDouble _ low high => [.number low, .number high]
  | vmObject .. | vmClass .. | vmFrame .. | vmBlock .. => []

/-- `numberOfFields` as the chain of constructors sets it. -/
def numberOfFields : Members → Int32
  | vmObject numberOfInstanceFields _ _ =>
      NumberOfFields.vmObject (Int32.ofNat numberOfInstanceFields - 1)
  | vmClass _ _ _ _ _ fields => NumberOfFields.vmClass (Int32.ofNat fields.length)
  | vmArray .. => NumberOfFields.vmArray 0
  | vmFrame .. => NumberOfFields.vmFrame 0
  | vmMethod .. => NumberOfFields.vmMethod 0
  | vmBlock .. => NumberOfFields.vmBlock
  | vmPrimitive .. | vmEvaluationPrimitive .. => NumberOfFields.vmPrimitive
  | vmString .. | vmSymbol .. | vmInteger .. | vmBigInteger .. | vmDouble .. =>
      NumberOfFields.vmValue

/-- `count * sizeof(pVMObject)`. -/
def bytesOf (count : Int32) : Int32 := (count.toUInt32 * sizeofReference).toInt32

/-- The additional bytes the functions of the universe ask for. -/
def additionalBytes : Members → Int32
  | vmObject numberOfInstanceFields _ _ => bytesOf (Int32.ofNat numberOfInstanceFields - 1)
  | vmClass _ _ _ _ _ fields => bytesOf (Int32.ofNat fields.length)
  | vmArray size _ _ => bytesOf size
  | vmFrame _ _ _ _ _ _ _ entries => bytesOf (Int32.ofNat entries.length)
  | vmMethod _ _ _ _ _ _ _ _ constants bytecodes =>
      Int32.ofNat bytecodes + bytesOf (Int32.ofNat constants.length)
  | vmString _ length | vmSymbol _ length => Int32.ofNat length + 1
  | vmBlock .. | vmPrimitive .. | vmEvaluationPrimitive .. | vmInteger .. | vmBigInteger ..
  | vmDouble .. => 0

/-- The object in memory. -/
def layout (members : Members) : VMObject where
  kind := members.kind
  objectSize := (sizeof members.kind + members.additionalBytes.toUInt32).toInt32
  numberOfFields := members.numberOfFields
  words := members.references.map .reference ++ members.rest

/-- The members are those of an object that a constructor has finished: it lies in a
memory of 32-bit addresses, an array has been filled up to its size, and the number of
constants of a method is an Integer. -/
def Constructed (memory : ObjectMemory) : Members → Prop
  | vmObject numberOfInstanceFields _ fields =>
      fields.length = numberOfInstanceFields - 1 ∧ 48 + 4 * fields.length < 4294967296
  | vmClass _ _ _ _ _ fields => 64 + 4 * fields.length < 4294967296
  | vmArray size _ entries =>
      entries.length = size.toInt.toNat ∧ 48 + 4 * entries.length < 4294967296
  | vmFrame _ _ _ _ _ _ _ entries => 72 + 4 * entries.length < 4294967296
  | vmMethod _ _ _ _ _ _ _ numberOfConstants constants bytecodes =>
      76 + 4 * constants.length + bytecodes < 4294967296 ∧
        ∃ clazz, memory numberOfConstants =
          some (vmInteger clazz (Int32.ofNat constants.length)).layout
  | vmString _ length | vmSymbol _ length => 52 + length + 1 < 4294967296
  | _ => True

/-- A plain object has a field for its class, and an array was not asked for with a
negative size, unless that wraps around to an array without elements. -/
def Counted : Members → Prop
  | vmObject numberOfInstanceFields _ _ => 1 ≤ numberOfInstanceFields
  | vmArray size _ _ => 0 ≤ size.toInt ∨ (requestedBytes size).toNat = 48
  | _ => True

end Members

/-! ### Marked words -/

namespace VMObject

variable {memory : ObjectMemory} {object : VMObject}

theorem mapM_eq_self {read : Nat → Option Nat} {slots : List Nat}
    (same : ∀ slot ∈ slots, read slot = some slot) : slots.mapM read = some slots := by
  induction slots with
  | nil => rfl
  | cons slot slots inductionHypothesis =>
      have rest := inductionHypothesis fun other there => same other (List.mem_cons_of_mem _ there)
      rw [List.mapM_cons, same slot List.mem_cons_self, rest]
      rfl

theorem toInt_ofNat {number : Nat} (small : number < 2147483648) :
    (Int32.ofNat number).toInt = number :=
  Int32.toInt_ofNat_of_lt small

/-- An object without members behind other words is gone through from `FIELDS[0]` on. -/
theorem markedSlots_eq_range {total indexable : Int32}
    (plain : object.kind ≠ .vmEvaluationPrimitive)
    (counted : object.getNumberOfIndexableFields memory = some indexable)
    (isTotal : object.getNumberOfMarkableFields memory = some total)
    (reaches : total.toInt ≤ (object.numberOfFields + indexable).toInt) :
    object.markedSlots memory = some (List.range total.toInt.toNat) := by
  rw [markedSlots, isTotal]
  apply mapM_eq_self
  intro i inRange
  have below := List.mem_range.mp inRange
  have bound := total.toInt_lt
  have isIdx : (Int32.ofNat i).toInt = i := toInt_ofNat (by omega)
  have inside : Int32.ofNat i < object.numberOfFields + indexable := by
    rw [Int32.lt_iff_toInt_lt, isIdx]
    omega
  have slot : object.markableSlot memory (Int32.ofNat i) = some (Int32.ofNat i) := by
    unfold markableSlot
    split
    · rename_i other
      exact absurd other plain
    · rw [counted]
      change (if Int32.ofNat i < object.numberOfFields then some (Int32.ofNat i)
        else if Int32.ofNat i < object.numberOfFields + indexable then
          some (object.numberOfFields + (Int32.ofNat i - object.numberOfFields))
        else none) = _
      rw [if_pos inside, Int32.add_comm, Int32.sub_add_cancel, ite_self]
  rw [slot]
  change some (Int32.ofNat i).toInt.toNat = some i
  rw [isIdx, Int.toNat_natCast]

/-- The references at the start of an object are those among its words, if the words
behind them are raw. -/
theorem holdsReference_iff {references : List Address} {rest : List ObjectWord}
    (words : object.words = references.map .reference ++ rest)
    (raw : ∀ word ∈ rest, ∀ address, word ≠ .reference address) (slot : Nat) :
    object.HoldsReference slot ↔ slot < references.length := by
  unfold HoldsReference
  rw [words, List.getElem?_append, List.length_map]
  constructor
  · rintro ⟨address, found⟩
    by_contra behind
    rw [if_neg behind] at found
    exact raw _ (List.mem_of_getElem? found) address rfl
  · intro inside
    rw [if_pos inside, List.getElem?_map, List.getElem?_eq_getElem inside]
    exact ⟨_, rfl⟩

theorem marksExactly_iff_length {references : List Address} {rest : List ObjectWord} {count : Nat}
    (words : object.words = references.map .reference ++ rest)
    (raw : ∀ word ∈ rest, ∀ address, word ≠ .reference address)
    (marked : object.markedSlots memory = some (List.range count)) :
    object.MarksExactly memory ↔ count = references.length := by
  constructor
  · rintro ⟨slots, isMarked, -, exactly⟩
    obtain rfl : List.range count = slots := Option.some.inj (marked.symm.trans isMarked)
    have same : ∀ slot, slot < count ↔ slot < references.length := by
      intro slot
      rw [← holdsReference_iff words raw slot, ← exactly slot, List.mem_range]
    have notMore := same count
    have notLess := same references.length
    omega
  · rintro rfl
    refine ⟨_, marked, List.nodup_range, fun slot => ?_⟩
    rw [List.mem_range, holdsReference_iff words raw slot]

/-- The words behind the fields, where the size in bytes is that of the fields and of
those words. -/
theorem indexable_of_size {base count : Nat}
    (isBase : (VMArray.sizeofVMObject +
      sizeofReference * (object.numberOfFields - 1).toUInt32).toNat = base)
    (size : object.objectSize.toUInt32.toNat = base + 4 * count) :
    (object.getAdditionalSpaceConsumption.toUInt32 / sizeofReference).toInt32.toInt = count := by
  have bound := object.objectSize.toUInt32.toNat_lt
  have consumption : object.getAdditionalSpaceConsumption.toUInt32.toNat = 4 * count := by
    rw [getAdditionalSpaceConsumption, UInt32.toUInt32_toInt32, UInt32.toNat_sub, isBase, size]
    omega
  have quotient : (object.getAdditionalSpaceConsumption.toUInt32 / sizeofReference).toNat =
      count := by
    rw [UInt32.toNat_div, consumption]
    change 4 * count / 4 = count
    omega
  rw [toInt_ofUInt32 (by omega), quotient]

end VMObject

/-! ### Objects of every kind -/

namespace Members

variable {memory : ObjectMemory} {members : Members}

theorem rest_raw (other : members.kind ≠ .vmEvaluationPrimitive) :
    ∀ word ∈ members.rest, ∀ address, word ≠ .reference address := by
  cases members with
  | vmEvaluationPrimitive => exact absurd rfl other
  | _ => simp [rest]

/-- Does the class count its markable fields itself? -/
def countsItself : Kind → Bool
  | .vmPrimitive | .vmEvaluationPrimitive => true
  | _ => false

/-- An object whose markable fields are its fields and indexable fields is marked exactly
if these are its references. -/
theorem marksExactly_iff_sum {indexable : Int32} {fields count : Nat}
    (inherits : countsItself members.kind = false)
    (counted : members.layout.getNumberOfIndexableFields memory = some indexable)
    (isFields : members.numberOfFields.toInt = fields) (isCount : indexable.toInt = count)
    (small : fields + count < 2147483648) :
    members.layout.MarksExactly memory ↔ fields + count = members.references.length := by
  have other : members.kind ≠ .vmEvaluationPrimitive := by
    intro primitive
    rw [primitive] at inherits
    cases inherits
  have sum : (members.numberOfFields + indexable).toInt = (fields + count : Nat) := by
    rw [Int32.toInt_add, isFields, isCount]
    exact Int.bmod_eq_of_le (by omega) (by omega)
  have isTotal : members.layout.getNumberOfMarkableFields memory =
      some (members.numberOfFields + indexable) := by
    unfold VMObject.getNumberOfMarkableFields
    split
    · rename_i primitive
      rw [show members.kind = _ from primitive] at inherits
      cases inherits
    · rename_i primitive
      exact absurd primitive other
    · rw [counted]
      rfl
  have marked := VMObject.markedSlots_eq_range other counted isTotal (Int.le_refl _)
  rw [sum, Int.toNat_natCast] at marked
  exact VMObject.marksExactly_iff_length rfl (rest_raw other) marked

theorem toNat_ofNat {number : Nat} (small : number < 2147483648) :
    (Int32.ofNat number).toUInt32.toNat = number := by
  have unsigned := toNat_toUInt32 (Int32.ofNat number)
  rw [VMObject.toInt_ofNat small] at unsigned
  omega

theorem toNat_bytesOf {count : Nat} (small : 4 * count < 4294967296) :
    (bytesOf (Int32.ofNat count)).toUInt32.toNat = 4 * count := by
  rw [bytesOf, UInt32.toUInt32_toInt32, UInt32.toNat_mul, toNat_ofNat (by omega)]
  change count * 4 % 4294967296 = 4 * count
  omega

theorem requestedBytes_mod (size : Int32) : (requestedBytes size).toNat % 4 = 0 := by
  rw [requestedBytes, UInt32.toUInt32_toInt32, UInt32.toNat_add, UInt32.toNat_mul]
  change (48 + size.toUInt32.toNat * 4 % 4294967296) % 4294967296 % 4 = 0
  omega

/-- The length of an array that is asked for elements. -/
theorem lengthOf_requestedBytes {size : Int32} (nonnegative : 0 ≤ size.toInt)
    (fits : 48 + 4 * size.toInt.toNat < 4294967296) :
    lengthOf (requestedBytes size).toNat = size.toInt.toNat := by
  have unsigned := toNat_toUInt32 size
  have bytes : (requestedBytes size).toNat = 48 + 4 * size.toInt.toNat := by
    rw [requestedBytes, UInt32.toUInt32_toInt32, UInt32.toNat_add, UInt32.toNat_mul]
    change (48 + size.toUInt32.toNat * 4 % 4294967296) % 4294967296 = _
    omega
  rw [bytes, lengthOf, if_pos (by omega)]
  omega

theorem toInt_zero : (0 : Int32).toInt = (0 : Nat) := rfl

theorem vmObject_iff {numberOfInstanceFields : Nat} {clazz : Address} {fields : List Address}
    (length : fields.length = numberOfInstanceFields - 1)
    (fits : 48 + 4 * fields.length < 4294967296) :
    (vmObject numberOfInstanceFields clazz fields).layout.MarksExactly memory ↔
      1 ≤ numberOfInstanceFields := by
  have isFields : (vmObject numberOfInstanceFields clazz fields).numberOfFields.toInt =
      numberOfInstanceFields := by
    change (Int32.ofNat numberOfInstanceFields - 1 + 1).toInt = _
    rw [Int32.sub_add_cancel, VMObject.toInt_ofNat (by omega)]
  rw [marksExactly_iff_sum rfl rfl isFields toInt_zero (by omega)]
  change numberOfInstanceFields + 0 = fields.length + 1 ↔ 1 ≤ numberOfInstanceFields
  omega

theorem vmClass_exact {clazz superClass name instanceFields instanceInvokables : Address}
    {fields : List Address} (fits : 64 + 4 * fields.length < 4294967296) :
    (vmClass clazz superClass name instanceFields instanceInvokables
      fields).layout.MarksExactly memory := by
  have sum : Int32.ofNat fields.length + 4 + 1 = Int32.ofNat (fields.length + 5) := by
    rw [Int32.ofNat_add, Int32.add_assoc]
    rfl
  have isFields : (vmClass clazz superClass name instanceFields instanceInvokables
      fields).numberOfFields.toInt = (fields.length + 5 : Nat) := by
    change (Int32.ofNat fields.length + 4 + 1).toInt = _
    rw [sum, VMObject.toInt_ofNat (by omega)]
  exact (marksExactly_iff_sum rfl rfl isFields toInt_zero (by omega)).mpr rfl

theorem vmArray_iff {size : Int32} {clazz : Address} {entries : List Address}
    (length : entries.length = size.toInt.toNat)
    (fits : 48 + 4 * entries.length < 4294967296) :
    (vmArray size clazz entries).layout.MarksExactly memory ↔
      0 ≤ size.toInt ∨ (requestedBytes size).toNat = 48 := by
  have isFields : (vmArray size clazz entries).numberOfFields.toInt = (1 : Nat) := rfl
  have isCount := VMArray.Instance.toInt_getNumberOfIndexableFields
    (⟨(vmArray size clazz entries).layout.objectSize, entries⟩ : VMArray.Instance Address)
  have bytes : (vmArray size clazz entries).layout.objectSize.toUInt32 =
      requestedBytes size := UInt32.toUInt32_toInt32 _
  rw [VMArray.Instance.bytes, bytes] at isCount
  have bound := (requestedBytes size).toNat_lt
  have whole := requestedBytes_mod size
  have few : lengthOf (requestedBytes size).toNat < 1073741824 := by
    unfold lengthOf
    split <;> omega
  rw [marksExactly_iff_sum rfl rfl isFields isCount (by omega)]
  change 1 + lengthOf (requestedBytes size).toNat = entries.length + 1 ↔
    0 ≤ size.toInt ∨ (requestedBytes size).toNat = 48
  by_cases nonnegative : 0 ≤ size.toInt
  · have elements := lengthOf_requestedBytes nonnegative (by omega)
    exact iff_of_true (by omega) (.inl nonnegative)
  · unfold lengthOf
    split <;> omega

theorem frameBase : (VMArray.sizeofVMObject +
    sizeofReference * (NumberOfFields.vmFrame 0 - 1).toUInt32).toNat = 72 := by
  decide

theorem vmFrame_exact
    {clazz previousFrame context method stackPointer bytecodeIndex localOffset : Address}
    {entries : List Address} (fits : 72 + 4 * entries.length < 4294967296) :
    (vmFrame clazz previousFrame context method stackPointer bytecodeIndex localOffset
      entries).layout.MarksExactly memory := by
  generalize isFrame : (vmFrame clazz previousFrame context method stackPointer bytecodeIndex
    localOffset entries).layout = frame
  have base : (VMArray.sizeofVMObject +
      sizeofReference * (frame.numberOfFields - 1).toUInt32).toNat = 72 := by
    rw [← isFrame]
    exact frameBase
  have size : frame.objectSize.toUInt32.toNat = 72 + 4 * entries.length := by
    rw [← isFrame]
    change ((72 : UInt32) +
      (bytesOf (Int32.ofNat entries.length)).toUInt32).toInt32.toUInt32.toNat = _
    rw [UInt32.toUInt32_toInt32, UInt32.toNat_add, toNat_bytesOf (by omega)]
    exact Nat.mod_eq_of_lt fits
  have isCount := VMObject.indexable_of_size base size
  subst isFrame
  have isFields : (vmFrame clazz previousFrame context method stackPointer bytecodeIndex
      localOffset entries).numberOfFields.toInt = (7 : Nat) := rfl
  exact (marksExactly_iff_sum rfl rfl isFields isCount (by omega)).mpr (Nat.add_comm 7 _)

theorem vmMethod_exact {clazz signature holder numberOfLocals maximumNumberOfStackElements bcLength
    numberOfArguments numberOfConstants integerClass : Address} {constants : List Address}
    {bytecodes : Nat} (fits : 76 + 4 * constants.length + bytecodes < 4294967296)
    (stored : memory numberOfConstants =
      some (vmInteger integerClass (Int32.ofNat constants.length)).layout) :
    (vmMethod clazz signature holder numberOfLocals maximumNumberOfStackElements bcLength
      numberOfArguments numberOfConstants constants bytecodes).layout.MarksExactly memory := by
  have counted : (vmMethod clazz signature holder numberOfLocals maximumNumberOfStackElements
      bcLength numberOfArguments numberOfConstants constants
      bytecodes).layout.getNumberOfIndexableFields memory =
        some (Int32.ofNat constants.length) := by
    change (memory numberOfConstants).bind VMObject.getEmbeddedInteger? = _
    rw [stored]
    rfl
  have isCount : (Int32.ofNat constants.length).toInt = constants.length :=
    VMObject.toInt_ofNat (by omega)
  have isFields : (vmMethod clazz signature holder numberOfLocals maximumNumberOfStackElements
      bcLength numberOfArguments numberOfConstants constants bytecodes).numberOfFields.toInt =
        (8 : Nat) := rfl
  exact (marksExactly_iff_sum rfl counted isFields isCount (by omega)).mpr (Nat.add_comm 8 _)

/-- The routine and the flag of a primitive are left out. -/
theorem vmPrimitive_exact {clazz signature holder : Address} :
    (vmPrimitive clazz signature holder).layout.MarksExactly memory := by
  have other : (vmPrimitive clazz signature holder).kind ≠ .vmEvaluationPrimitive := by
    intro same
    cases same
  have reaches : (NumberOfFields.vmPrimitive - 2).toInt ≤
      (NumberOfFields.vmPrimitive + 0).toInt := by decide
  have total : (NumberOfFields.vmPrimitive - 2).toInt.toNat = 3 := by decide
  have marked : (vmPrimitive clazz signature holder).layout.markedSlots memory =
      some (List.range (NumberOfFields.vmPrimitive - 2).toInt.toNat) :=
    VMObject.markedSlots_eq_range other rfl rfl reaches
  rw [total] at marked
  exact (VMObject.marksExactly_iff_length rfl (rest_raw other) marked).mpr rfl

/-- The words that marking goes through in an evaluation primitive. -/
theorem evaluationSlots :
    ((List.range (NumberOfFields.vmPrimitive - 2 + 1).toInt.toNat).mapM fun i =>
      (if Int32.ofNat i < NumberOfFields.vmPrimitive - 2 + 1 - 1 then some (Int32.ofNat i)
        else if Int32.ofNat i = NumberOfFields.vmPrimitive - 2 + 1 - 1 then
          some VMObject.numberOfArgumentsSlot
        else none).map (·.toInt.toNat)) = some [0, 1, 2, 5] := by
  decide

theorem vmEvaluationPrimitive_exact {clazz signature holder numberOfArguments : Address} :
    (vmEvaluationPrimitive clazz signature holder
      numberOfArguments).layout.MarksExactly memory := by
  have marked : (vmEvaluationPrimitive clazz signature holder
      numberOfArguments).layout.markedSlots memory = some [0, 1, 2, 5] := by
    have total : (vmEvaluationPrimitive clazz signature holder
        numberOfArguments).layout.getNumberOfMarkableFields memory =
          some (NumberOfFields.vmPrimitive - 2 + 1) := rfl
    rw [VMObject.markedSlots, total]
    change List.mapM _ _ = _
    exact evaluationSlots
  refine ⟨[0, 1, 2, 5], marked, by decide, fun slot => ?_⟩
  unfold VMObject.HoldsReference
  match slot with
  | 0 | 1 | 2 | 5 => simp [layout, references, rest]
  | 3 | 4 => simp [layout, references, rest]
  | slot + 6 => simp [layout, references, rest]

/-- What `NewArray` answers lies in memory as an array that is constructed. -/
theorem constructed_of_newArray {allocator : VMArray.Allocator Address} {nilObject : Address}
    {size : Int32} {array : VMArray.Instance Address}
    (made : VMArray.newArray allocator nilObject size = .ok array) (clazz : Address) :
    (vmArray size clazz (List.replicate size.toInt.toNat nilObject)).Constructed memory := by
  apply And.intro List.length_replicate
  rw [List.length_replicate]
  by_cases negative : size.toInt < 0
  · omega
  · have isCount : size.toInt = size.toInt.toNat := by omega
    have cases := VMArray.newArray_cases allocator nilObject isCount
    rw [made] at cases
    obtain ⟨result, same, represents, _⟩ | ⟨ending, impossible, _⟩ := cases
    · have bytes := represents.size
      have bound := result.objectSize.toUInt32.toNat_lt
      rw [List.length_replicate] at bytes
      rw [← bytes]
      exact bound
    · cases impossible

/-- A block has the fields of `VMBlock`, and a value has its class only. -/
theorem fixed_exact (inherits : countsItself members.kind = false)
    (counted : members.layout.getNumberOfIndexableFields memory = some 0)
    (isFields : members.numberOfFields.toInt = members.references.length)
    (few : members.references.length ≤ 3) : members.layout.MarksExactly memory :=
  (marksExactly_iff_sum inherits counted isFields toInt_zero (by omega)).mpr rfl

/-- For objects of every kind: marking goes through exactly the references, if and only
if the object has a field for its class and its size was not negative. -/
theorem marksExactly_iff (constructed : members.Constructed memory) :
    members.layout.MarksExactly memory ↔ members.Counted := by
  cases members with
  | vmObject => exact vmObject_iff constructed.1 constructed.2
  | vmArray => exact vmArray_iff constructed.1 constructed.2
  | vmClass => exact iff_of_true (vmClass_exact constructed) trivial
  | vmFrame => exact iff_of_true (vmFrame_exact constructed) trivial
  | vmMethod =>
      obtain ⟨fits, integerClass, stored⟩ := constructed
      exact iff_of_true (vmMethod_exact fits stored) trivial
  | vmPrimitive => exact iff_of_true vmPrimitive_exact trivial
  | vmEvaluationPrimitive => exact iff_of_true vmEvaluationPrimitive_exact trivial
  | vmBlock | vmString | vmSymbol | vmInteger | vmBigInteger | vmDouble =>
      exact iff_of_true (fixed_exact rfl rfl rfl (Nat.le_of_ble_eq_true rfl)) trivial

/-- A method with two constants and five bytecodes. -/
theorem marksExactly_method :
    (vmMethod 8 16 24 32 40 48 56 64 [72, 80] 5).layout.MarksExactly
      fun _ => some (vmInteger 88 2).layout := by
  have constructed : (vmMethod 8 16 24 32 40 48 56 64 [72, 80] 5).Constructed
      fun _ => some (vmInteger 88 2).layout := ⟨by decide, 88, rfl⟩
  exact (marksExactly_iff constructed).mpr trivial

/-- `Array new: -1` has one reference, and marking would go through 1073741824 words. -/
theorem marks_beyond_array :
    (vmArray (-1) 8 []).Constructed (fun _ => none) ∧
      (vmArray (-1) 8 []).layout.words = [.reference 8] ∧
      (vmArray (-1) 8 []).layout.getNumberOfMarkableFields (fun _ => none) = some 1073741824 ∧
      ¬ (vmArray (-1) 8 []).layout.MarksExactly fun _ => none := by
  refine ⟨⟨by decide, by decide⟩, by decide, by decide, ?_⟩
  rw [vmArray_iff (by decide) (by decide)]
  decide

end Members

end Somr.Memory
