import Somr.Foundation.PackedWords
import Somr.Foundation.SignedWords

/-!
Owns the sizes of arrays in the 32-bit build: the bytes that `NewArray` asks for,
the length that is computed back from them, and the bounds check that relies on it.

The size of an array is computed modulo the word. An array of a negative size, or one
whose size wraps around to less than an object, has a length that was not asked for.
-/

namespace Somr.Memory

open Somr.Foundation

namespace VMArray

variable {Object : Type}

/-! ### Words -/

/-- `sizeof(VMObject)`: the vtable pointer, two words of header, four counters, the 16
characters of the type and the class. -/
def sizeofVMObject : UInt32 := 48

/-- `sizeof(pVMObject)`. -/
def sizeofReference : UInt32 := 4

/-- The class is the only field of an array. -/
def numberOfFields : Int32 := 1

/-- Where a run ends that does not go on with an object. -/
inductive Ending where
  | errorExit (message : String)
  /-- `AllocateObject` prints its line number as a string and does not get to its `exit`. -/
  | badPrintf
  /-- The constructor runs on NULL. -/
  | nullObject
  /-- A slot outside of the memory of the object is accessed. -/
  | outside
deriving DecidableEq, Repr

/-- Is the program told of an error? -/
def Ending.reported : Ending → Bool
  | .errorExit _ => true
  | .badPrintf | .nullObject | .outside => false

/-- An array, with the words of its memory behind the class. -/
structure Instance (Object : Type) where
  objectSize : Int32
  words : List Object
deriving DecidableEq, Repr

/-- What the heap hands out for a number of bytes: the words behind the class. -/
structure Allocator (Object : Type) where
  allocate : UInt32 → Option (List Object)
  whole : ∀ size words, allocate size = some words → words.length = (size.toNat - 48) / 4

/-! ### Sizes and lengths -/

/-- Objects are aligned to 8 bytes and have 48 bytes at least. -/
def adjustSizeInBytes (sizeInBytes : UInt32) : UInt32 :=
  let aligned := (sizeInBytes + (8 - 1)) &&& ~~~(8 - 1 : UInt32)
  if aligned < 48 then 48 else aligned

/-- The bytes `operator new` asks for. -/
def requestedBytes (size : Int32) : UInt32 :=
  let additionalBytes : Int32 := (size.toUInt32 * sizeofReference).toInt32
  sizeofVMObject + additionalBytes.toUInt32

namespace Instance

def getAdditionalSpaceConsumption (array : Instance Object) : Int32 :=
  (array.objectSize.toUInt32 -
    (sizeofVMObject + sizeofReference * (numberOfFields - 1).toUInt32)).toInt32

def getNumberOfIndexableFields (array : Instance Object) : Int32 :=
  (array.getAdditionalSpaceConsumption.toUInt32 / sizeofReference).toInt32

/-- `operator[]`: the slot of an index, checked against the computed length. -/
def slot (array : Instance Object) (idx : Int32) : Except Ending Nat :=
  if array.getNumberOfIndexableFields - 1 < idx ∨ idx < 0 then
    .error (.errorExit "Array index out of bounds")
  else if idx.toInt.toNat < array.words.length then .ok idx.toInt.toNat
  else .error .outside

def get (array : Instance Object) (idx : Int32) : Except Ending Object :=
  match array.slot idx with
  | .error ending => .error ending
  | .ok index =>
      match array.words[index]? with
      | some object => .ok object
      | none => .error .outside

def set (array : Instance Object) (idx : Int32) (object : Object) :
    Except Ending (Instance Object) :=
  match array.slot idx with
  | .error ending => .error ending
  | .ok index => .ok { array with words := array.words.set index object }

/-- `for (; rounds > 0; ++i) (*this)[i] = value(i)`. -/
def store (value : Int32 → Except Ending Object) :
    (rounds : Nat) → Int32 → Instance Object → Except Ending (Instance Object)
  | 0, _, array => .ok array
  | rounds + 1, i, array => do
      store value rounds (i + 1) (← array.set i (← value i))

end Instance

/-! ### Arrays -/

/-- The constructor: a loop up to the size it is given. -/
def construct (nilObject : Object) (size : Int32) (memory : Instance Object) :
    Except Ending (Instance Object) :=
  memory.store (fun _ => .ok nilObject) size.toInt.toNat 0

/-- `AllocateObject`. An adjusted size is never less than an object, so `Allocate` goes
to the collector. -/
def allocateObject (allocator : Allocator Object) (s : UInt32) :
    Except Ending (Instance Object) :=
  let size := adjustSizeInBytes s
  if size < s then .error .badPrintf
  else
    match allocator.allocate size with
    | none => .error .nullObject
    | some words => .ok ⟨s.toInt32, words⟩

/-- `Universe::NewArray`, as `Array class>>new:` calls it. -/
def newArray (allocator : Allocator Object) (nilObject : Object) (size : Int32) :
    Except Ending (Instance Object) := do
  construct nilObject size (← allocateObject allocator (requestedBytes size))

namespace Instance

/-- `Array>>at:`. -/
def at_ (array : Instance Object) (index : Int32) : Except Ending Object := array.get (index - 1)

def copyIndexableFieldsTo (array target : Instance Object) : Except Ending (Instance Object) :=
  target.store array.get array.getNumberOfIndexableFields.toInt.toNat 0

def copyAndExtendWith (allocator : Allocator Object) (nilObject : Object)
    (array : Instance Object) (item : Object) : Except Ending (Instance Object) := do
  let fields := array.getNumberOfIndexableFields.toUInt32
  let result ← newArray allocator nilObject (fields + 1).toInt32
  (← array.copyIndexableFieldsTo result).set fields.toInt32 item

end Instance

/-! ### The computed length -/

/-- The length computed from a number of bytes. -/
def lengthOf (bytes : Nat) : Nat :=
  if 48 ≤ bytes then (bytes - 48) / 4 else (bytes + 4294967296 - 48) / 4

/-- The slots of a new array that lie in its memory. -/
def slotsInside (size : Int32) : Nat := ((requestedBytes size).toNat - 48) / 4

/-- The slots that the length of a new array counts behind its memory. -/
def slotsOutside (size : Int32) : Nat :=
  lengthOf (requestedBytes size).toNat - slotsInside size

/-- A size that is not negative, or comes to no slot at all. -/
def Fillable (size : Int32) : Prop := 0 ≤ size.toInt ∨ requestedBytes size = 48

instance (size : Int32) : Decidable (Fillable size) := inferInstanceAs (Decidable (_ ∨ _))

namespace Instance

/-- The bytes asked for, as the object has stored them. -/
def bytes (array : Instance Object) : Nat := array.objectSize.toUInt32.toNat

theorem toInt_getNumberOfIndexableFields (array : Instance Object) :
    array.getNumberOfIndexableFields.toInt = lengthOf array.bytes := by
  have bound := array.objectSize.toUInt32.toNat_lt
  have base : (sizeofVMObject + sizeofReference * (numberOfFields - 1).toUInt32).toNat = 48 := by
    decide
  have consumption : array.getAdditionalSpaceConsumption.toUInt32.toNat =
      (4294967296 - 48 + array.bytes) % 4294967296 := by
    rw [getAdditionalSpaceConsumption, UInt32.toUInt32_toInt32, UInt32.toNat_sub, base]
    rfl
  have quotient : (array.getAdditionalSpaceConsumption.toUInt32 / sizeofReference).toNat =
      lengthOf array.bytes := by
    rw [UInt32.toNat_div, consumption]
    unfold lengthOf bytes
    change _ / 4 = _
    split <;> omega
  have small : lengthOf array.bytes < 2147483648 := by
    rw [← quotient, UInt32.toNat_div, consumption]
    change _ / 4 < _
    omega
  rw [getNumberOfIndexableFields, toInt_ofUInt32 (by omega), quotient]

theorem lengthOf_lt (array : Instance Object) : lengthOf array.bytes < 1073741824 := by
  have bound : array.bytes < 4294967296 := array.objectSize.toUInt32.toNat_lt
  unfold lengthOf
  split <;> omega

/-! ### Slots -/

theorem toInt_lastIndex (array : Instance Object) :
    (array.getNumberOfIndexableFields - 1).toInt = (lengthOf array.bytes : Int) - 1 := by
  have bound := array.lengthOf_lt
  rw [toInt_pred, array.toInt_getNumberOfIndexableFields, if_neg (by omega)]

/-- An index is checked against the computed length only. -/
theorem slot_inside {array : Instance Object} {idx : Int32} {k : Nat} (position : idx.toInt = k)
    (below : k < lengthOf array.bytes) :
    array.slot idx = if k < array.words.length then .ok k else .error .outside := by
  have last := array.toInt_lastIndex
  have zero : (0 : Int32).toInt = 0 := rfl
  have passes : ¬ (array.getNumberOfIndexableFields - 1 < idx ∨ idx < 0) := by
    rw [Int32.lt_iff_toInt_lt, Int32.lt_iff_toInt_lt, last, zero, position]
    omega
  rw [slot, if_neg passes, position, Int.toNat_natCast]

theorem slot_rejects {array : Instance Object} {idx : Int32}
    (outside : ¬ (0 ≤ idx.toInt ∧ idx.toInt < lengthOf array.bytes)) :
    array.slot idx = .error (.errorExit "Array index out of bounds") := by
  have last := array.toInt_lastIndex
  have zero : (0 : Int32).toInt = 0 := rfl
  have fails : array.getNumberOfIndexableFields - 1 < idx ∨ idx < 0 := by
    rw [Int32.lt_iff_toInt_lt, Int32.lt_iff_toInt_lt, last, zero]
    omega
  exact if_pos fails

/-- The array with another object in a slot. -/
def putAt (array : Instance Object) (k : Nat) (object : Object) : Instance Object :=
  { array with words := array.words.set k object }

theorem set_inside {array : Instance Object} {idx : Int32} {k : Nat} (position : idx.toInt = k)
    (below : k < lengthOf array.bytes) (object : Object) :
    array.set idx object =
      if k < array.words.length then .ok (array.putAt k object) else .error .outside := by
  rw [set, slot_inside position below]
  by_cases here : k < array.words.length
  · rw [if_pos here, if_pos here]
    rfl
  · rw [if_neg here, if_neg here]

theorem set_rejects {array : Instance Object} {idx : Int32}
    (outside : ¬ (0 ≤ idx.toInt ∧ idx.toInt < lengthOf array.bytes)) (object : Object) :
    array.set idx object = .error (.errorExit "Array index out of bounds") := by
  rw [set, slot_rejects outside]

theorem get_rejects {array : Instance Object} {idx : Int32}
    (outside : ¬ (0 ≤ idx.toInt ∧ idx.toInt < lengthOf array.bytes)) :
    array.get idx = .error (.errorExit "Array index out of bounds") := by
  rw [get, slot_rejects outside]

/-! ### Loops -/

/-- Values stored behind a filled part, one after the other. -/
theorem store_values (value : Int32 → Except Ending Object) (values : List Object) {i : Int32}
    {k : Nat} {array : Instance Object} (position : i.toInt = k)
    (fits : k + values.length ≤ lengthOf array.bytes)
    (inside : lengthOf array.bytes ≤ array.words.length)
    (computed : ∀ (idx : Int32) (j : Nat) (object : Object), idx.toInt = (k + j : Nat) →
      values[j]? = some object → value idx = .ok object) :
    ∃ after, array.store value values.length i = .ok after ∧
      after.objectSize = array.objectSize ∧ after.words.length = array.words.length ∧
      after.words.take (k + values.length) = array.words.take k ++ values := by
  induction values generalizing i k array with
  | nil => exact ⟨array, rfl, rfl, rfl, by simp⟩
  | cons object values inductionHypothesis =>
      rw [List.length_cons] at fits
      have bound := array.lengthOf_lt
      have here : k < array.words.length := by omega
      have next := toInt_succ position (by omega)
      have stored : array.set i object = .ok (array.putAt k object) := by
        rw [set_inside position (by omega), if_pos here]
      have first : value i = .ok object := computed i 0 object position rfl
      have room : k + 1 + values.length ≤ lengthOf (array.putAt k object).bytes := by
        change k + 1 + values.length ≤ lengthOf array.bytes
        omega
      have stillInside : lengthOf (array.putAt k object).bytes ≤
          (array.putAt k object).words.length := by
        rw [putAt, List.length_set]
        exact inside
      obtain ⟨after, ran, sameSize, sameLength, filled⟩ :=
        inductionHypothesis next room stillInside
          (fun idx j other there found => computed idx (j + 1) other (by rw [there]; omega) found)
      refine ⟨after, ?_, sameSize, sameLength.trans (List.length_set ..), ?_⟩
      · rw [List.length_cons, store, first]
        change (array.set i object >>= fun stored => stored.store value values.length (i + 1)) = _
        rw [stored]
        exact ran
      · have more : k + (object :: values).length = k + 1 + values.length := by
          rw [List.length_cons]
          omega
        have one : (array.putAt k object).words.take (k + 1) = array.words.take k ++ [object] := by
          rw [putAt, List.take_add_one, List.take_set_of_le (Nat.le_refl k),
            List.getElem?_set_self here]
          rfl
        rw [more, filled, one, List.append_assoc]
        rfl

/-- A loop beyond the computed length ends with an error, where the length is inside. -/
theorem store_beyond (object : Object) (rounds : Nat) {i : Int32} {k : Nat}
    {array : Instance Object} (position : i.toInt = k) (start : k ≤ lengthOf array.bytes)
    (beyond : lengthOf array.bytes < k + rounds)
    (inside : lengthOf array.bytes ≤ array.words.length) :
    array.store (fun _ => .ok object) rounds i =
      .error (.errorExit "Array index out of bounds") := by
  induction rounds generalizing i k array with
  | zero => omega
  | succ rounds inductionHypothesis =>
      have bound := array.lengthOf_lt
      rw [store]
      change (array.set i object >>= fun stored => stored.store _ rounds (i + 1)) = _
      by_cases below : k < lengthOf array.bytes
      · have next := toInt_succ position (by omega)
        rw [set_inside position below, if_pos (by omega)]
        have stillBeyond : lengthOf (array.putAt k object).bytes < k + 1 + rounds := by
          change lengthOf array.bytes < k + 1 + rounds
          omega
        have stillInside : lengthOf (array.putAt k object).bytes ≤
            (array.putAt k object).words.length := by
          rw [putAt, List.length_set]
          exact inside
        exact inductionHypothesis next below stillBeyond stillInside
      · rw [set_rejects (by omega)]
        rfl

/-! ### Arrays that hold a list -/

/-- The array has the size of these elements and holds them in its memory. -/
structure Represents (array : Instance Object) (elements : List Object) : Prop where
  size : array.bytes = 48 + 4 * elements.length
  holds : array.words.take elements.length = elements

theorem Represents.length {array : Instance Object} {elements : List Object}
    (represents : array.Represents elements) : lengthOf array.bytes = elements.length := by
  rw [represents.size, lengthOf, if_pos (by omega)]
  omega

theorem Represents.inside {array : Instance Object} {elements : List Object}
    (represents : array.Represents elements) : elements.length ≤ array.words.length := by
  have lengths := congrArg List.length represents.holds
  rw [List.length_take] at lengths
  omega

theorem Represents.get {array : Instance Object} {elements : List Object}
    (represents : array.Represents elements) {idx : Int32} {k : Nat} {object : Object}
    (position : idx.toInt = k) (found : elements[k]? = some object) :
    array.get idx = .ok object := by
  obtain ⟨below, _⟩ := List.getElem?_eq_some_iff.mp found
  have inside := represents.inside
  have stored : array.words[k]? = some object := by
    rw [← represents.holds, List.getElem?_take_of_lt below] at found
    exact found
  have checked : array.slot idx = .ok k := by
    rw [slot_inside position (by rw [represents.length]; exact below), if_pos (by omega)]
  rw [Instance.get, checked]
  simp only [stored]

end Instance

/-- `Array>>at:` reads the elements from 1 on and rejects every other index. -/
structure IsArray (array : Instance Object) (elements : List Object) : Prop where
  length : array.getNumberOfIndexableFields.toInt = elements.length
  reads : ∀ (index : Int32) (k : Nat), index.toInt = (k + 1 : Nat) → k < elements.length →
    ∃ object, elements[k]? = some object ∧ array.at_ index = .ok object
  rejects : ∀ index : Int32, ¬ (1 ≤ index.toInt ∧ index.toInt ≤ elements.length) →
    array.at_ index = .error (.errorExit "Array index out of bounds")
  inside : elements.length ≤ array.words.length

theorem Instance.Represents.isArray {array : Instance Object} {elements : List Object}
    (represents : array.Represents elements) : IsArray array elements := by
  have bound := array.lengthOf_lt
  have length := represents.length
  refine ⟨?_, ?_, ?_, represents.inside⟩
  · rw [array.toInt_getNumberOfIndexableFields, length]
  · intro index k position below
    refine ⟨elements[k], List.getElem?_eq_getElem below, ?_⟩
    have previous : (index - 1).toInt = (k : Int) := by
      rw [toInt_pred, if_neg (by omega)]
      omega
    exact represents.get previous (List.getElem?_eq_getElem below)
  · intro index outside
    apply Instance.get_rejects
    rw [toInt_pred, length]
    split <;> omega

/-! ### The bytes asked for -/

theorem toNat_requestedBytes (size : Int32) :
    (requestedBytes size).toNat = (48 + size.toUInt32.toNat * 4) % 4294967296 := by
  have fixed : sizeofVMObject.toNat = 48 := rfl
  have each : sizeofReference.toNat = 4 := rfl
  rw [requestedBytes, UInt32.toUInt32_toInt32, UInt32.toNat_add, UInt32.toNat_mul, fixed, each]
  omega

theorem slotsInside_add_slotsOutside (size : Int32) :
    slotsInside size + slotsOutside size = lengthOf (requestedBytes size).toNat := by
  unfold slotsOutside slotsInside lengthOf
  split <;> omega

/-- A loop up to the size that stays in memory fills every slot the length counts. -/
theorem slots_of_filled {size : Int32} (fillable : Fillable size)
    (filled : size.toInt.toNat ≤ slotsInside size) :
    slotsInside size = size.toInt.toNat ∧ slotsOutside size = 0 := by
  have requested := toNat_requestedBytes size
  have unsigned := toNat_toUInt32 size
  rcases fillable with nonnegative | noBytes
  · unfold slotsOutside slotsInside lengthOf at *
    split <;> omega
  · have noSlots : slotsInside size = 0 := by rw [slotsInside, noBytes]; rfl
    have noLength : lengthOf (requestedBytes size).toNat = 0 := by rw [noBytes]; rfl
    rw [slotsOutside, noLength, noSlots]
    exact ⟨(Nat.le_zero.mp (noSlots ▸ filled)).symm, rfl⟩

/-- An array that its constructor does not fill has a slot that was never written. -/
theorem lengthOf_pos_of_not_fillable {size : Int32} (unfillable : ¬ Fillable size) :
    size.toInt.toNat = 0 ∧ 0 < lengthOf (requestedBytes size).toNat := by
  have requested := toNat_requestedBytes size
  obtain ⟨negative, bytes⟩ := not_or.mp unfillable
  have notEmpty : (requestedBytes size).toNat ≠ 48 := fun same => bytes (UInt32.toNat.inj same)
  refine ⟨by omega, ?_⟩
  unfold lengthOf
  split <;> omega

theorem toNat_adjustSizeInBytes (size : UInt32) :
    (adjustSizeInBytes size).toNat = max 48 ((size.toNat + 7) % 4294967296 / 8 * 8) := by
  have aligned : ((size + (8 - 1)) &&& ~~~(8 - 1 : UInt32)).toNat =
      (size.toNat + 7) % 4294967296 / 8 * 8 := by
    have sum : (size + (8 - 1)).toNat = (size.toNat + 7) % 4294967296 := UInt32.toNat_add size 7
    have cleared := PackedWord.toNat_clear (size + (8 - 1)).toBitVec
      (8 - 1 : UInt32).toBitVec (by decide : (8 - 1 : UInt32).toBitVec.toNat = 2 ^ 3 - 1)
    rw [← sum]
    exact cleared
  unfold adjustSizeInBytes
  simp only [UInt32.lt_iff_toNat_lt, aligned]
  have least : (48 : UInt32).toNat = 48 := rfl
  rw [least]
  split
  · rw [least]
    omega
  · rw [aligned]
    omega

/-- Only the largest multiple of 4 cannot be rounded up. -/
theorem allocateObject_eq (allocator : Allocator Object) (size : Int32) :
    allocateObject allocator (requestedBytes size) =
      if (requestedBytes size).toNat = 4294967292 then .error .badPrintf
      else
        match allocator.allocate (adjustSizeInBytes (requestedBytes size)) with
        | none => .error .nullObject
        | some words => .ok ⟨(requestedBytes size).toInt32, words⟩ := by
  have requested := toNat_requestedBytes size
  have adjusted := toNat_adjustSizeInBytes (requestedBytes size)
  have check : adjustSizeInBytes (requestedBytes size) < requestedBytes size ↔
      (requestedBytes size).toNat = 4294967292 := by
    rw [UInt32.lt_iff_toNat_lt, adjusted]
    omega
  unfold allocateObject
  simp only [check]

/-! ### New arrays -/

section

variable {allocator : Allocator Object} {nilObject : Object} {size : Int32} {words : List Object}

theorem newArray_badPrintf (unaligned : (requestedBytes size).toNat = 4294967292) :
    newArray allocator nilObject size = .error .badPrintf := by
  rw [newArray, allocateObject_eq, if_pos unaligned]
  rfl

theorem newArray_null (aligned : (requestedBytes size).toNat ≠ 4294967292)
    (noMemory : allocator.allocate (adjustSizeInBytes (requestedBytes size)) = none) :
    newArray allocator nilObject size = .error .nullObject := by
  rw [newArray, allocateObject_eq, if_neg aligned, noMemory]
  rfl

theorem newArray_eq (aligned : (requestedBytes size).toNat ≠ 4294967292)
    (memory : allocator.allocate (adjustSizeInBytes (requestedBytes size)) = some words) :
    newArray allocator nilObject size =
      construct nilObject size ⟨(requestedBytes size).toInt32, words⟩ := by
  rw [newArray, allocateObject_eq, if_neg aligned, memory]
  rfl

theorem bytes_new (requested : UInt32) (words : List Object) :
    (Instance.mk requested.toInt32 words).bytes = requested.toNat := by
  rw [Instance.bytes, UInt32.toUInt32_toInt32]

/-- Memory of the adjusted size holds every slot of the computed length. -/
theorem inside_new
    (memory : allocator.allocate (adjustSizeInBytes (requestedBytes size)) = some words)
    (large : 48 ≤ (requestedBytes size).toNat)
    (aligned : (requestedBytes size).toNat ≠ 4294967292) :
    lengthOf (requestedBytes size).toNat ≤ words.length := by
  have requested := toNat_requestedBytes size
  have whole := allocator.whole _ _ memory
  rw [toNat_adjustSizeInBytes] at whole
  rw [lengthOf, if_pos large, whole]
  omega

theorem newArray_ok {count : Nat} (isCount : size.toInt = count)
    (exact : (requestedBytes size).toNat = 48 + 4 * count)
    (aligned : (requestedBytes size).toNat ≠ 4294967292)
    (memory : allocator.allocate (adjustSizeInBytes (requestedBytes size)) = some words) :
    ∃ array, newArray allocator nilObject size = .ok array ∧
      array.Represents (List.replicate count nilObject) := by
  have inside := inside_new memory (by omega) aligned
  have length : lengthOf (requestedBytes size).toNat = count := by
    rw [exact, lengthOf, if_pos (by omega)]
    omega
  rw [newArray_eq aligned memory, construct, isCount, Int.toNat_natCast]
  have sameBytes := bytes_new (requestedBytes size) words
  have position : (0 : Int32).toInt = (0 : Nat) := rfl
  have stored : ∃ after, (Instance.mk (requestedBytes size).toInt32 words).store
      (fun _ => .ok nilObject) (List.replicate count nilObject).length 0 = .ok after ∧
      after.objectSize = (requestedBytes size).toInt32 ∧ after.words.length = words.length ∧
      after.words.take (0 + (List.replicate count nilObject).length) =
        words.take 0 ++ List.replicate count nilObject := by
    apply Instance.store_values _ _ position
    · rw [sameBytes, length, List.length_replicate, Nat.zero_add]
    · rw [sameBytes]
      exact inside
    · intro idx j object _ found
      rw [List.eq_of_mem_replicate (List.mem_of_getElem? found)]
  obtain ⟨after, ran, sameSize, _, filled⟩ := stored
  rw [List.length_replicate] at ran filled
  refine ⟨after, ran, ?_, ?_⟩
  · rw [List.length_replicate, Instance.bytes, sameSize, UInt32.toUInt32_toInt32, exact]
  · rw [Nat.zero_add, List.take_zero, List.nil_append] at filled
    rw [List.length_replicate]
    exact filled

/-- A size that wrapped around is less than the loop expects, and the bounds check
ends the program. -/
theorem newArray_wrapped {count : Nat} (isCount : size.toInt = count)
    (large : 48 ≤ (requestedBytes size).toNat)
    (wrapped : (requestedBytes size).toNat < 48 + 4 * count)
    (aligned : (requestedBytes size).toNat ≠ 4294967292)
    (memory : allocator.allocate (adjustSizeInBytes (requestedBytes size)) = some words) :
    newArray allocator nilObject size = .error (.errorExit "Array index out of bounds") := by
  have inside := inside_new memory large aligned
  have short : lengthOf (requestedBytes size).toNat < count := by
    have requested := toNat_requestedBytes size
    rw [lengthOf, if_pos large]
    omega
  have position : (0 : Int32).toInt = (0 : Nat) := rfl
  have sameBytes := bytes_new (requestedBytes size) words
  rw [newArray_eq aligned memory, construct, isCount, Int.toNat_natCast]
  apply Instance.store_beyond nilObject count position (Nat.zero_le _)
  · rw [sameBytes, Nat.zero_add]
    exact short
  · rw [sameBytes]
    exact inside

/-- Less than an object is asked for, but there are slots to fill. -/
theorem newArray_outside {count : Nat} (isCount : size.toInt = (count + 1 : Nat))
    (small : (requestedBytes size).toNat < 48)
    (memory : allocator.allocate (adjustSizeInBytes (requestedBytes size)) = some words) :
    newArray allocator nilObject size = .error .outside := by
  have requested := toNat_requestedBytes size
  have whole := allocator.whole _ _ memory
  rw [toNat_adjustSizeInBytes] at whole
  have position : (0 : Int32).toInt = (0 : Nat) := rfl
  have sameBytes := bytes_new (requestedBytes size) words
  have slots : 0 < lengthOf (requestedBytes size).toNat := by
    rw [lengthOf, if_neg (by omega)]
    omega
  rw [newArray_eq (by omega) memory, construct, isCount, Int.toNat_natCast, Instance.store]
  change ((Instance.mk _ words).set 0 nilObject >>= fun stored => stored.store _ count (0 + 1)) = _
  rw [Instance.set_inside position (by rw [sameBytes]; exact slots),
    if_neg (by change ¬ 0 < words.length; omega)]
  rfl

/-- No slot of an array of a negative size is filled. -/
theorem newArray_negative (negative : size.toInt < 0)
    (aligned : (requestedBytes size).toNat ≠ 4294967292)
    (memory : allocator.allocate (adjustSizeInBytes (requestedBytes size)) = some words) :
    newArray allocator nilObject size = .ok ⟨(requestedBytes size).toInt32, words⟩ := by
  have noRounds : size.toInt.toNat = 0 := Int.toNat_of_nonpos (Int.le_of_lt negative)
  rw [newArray_eq aligned memory, construct, noRounds]
  rfl

end

/-! ### Sizes that survive -/

/-- The program is told of an error, or it has an object as expected. -/
def Survives (outcome : Except Ending (Instance Object)) (expected : Instance Object → Prop) :
    Prop :=
  (∃ ending, outcome = .error ending ∧ ending.reported = true) ∨
    ∃ array, outcome = .ok array ∧ expected array

/-- The size is not negative, has not wrapped around to less than an object, can be
rounded up, and the heap has the memory. -/
structure Allocates (allocator : Allocator Object) (size : Int32) : Prop where
  nonnegative : 0 ≤ size.toInt
  object : 48 ≤ (requestedBytes size).toNat
  aligned : (requestedBytes size).toNat ≠ 4294967292
  memory : (allocator.allocate (adjustSizeInBytes (requestedBytes size))).isSome = true

theorem survives_error {ending : Ending} {expected : Instance Object → Prop} :
    Survives (.error ending) expected ↔ ending.reported = true := by
  constructor
  · rintro (⟨other, same, reported⟩ | ⟨array, same, _⟩)
    · cases same
      exact reported
    · cases same
  · intro reported
    exact .inl ⟨ending, rfl, reported⟩

theorem survives_ok {array : Instance Object} {expected : Instance Object → Prop} :
    Survives (.ok array) expected ↔ expected array := by
  constructor
  · rintro (⟨other, same, _⟩ | ⟨other, same, isExpected⟩)
    · cases same
    · cases same
      exact isExpected
  · intro isExpected
    exact .inr ⟨array, rfl, isExpected⟩

/-- What a size that is not negative comes to. -/
theorem newArray_cases (allocator : Allocator Object) (nilObject : Object) {size : Int32}
    {count : Nat} (isCount : size.toInt = count) :
    (∃ array, newArray allocator nilObject size = .ok array ∧
        array.Represents (List.replicate count nilObject) ∧ Allocates allocator size) ∨
      ∃ ending, newArray allocator nilObject size = .error ending ∧
        (ending.reported = true ↔ Allocates allocator size) := by
  have requested := toNat_requestedBytes size
  have unsigned := toNat_toUInt32 size
  by_cases unaligned : (requestedBytes size).toNat = 4294967292
  · exact .inr ⟨.badPrintf, newArray_badPrintf unaligned,
      iff_of_false nofun fun allocates => allocates.aligned unaligned⟩
  · cases memory : allocator.allocate (adjustSizeInBytes (requestedBytes size)) with
    | none =>
        have fails : ¬ Allocates allocator size := by
          intro allocates
          have some := allocates.memory
          rw [memory] at some
          cases some
        exact .inr ⟨.nullObject, newArray_null unaligned memory, iff_of_false nofun fails⟩
    | some words =>
        by_cases small : (requestedBytes size).toNat < 48
        · have fails : ¬ Allocates allocator size := fun allocates => by
            have large := allocates.object
            omega
          obtain ⟨more, rfl⟩ : ∃ more, count = more + 1 := ⟨count - 1, by omega⟩
          exact .inr ⟨.outside, newArray_outside isCount small memory, iff_of_false nofun fails⟩
        · have large : 48 ≤ (requestedBytes size).toNat := Nat.le_of_not_lt small
          have allocates : Allocates allocator size :=
            ⟨by omega, large, unaligned, by rw [memory]; rfl⟩
          by_cases exact : (requestedBytes size).toNat = 48 + 4 * count
          · obtain ⟨array, made, represents⟩ := newArray_ok isCount exact unaligned memory
            exact .inl ⟨array, made, represents, allocates⟩
          · have wrapped : (requestedBytes size).toNat < 48 + 4 * count := by omega
            exact .inr ⟨_, newArray_wrapped isCount large wrapped unaligned memory,
              iff_of_true rfl allocates⟩

/-- An array of the size that `new:` was sent. -/
def IsNew (nilObject : Object) (size : Int32) (array : Instance Object) : Prop :=
  array.getNumberOfIndexableFields = size ∧
    IsArray array (List.replicate size.toInt.toNat nilObject)

theorem newArray_survives_iff (allocator : Allocator Object) (nilObject : Object) (size : Int32) :
    Survives (newArray allocator nilObject size) (IsNew nilObject size) ↔
      Allocates allocator size := by
  by_cases negative : size.toInt < 0
  · have fails : ¬ Allocates allocator size := fun allocates => by
      have nonnegative := allocates.nonnegative
      omega
    by_cases unaligned : (requestedBytes size).toNat = 4294967292
    · rw [newArray_badPrintf unaligned, survives_error]
      exact iff_of_false nofun fails
    · cases memory : allocator.allocate (adjustSizeInBytes (requestedBytes size)) with
      | none =>
          rw [newArray_null unaligned memory, survives_error]
          exact iff_of_false nofun fails
      | some words =>
          rw [newArray_negative negative unaligned memory, survives_ok]
          apply iff_of_false _ fails
          rintro ⟨length, _⟩
          have computed := Instance.toInt_getNumberOfIndexableFields
            ⟨(requestedBytes size).toInt32, words⟩
          rw [length] at computed
          omega
  · obtain ⟨count, isCount⟩ : ∃ count : Nat, size.toInt = count :=
      ⟨size.toInt.toNat, (Int.toNat_of_nonneg (by omega)).symm⟩
    rcases newArray_cases allocator nilObject isCount with
      ⟨array, made, represents, allocates⟩ | ⟨ending, made, reported⟩
    · rw [made, survives_ok]
      apply iff_of_true _ allocates
      have isArray := represents.isArray
      constructor
      · apply Int32.toInt.inj
        rw [isArray.length, List.length_replicate, isCount]
      · rw [isCount, Int.toNat_natCast]
        exact isArray
    · rw [made, survives_error]
      exact reported

/-! ### Extended copies -/

/-- The elements are copied into the slots of a new array and the item behind them. -/
theorem copy_into {array result : Instance Object} {elements : List Object}
    {nilObject : Object} (represents : array.Represents elements)
    (new : result.Represents (List.replicate (elements.length + 1) nilObject)) (item : Object)
    {last : Int32} (isLast : last.toInt = elements.length) :
    ∃ after, (array.copyIndexableFieldsTo result >>= fun copied => copied.set last item) =
        .ok after ∧ after.Represents (elements ++ [item]) := by
  have resultLength := new.length
  have resultInside := new.inside
  have resultSize := new.size
  rw [List.length_replicate] at resultLength resultInside resultSize
  have rounds : array.getNumberOfIndexableFields.toInt.toNat = elements.length := by
    rw [array.toInt_getNumberOfIndexableFields, represents.length, Int.toNat_natCast]
  have position : (0 : Int32).toInt = (0 : Nat) := rfl
  have stored : ∃ after, result.store array.get elements.length 0 = .ok after ∧
      after.objectSize = result.objectSize ∧ after.words.length = result.words.length ∧
      after.words.take (0 + elements.length) = result.words.take 0 ++ elements := by
    apply Instance.store_values _ _ position
    · omega
    · omega
    · intro idx j object there found
      rw [Nat.zero_add] at there
      exact represents.get there found
  obtain ⟨copied, ran, sameSize, sameLength, filled⟩ := stored
  rw [Nat.zero_add, List.take_zero, List.nil_append] at filled
  have copiedBytes : copied.bytes = result.bytes := by
    rw [Instance.bytes, Instance.bytes, sameSize]
  have room : elements.length < copied.words.length := by omega
  refine ⟨copied.putAt elements.length item, ?_, ?_, ?_⟩
  · rw [Instance.copyIndexableFieldsTo, rounds, ran]
    change copied.set last item = _
    rw [Instance.set_inside isLast (by rw [copiedBytes]; omega), if_pos room]
  · change copied.bytes = _
    rw [copiedBytes, resultSize, List.length_append]
    rfl
  · rw [Instance.putAt, List.length_append, List.length_singleton, List.take_add_one,
      List.take_set_of_le (Nat.le_refl _), List.getElem?_set_self room, filled]
    rfl

/-- An array with one element more is what a size one larger comes to. -/
theorem copyAndExtendWith_survives_iff (allocator : Allocator Object) (nilObject : Object)
    {array : Instance Object} {elements : List Object} (represents : array.Represents elements)
    (item : Object) :
    Survives (array.copyAndExtendWith allocator nilObject item)
        (fun longer => IsArray longer (elements ++ [item])) ↔
      Allocates allocator (Int32.ofNat (elements.length + 1)) := by
  have bound := array.lengthOf_lt
  rw [represents.length] at bound
  have length : array.getNumberOfIndexableFields.toInt = elements.length := by
    rw [array.toInt_getNumberOfIndexableFields, represents.length]
  have unsigned : array.getNumberOfIndexableFields.toUInt32.toNat = elements.length := by
    have word := toNat_toUInt32 array.getNumberOfIndexableFields
    omega
  have one : (1 : UInt32).toNat = 1 := rfl
  have isCount : (array.getNumberOfIndexableFields.toUInt32 + 1).toInt32.toInt =
      (elements.length + 1 : Nat) := by
    have sum : (array.getNumberOfIndexableFields.toUInt32 + 1).toNat = elements.length + 1 := by
      rw [UInt32.toNat_add, unsigned, one]
      omega
    rw [toInt_ofUInt32 (by omega), sum]
  have sameSize : Int32.ofNat (elements.length + 1) =
      (array.getNumberOfIndexableFields.toUInt32 + 1).toInt32 := by
    apply Int32.toInt.inj
    rw [isCount, Int32.toInt_ofNat_of_lt (by omega)]
  have isLast : array.getNumberOfIndexableFields.toUInt32.toInt32.toInt = elements.length := by
    rw [toInt_ofUInt32 (by omega), unsigned]
  rw [sameSize, Instance.copyAndExtendWith]
  rcases newArray_cases allocator nilObject isCount with
    ⟨result, made, new, allocates⟩ | ⟨ending, made, reported⟩
  · obtain ⟨after, copied, extended⟩ := copy_into represents new item isLast
    rw [made]
    change Survives (array.copyIndexableFieldsTo result >>= fun copied =>
      copied.set array.getNumberOfIndexableFields.toUInt32.toInt32 item) _ ↔ _
    rw [copied, survives_ok]
    exact iff_of_true extended.isArray allocates
  · rw [made]
    exact survives_error.trans reported

/-- For every heap, every size sent to `new:` and every array that is extended: an error
or an array of that size, if and only if the size survives its computation. -/
theorem array_sizes_iff (allocator : Allocator Object) (nilObject : Object) :
    (∀ size : Int32,
      Survives (newArray allocator nilObject size) (IsNew nilObject size) ↔
        Allocates allocator size) ∧
    ∀ (array : Instance Object) (elements : List Object) (item : Object),
      array.Represents elements →
        (Survives (array.copyAndExtendWith allocator nilObject item)
            (fun longer => IsArray longer (elements ++ [item])) ↔
          Allocates allocator (Int32.ofNat (elements.length + 1))) := by
  constructor
  · exact newArray_survives_iff allocator nilObject
  · intro array elements item represents
    exact copyAndExtendWith_survives_iff allocator nilObject represents item

/-- A heap that has memory for small objects and fills it with zeros. -/
def smallHeap : Allocator Nat where
  allocate size := if size.toNat ≤ 1024 then some (List.replicate ((size.toNat - 48) / 4) 0)
    else none
  whole := by
    intro size words allocated
    split at allocated
    · cases allocated
      exact List.length_replicate
    · cases allocated

/-- `Array new: -1` answers an array of length 1073741823 without a slot in memory. -/
theorem negative_size_allocated :
    newArray smallHeap 7 (-1) = .ok ⟨44, []⟩ ∧
      (⟨44, []⟩ : Instance Nat).getNumberOfIndexableFields = 1073741823 ∧
      ¬ Survives (newArray smallHeap 7 (-1)) (IsNew 7 (-1)) := by
  have made : newArray smallHeap 7 (-1) = .ok ⟨44, []⟩ := by decide
  refine ⟨made, by decide, ?_⟩
  rw [made, survives_ok]
  rintro ⟨length, _⟩
  exact absurd length (by decide)

end VMArray
end Somr.Memory
