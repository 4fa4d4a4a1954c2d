import Somr.Foundation.KeyedEntries

/-!
Owns the heap objects of the virtual machine as the collector sees them: the
C++ class of an object, its slots, and which of them marking enumerates.

An object that has been allocated but not constructed has no class yet. A slot
that no constructor has written, or that holds something else than a pointer, is
raw.
-/

namespace Somr.Memory

open Somr.Foundation

/-- Where an object lies; 0 is `NULL`. -/
abbrev Address := Nat

/-- The C++ classes with objects of their own. -/
inductive Kind where
  | vmObject | vmArray | vmFrame | vmMethod | vmPrimitive | vmEvaluationPrimitive | vmBlock
  | vmClass | vmInteger | vmBigInteger | vmDouble | vmString | vmSymbol
deriving DecidableEq, Repr

inductive Slot where
  | pointer (address : Address)
  | raw
deriving DecidableEq, Repr

/-- `fields` are the slots `FIELDS[0]` up to `numberOfFields`, the class first;
`entries` are the slots behind them that the object was allocated with, and `unbacked`
is the number of slots that the length of an array counts behind its memory.
`numberOfArguments` is the member of `VMEvaluationPrimitive` behind its fields. -/
structure Cell where
  kind : Option Kind := none
  fields : List Slot := []
  entries : List Slot := []
  unbacked : Nat := 0
  numberOfArguments : Slot := .raw
  embeddedInteger : Int := 0
  chars : String := ""
deriving DecidableEq, Repr

abbrev Heap := List (Address × Cell)

namespace Heap

/-- The object at an address. -/
def cell? (heap : Heap) (address : Address) : Option Cell :=
  valueOf (fun a b => a == b) address heap

def addresses (heap : Heap) : List Address := heap.map Prod.fst

/-- The text of a string or symbol. -/
def getChars? (heap : Heap) (address : Address) : Option String :=
  match heap.cell? address with
  | some cell => if cell.kind = some .vmString ∨ cell.kind = some .vmSymbol then some cell.chars
      else none
  | none => none

/-- `VMInteger::GetEmbeddedInteger`; no value where the object is no Integer. -/
def getEmbeddedInteger? (heap : Heap) : Option Slot → Option Int
  | some (.pointer address) =>
      match heap.cell? address with
      | some cell => if cell.kind = some .vmInteger then some cell.embeddedInteger else none
      | none => none
  | _ => none

end Heap

/-! ### Members -/

/-- The index of a C++ member among the fields of its class. -/
inductive Member where
  | clazz
  | superClass | name | instanceFields | instanceInvokables
  | signature | holder
  | numberOfLocals | maximumNumberOfStackElements | bcLength | numberOfArguments
  | numberOfConstants
  | routine | empty
  | previousFrame | frameContext | frameMethod | stackPointer | bytecodeIndex | localOffset
  | blockMethod | blockContext
deriving DecidableEq, Repr

def Member.index : Member → Nat
  | .clazz => 0
  | .superClass | .signature | .previousFrame | .blockMethod => 1
  | .name | .holder | .frameContext | .blockContext => 2
  | .instanceFields | .numberOfLocals | .routine | .frameMethod => 3
  | .instanceInvokables | .maximumNumberOfStackElements | .empty | .stackPointer => 4
  | .bcLength | .bytecodeIndex => 5
  | .numberOfArguments | .localOffset => 6
  | .numberOfConstants => 7

/-! ### Marking -/

namespace Cell

/-- `GetNumberOfIndexableFields`. An array counts by the size it asked for, a method
reads the Integer that `numberOfConstants` refers to. -/
def getNumberOfIndexableFields (heap : Heap) (cell : Cell) : Option Int :=
  match cell.kind with
  | some .vmArray | some .vmFrame => some (cell.entries.length + cell.unbacked)
  | some .vmMethod => heap.getEmbeddedInteger? cell.fields[Member.numberOfConstants.index]?
  | _ => some 0

/-- `GetNumberOfMarkableFields`; none where the object has no class yet or the
count is read from something that is no Integer. -/
def getNumberOfMarkableFields (heap : Heap) (cell : Cell) : Option Int :=
  match cell.kind with
  | none => none
  | some .vmPrimitive => some (cell.fields.length - 2)
  | some .vmEvaluationPrimitive => some (cell.fields.length - 2 + 1)
  | some _ => (cell.getNumberOfIndexableFields heap).map (cell.fields.length + ·)

/-- The slots an object has for pointers, in the order marking enumerates them. -/
def ownSlots (cell : Cell) : List Slot :=
  match cell.kind with
  | some .vmEvaluationPrimitive => cell.fields.take (cell.fields.length - 2) ++
      [cell.numberOfArguments]
  | _ => cell.fields ++ cell.entries

/-- `GetMarkableFieldObj`; none where the word lies outside the object. -/
def getMarkableFieldObj (heap : Heap) (cell : Cell) (idx : Nat) : Option Slot :=
  match cell.kind with
  | some .vmEvaluationPrimitive =>
      if idx < cell.fields.length - 2 then cell.fields[idx]?
      else if idx = cell.fields.length - 2 then some cell.numberOfArguments
      else some (.pointer 0)
  | _ =>
      if idx < cell.fields.length then cell.fields[idx]?
      else if (idx : Int) < cell.fields.length + (cell.getNumberOfIndexableFields heap).getD 0 then
        cell.entries[idx - cell.fields.length]?
      else some (.pointer 0)

/-- The objects `markingScheme_scanObject` finds in an object; what it finds in
one it cannot count is undefined. -/
def scanned (heap : Heap) (cell : Cell) : List Address :=
  match cell.getNumberOfMarkableFields heap with
  | none => []
  | some count => (List.range count.toNat).filterMap fun idx =>
      match cell.getMarkableFieldObj heap idx with
      | some (.pointer address) => some address
      | _ => none

end Cell

/-- The objects found in the object at an address. -/
def Heap.successors (heap : Heap) (address : Address) : List Address :=
  match heap.cell? address with
  | none => []
  | some cell => cell.scanned heap

end Somr.Memory
