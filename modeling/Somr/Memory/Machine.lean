import Somr.Foundation.TextSearch
import Somr.Foundation.Programs
import Somr.Foundation.Reachability
import Somr.Memory.ArraySizes
import Somr.Memory.Objects

/-!
Owns the memory of the virtual machine: the heap, what the collector takes as
roots, the symbol table, and the operations the machine performs on them.

The allocator is a parameter: it places objects at free addresses and collects
when it likes, and a collection frees exactly the objects it does not reach from
the roots. An operation on an object that has been reclaimed stops the run, as
do the other accesses that C++ leaves undefined.
-/

namespace Somr.Memory

open Somr.Foundation

/-- The global variables of C++ that refer to objects, except `nilObject`. -/
inductive GlobalObject where
  | trueObject | falseObject
  | objectClass | classClass | metaClassClass | nilClass | integerClass | bigIntegerClass
  | arrayClass | methodClass | symbolClass | frameClass | primitiveClass | stringClass
  | systemClass | blockClass | doubleClass
deriving DecidableEq, Repr

/-- An entry of `rootTable` is a `RootEntry`: the symbol whose characters are its
name, and `rootPtr`. `uninterruptable` are the first
`UninterruptableAllocationObjectCount` entries of the array. -/
structure Machine where
  heap : Heap := []
  numAlloc : Nat := 0
  rootTable : List (Address × Address) := []
  uninterruptable : List Address := []
  uninterruptableCounter : Int := 0
  symtab : List (String × Address) := []
  nilObject : Address := 0
  globalObjects : GlobalObject → Address := fun _ => 0

namespace Machine

/-- What `markingScheme_scanRoots` marks. -/
def roots (machine : Machine) : List Address :=
  machine.rootTable.map Prod.snd ++ machine.uninterruptable

def Live (machine : Machine) (address : Address) : Prop :=
  Reachable machine.heap.addresses machine.heap.successors machine.roots address

/-- The objects a collection keeps. -/
def marked (machine : Machine) : List Address :=
  Foundation.marked machine.heap.addresses machine.heap.successors machine.roots

/-- The machine after a collection. -/
def collected (machine : Machine) : Machine :=
  { machine with heap := machine.heap.filter fun entry => machine.marked.contains entry.1 }

/-- `Symboltable::lookup`, with 0 for a string without an entry. -/
def lookup (machine : Machine) (restrict : String) : Address :=
  (valueOf (fun a b => a == b) restrict machine.symtab).getD 0

/-- `strcmp` on the characters two addresses point at; a reclaimed symbol has none. -/
def sameChars (machine : Machine) (left right : Address) : Bool :=
  match machine.heap.getChars? left, machine.heap.getChars? right with
  | some leftChars, some rightChars => leftChars == rightChars
  | _, _ => false

/-- `Universe::HasGlobal`, with 0 for an unbound name. -/
def hasGlobal (machine : Machine) (name : Address) : Address :=
  (valueOf machine.sameChars name machine.rootTable).getD 0

end Machine

/-! ### Allocator, events and stops -/

/-- The part of OMR that places objects and decides when to collect. -/
structure Allocator where
  collects : Nat → Bool
  place : Nat → List Address → Option Address
  free : ∀ {count used address}, place count used = some address →
    address ≠ 0 ∧ address ∉ used

/-- The constructor or function of the virtual machine that an object is allocated in. -/
inductive AllocationSite where
  | universe
  | vmMethod
  | vmFrame
  | vmEvaluationPrimitive
  | computeSignatureString
deriving DecidableEq, Repr

/-- `allocation` is an allocation point, before a collection and the new object, and
`array` the size that an array is asked for with. `dropped` is a step that may take
references away, from one machine to the next, and `symbol` the result of a
`SymbolFor` call. -/
inductive Event where
  | allocation (site : AllocationSite) (machine : Machine)
  | array (size : Int32)
  | collection (machine : Machine)
  | store (value : Address) (machine : Machine)
  | global (name value : Address) (machine : Machine)
  | dropped (before after : Machine)
  | symbol (text : String) (symbol : Address) (machine : Machine)

inductive Halt where
  /-- The allocator has no memory left. -/
  | exhausted
  /-- The array of uninterruptable objects is full. -/
  | overrun
  /-- `AllocateObject` cannot round the size up and crashes in its `printf`. -/
  | badPrintf
  /-- The object has been reclaimed or was never there. -/
  | reclaimed
  /-- The word lies outside the object. -/
  | outside
  /-- The program reports an error and ends. -/
  | errorExit
deriving DecidableEq, Repr

abbrev MachineM := Process Event Halt Machine

/-! ### Operations -/

/-- A slot of an object. -/
inductive Place where
  | field (index : Nat)
  | entry (index : Nat)
  | numberOfArguments
deriving DecidableEq, Repr

def Place.inside (cell : Cell) : Place → Bool
  | .field index => index < cell.fields.length
  | .entry index => index < cell.entries.length
  | .numberOfArguments => true

/-- How an assignment outside the object ends: `VMArray::operator[]` reports an index
that the length does not count. -/
def Place.halt (cell : Cell) : Place → Halt
  | .entry index =>
      if (cell.kind = some .vmArray ∨ cell.kind = some .vmFrame) ∧
          cell.entries.length + cell.unbacked ≤ index then .errorExit
      else .outside
  | _ => .outside

/-- The memory of an object that has no class and no field yet. -/
def Cell.handedOut (entries unbacked : Nat) : Cell :=
  { entries := List.replicate entries .raw, unbacked := unbacked }

def Cell.write (cell : Cell) (slot : Slot) : Place → Cell
  | .field index => { cell with fields := cell.fields.set index slot }
  | .entry index => { cell with entries := cell.entries.set index slot }
  | .numberOfArguments => { cell with numberOfArguments := slot }

/-- What the functions of the virtual machine do to memory. -/
inductive Operation where
  | allocateObject (site : AllocationSite) (entries : Nat)
  | allocateArray (size : Int32)
  | vmObject (object : Address) (kind : Kind) (numberOfFields : Nat) (embeddedInteger : Int)
      (chars : String)
  | write (object : Address) (place : Place) (slot : Slot)
  | inspect (object : Address)
  | startUninterruptableAllocation
  | endUninterruptableAllocation
  | symbolFor (site : AllocationSite) (text : String)
  | hasGlobal (name : Address)
  | setGlobal (name value : Address)
  | nilObject
  | globalObject (name : GlobalObject)
  | assign (name : GlobalObject) (value : Address)
  | fullGC
  | errorExit

def Operation.Answer : Operation → Type
  | .allocateObject _ _ | .allocateArray _ | .symbolFor _ _ | .hasGlobal _ | .nilObject
  | .globalObject _ => Address
  | .inspect _ => Cell
  | _ => Unit

abbrev MachineProgram := Program Operation Operation.Answer

namespace Machine

variable (allocator : Allocator)

/-- A step that may take references away. -/
def dropping (change : Machine → Machine) : MachineM Unit := do
  let before ← Process.read
  Process.modify change
  Process.emit (.dropped before)

def collect : MachineM Unit := do
  Process.emit .collection
  dropping collected

/-- The capacity of `UninterruptableAllocationObjectArray`. -/
def uninterruptableCapacity : Nat := 65536

def addUninterruptableAllocationObject (object : Address) : MachineM Unit := do
  if (← Process.read).uninterruptable.length < uninterruptableCapacity then
    Process.modify fun machine =>
      { machine with uninterruptable := machine.uninterruptable ++ [object] }
  else Process.stop .overrun

/-- The collection the allocator makes room with. -/
def collectOnDemand : MachineM Unit := do
  if allocator.collects (← Process.read).numAlloc then collect else pure ()

/-- The machine with a new object. -/
def placed (machine : Machine) (object : Address) (cell : Cell) : Machine :=
  { machine with
    heap := machine.heap ++ [(object, cell)]
    numAlloc := machine.numAlloc + 1 }

def placeObject (cell : Cell) : MachineM Address := do
  let machine ← Process.read
  let object ← Process.demand .exhausted
    (allocator.place machine.numAlloc machine.heap.addresses)
  Process.modify fun machine => machine.placed object cell
  return object

/-- `Heap::AllocateObject`. -/
def allocateObject (site : AllocationSite) (cell : Cell) : MachineM Address := do
  Process.emit (.allocation site)
  collectOnDemand allocator
  let object ← placeObject allocator cell
  addUninterruptableAllocationObject object
  return object

/-- `new (_HEAP, additionalBytes) VMArray`, with the check of `AllocateObject`. -/
def allocateArray (size : Int32) : MachineM Address := do
  Process.emit fun _ => .array size
  let bytes := VMArray.requestedBytes size
  let memory : Cell := .handedOut (VMArray.slotsInside size) (VMArray.slotsOutside size)
  if VMArray.adjustSizeInBytes bytes < bytes then Process.stop .badPrintf
  else allocateObject allocator .universe memory

/-- The machine with another object at an address. -/
def withCell (machine : Machine) (object : Address) (cell : Cell) : Machine :=
  { machine with heap := assign (fun a b => a == b) object cell machine.heap }

def inspect (object : Address) : MachineM Cell := do
  Process.demand .reclaimed ((← Process.read).heap.cell? object)

/-- The fields `VMObject::VMObject` leaves: nil in all of them, then `NULL` for the class. -/
def initialFields (nilObject : Address) (numberOfFields : Nat) : List Slot :=
  .pointer 0 :: List.replicate numberOfFields (.pointer nilObject)

/-- `VMObject::VMObject` with the class and the value of the object's own constructor. -/
def vmObject (object : Address) (kind : Kind) (numberOfFields : Nat) (embeddedInteger : Int)
    (chars : String) : MachineM Unit := do
  let cell ← inspect object
  if cell.kind = none then
    let nilObject := (← Process.read).nilObject
    Process.modify fun machine => machine.withCell object
      { cell with
        kind := some kind
        fields := initialFields nilObject numberOfFields
        embeddedInteger := embeddedInteger
        chars := chars }
  else Process.stop .outside

def recordStore : Slot → MachineM Unit
  | .pointer value => Process.emit (.store value)
  | .raw => return ()

def write (object : Address) (place : Place) (slot : Slot) : MachineM Unit := do
  recordStore slot
  let cell ← inspect object
  if place.inside cell then dropping fun machine => machine.withCell object (cell.write slot place)
  else Process.stop (place.halt cell)

def startUninterruptableAllocation : MachineM Unit :=
  Process.modify fun machine =>
    { machine with uninterruptableCounter := machine.uninterruptableCounter + 1 }

def endUninterruptableAllocation : MachineM Unit :=
  dropping fun machine =>
    { machine with
      uninterruptableCounter := machine.uninterruptableCounter - 1
      uninterruptable := if machine.uninterruptableCounter - 1 = 0 then []
        else machine.uninterruptable }

/-- `Universe::NewSymbol` with `Symboltable::insert`. -/
def newSymbol (site : AllocationSite) (str : String) : MachineM Address := do
  let result ← allocateObject allocator site (.handedOut 0 0)
  vmObject result .vmSymbol 0 0 str
  write result (.field Member.clazz.index) (.pointer ((← Process.read).globalObjects .symbolClass))
  Process.modify fun machine =>
    { machine with symtab := assign (fun a b => a == b) str result machine.symtab }
  return result

/-- `Universe::SymbolForChars`. -/
def symbolForChars (site : AllocationSite) (str : String) : MachineM Address := do
  let found := (← Process.read).lookup str
  if found ≠ 0 then return found else newSymbol allocator site str

/-- `Universe::SymbolFor`; the C string ends at the first NUL. -/
def symbolFor (site : AllocationSite) (text : String) : MachineM Address := do
  let str := String.ofList (cString text.toList)
  let result ← symbolForChars allocator site str
  Process.emit (.symbol str result)
  return result

def setGlobal (name value : Address) : MachineM Unit := do
  Process.emit (.global name value)
  dropping fun machine =>
    { machine with rootTable := assign machine.sameChars name value machine.rootTable }

/-- Perform one operation. -/
def perform : (operation : Operation) → MachineM operation.Answer
  | .allocateObject site entries => allocateObject allocator site (.handedOut entries 0)
  | .allocateArray size => allocateArray allocator size
  | .vmObject object kind numberOfFields embeddedInteger chars =>
      vmObject object kind numberOfFields embeddedInteger chars
  | .write object place slot => write object place slot
  | .inspect object => inspect object
  | .startUninterruptableAllocation => startUninterruptableAllocation
  | .endUninterruptableAllocation => endUninterruptableAllocation
  | .symbolFor site text => symbolFor allocator site text
  | .hasGlobal name => (·.hasGlobal name) <$> Process.read
  | .setGlobal name value => setGlobal name value
  | .nilObject => (·.nilObject) <$> Process.read
  | .globalObject name => (·.globalObjects name) <$> Process.read
  | .assign name value =>
      Process.modify fun machine =>
        { machine with globalObjects := Function.update machine.globalObjects name value }
  | .fullGC => collect
  | .errorExit => Process.stop .errorExit

/-- Run a program of the virtual machine. -/
def run {Value : Type} (program : MachineProgram Value) : MachineM Value :=
  program.run (perform allocator)

end Machine
end Somr.Memory
