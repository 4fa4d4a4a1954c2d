import Somr.Memory.Machine

/-!
Owns the objects the virtual machine makes: the constructors with the sections
they open and the objects they allocate themselves, the requests a run is made
of, and the `New` functions of `Universe`.

A constructor is a program of memory operations, since what matters of it is the
order of its assignments and allocations. A run is a program of requests. The
values of the Integers that frames and methods count with are left out, except
those of `numberOfConstants`, which marking reads; the length of a frame is an
argument for this reason.
-/

namespace Somr.Memory

open Somr.Foundation

/-! ### Constructors -/

namespace Construct

def ask (operation : Operation) : MachineProgram operation.Answer := .single operation

def allocateObject (site : AllocationSite) (entries : Nat) : MachineProgram Address :=
  ask (.allocateObject site entries)

def vmObject (this : Address) (kind : Kind) (numberOfFields : Nat) : MachineProgram Unit :=
  ask (.vmObject this kind numberOfFields 0 "")

def setMember (this : Address) (member : Member) (value : Address) : MachineProgram Unit :=
  ask (.write this (.field member.index) (.pointer value))

/-- Assign something that is no pointer to an object. -/
def setRaw (this : Address) (member : Member) : MachineProgram Unit :=
  ask (.write this (.field member.index) .raw)

def setEntry (this : Address) (idx : Nat) (value : Address) : MachineProgram Unit :=
  ask (.write this (.entry idx) (.pointer value))

def globalObject (name : GlobalObject) : MachineProgram Address := ask (.globalObject name)

def setClass (this : Address) (name : GlobalObject) : MachineProgram Unit := do
  setMember this .clazz (← globalObject name)

def startUninterruptableAllocation : MachineProgram Unit :=
  ask .startUninterruptableAllocation

def endUninterruptableAllocation : MachineProgram Unit := ask .endUninterruptableAllocation

/-- `Universe::NewInteger`, wherever it is called. -/
def newInteger (site : AllocationSite) (value : Int) : MachineProgram Address := do
  let result ← allocateObject site 0
  ask (.vmObject result .vmInteger 0 value "")
  setClass result .integerClass
  return result

/-- Nil in all entries. -/
def fillEntries (this : Address) (size : Nat) : MachineProgram Unit :=
  (List.range size).forM fun idx => do setEntry this idx (← ask .nilObject)

def vmArray (this : Address) (kind : Kind) (size nof : Nat) : MachineProgram Unit := do
  vmObject this kind nof
  startUninterruptableAllocation
  fillEntries this size
  endUninterruptableAllocation

/-- Assign a new Integer. -/
def setInteger (site : AllocationSite) (this : Address) (member : Member) (value : Int) :
    MachineProgram Unit := do
  setMember this member (← newInteger site value)

def vmFrame (this : Address) (size : Nat) : MachineProgram Unit := do
  vmArray this .vmFrame size 6
  startUninterruptableAllocation
  setInteger .vmFrame this .localOffset 0
  setInteger .vmFrame this .bytecodeIndex 0
  setInteger .vmFrame this .stackPointer 0
  endUninterruptableAllocation

def vmMethod (this : Address) (bcCount numberOfConstants : Nat) : MachineProgram Unit := do
  vmObject this .vmMethod 7
  startUninterruptableAllocation
  setInteger .vmMethod this .bcLength bcCount
  setInteger .vmMethod this .numberOfLocals 0
  setInteger .vmMethod this .maximumNumberOfStackElements 0
  setInteger .vmMethod this .numberOfArguments 0
  setInteger .vmMethod this .numberOfConstants numberOfConstants
  fillEntries this numberOfConstants
  endUninterruptableAllocation

def vmPrimitive (this : Address) (kind : Kind) (signature : Address) : MachineProgram Unit := do
  vmObject this kind 4
  startUninterruptableAllocation
  setClass this .primitiveClass
  setMember this .signature signature
  setRaw this .routine
  setRaw this .empty
  endUninterruptableAllocation

/-- `VMEvaluationPrimitive::computeSignatureString`; the loop for more arguments
drops what it computes. -/
def computeSignatureString (argc : Nat) : String := if argc = 1 then "value" else "value:"

def vmEvaluationPrimitive (this : Address) (argc : Nat) : MachineProgram Unit := do
  let signature ← ask
    (.symbolFor .computeSignatureString (computeSignatureString argc))
  vmPrimitive this .vmEvaluationPrimitive signature
  startUninterruptableAllocation
  setRaw this .routine
  setRaw this .empty
  ask (.write this .numberOfArguments
    (.pointer (← newInteger .vmEvaluationPrimitive argc)))
  endUninterruptableAllocation

end Construct

/-! ### Requests -/

/-- The members with a setter of their own. -/
inductive Setter where
  | clazz
  | superClass | name | instanceFields | instanceInvokables
  | signature | holder
  | previousFrame | frameContext | frameMethod | stackPointer | bytecodeIndex | localOffset
  | blockMethod | blockContext
deriving DecidableEq, Repr

def Setter.member : Setter → Member
  | .clazz => .clazz
  | .superClass => .superClass
  | .name => .name
  | .instanceFields => .instanceFields
  | .instanceInvokables => .instanceInvokables
  | .signature => .signature
  | .holder => .holder
  | .previousFrame => .previousFrame
  | .frameContext => .frameContext
  | .frameMethod => .frameMethod
  | .stackPointer => .stackPointer
  | .bytecodeIndex => .bytecodeIndex
  | .localOffset => .localOffset
  | .blockMethod => .blockMethod
  | .blockContext => .blockContext

/-- Is this the setter of an object of the C++ class? -/
def Setter.appliesTo : Setter → Kind → Bool
  | .clazz, _ => true
  | .superClass, kind | .name, kind | .instanceFields, kind | .instanceInvokables, kind =>
      kind = .vmClass
  | .signature, kind | .holder, kind =>
      kind = .vmMethod || kind = .vmPrimitive || kind = .vmEvaluationPrimitive
  | .previousFrame, kind | .frameContext, kind | .frameMethod, kind | .stackPointer, kind
  | .bytecodeIndex, kind | .localOffset, kind => kind = .vmFrame
  | .blockMethod, kind | .blockContext, kind => kind = .vmBlock

/-- What the functions of the virtual machine ask of its memory. The requests
named `new` are the `new (_HEAP)` expressions of the source. -/
inductive Request where
  | newObject (numberOfFields : Nat)
  | newArray (size : Int32)
  | newFrame (length : Nat)
  | newMethod (bcCount numberOfConstants : Nat)
  | newBlock
  | newClass (numberOfFields : Nat)
  | newInteger (value : Int)
  | newBigInteger (value : Int)
  | newDouble
  | newString (chars : String)
  | newPrimitive (signature : Address)
  | newEvaluationPrimitive (argc : Nat)
  | symbolFor (text : String)
  | set (object : Address) (setter : Setter) (value : Address)
  | setField (object : Address) (index : Nat) (value : Address)
  | setEntry (object : Address) (index : Nat) (value : Address)
  | inspect (object : Address)
  | hasGlobal (name : Address)
  | setGlobal (name value : Address)
  | nilObject
  | globalObject (name : GlobalObject)
  | assign (name : GlobalObject) (value : Address)
  | fullGC
  | errorExit

def Request.Answer : Request → Type
  | .set .. | .setField .. | .setEntry .. | .setGlobal .. | .assign .. | .fullGC
  | .errorExit => Unit
  | .inspect _ => Cell
  | _ => Address

namespace Construct

/-- Run the constructor of a new object. -/
def construct (allocate : MachineProgram Address) (constructor : Address → MachineProgram Unit) :
    MachineProgram Address := do
  let result ← allocate
  constructor result
  return result

/-- Allocate an object and run its constructor. -/
def new (entries : Nat) (constructor : Address → MachineProgram Unit) : MachineProgram Address :=
  construct (allocateObject .universe entries) constructor

/-- The loop of the constructor makes no round for a negative size. -/
def newArray (size : Int32) : MachineProgram Address :=
  construct (ask (.allocateArray size)) fun this => vmArray this .vmArray size.toInt.toNat 0

/-- Assign to a member of an object of a class that has it. -/
def set (object : Address) (setter : Setter) (value : Address) : MachineProgram Unit := do
  let cell : Cell ← ask (.inspect object)
  if cell.kind.any setter.appliesTo then setMember object setter.member value
  else ask .errorExit

/-- `VMObject::SetField` on an object whose class can declare fields. -/
def setField (object : Address) (index : Nat) (value : Address) : MachineProgram Unit := do
  let cell : Cell ← ask (.inspect object)
  if cell.kind = some .vmObject ∨ cell.kind = some .vmClass then
    ask (.write object (.field index) (.pointer value))
  else ask .errorExit

end Construct

open Construct in
/-- The program of a request. -/
def Request.program : (request : Request) → MachineProgram request.Answer
  | .newObject numberOfFields => new 0 fun this => vmObject this .vmObject numberOfFields
  | .newArray size => Construct.newArray size
  | .newFrame length => new length fun this => vmFrame this length
  | .newMethod bcCount numberOfConstants =>
      new numberOfConstants fun this => vmMethod this bcCount numberOfConstants
  | .newBlock => new 0 fun this => vmObject this .vmBlock 2
  | .newClass numberOfFields => new 0 fun this => vmObject this .vmClass (numberOfFields + 4)
  | .newInteger value => new 0 fun this => ask (.vmObject this .vmInteger 0 value "")
  | .newBigInteger value =>
      new 0 fun this => ask (.vmObject this .vmBigInteger 0 value "")
  | .newDouble => new 0 fun this => vmObject this .vmDouble 0
  | .newString chars => new 0 fun this => ask (.vmObject this .vmString 0 0 chars)
  | .newPrimitive signature => new 0 fun this => vmPrimitive this .vmPrimitive signature
  | .newEvaluationPrimitive argc => new 0 fun this => vmEvaluationPrimitive this argc
  | .symbolFor text => ask (.symbolFor .universe text)
  | .set object setter value => Construct.set object setter value
  | .setField object index value => Construct.setField object index value
  | .setEntry object index value => Construct.setEntry object index value
  | .inspect object => ask (.inspect object)
  | .hasGlobal name => ask (.hasGlobal name)
  | .setGlobal name value => ask (.setGlobal name value)
  | .nilObject => ask .nilObject
  | .globalObject name => ask (.globalObject name)
  | .assign name value => ask (.assign name value)
  | .fullGC => ask .fullGC
  | .errorExit => ask .errorExit

/-- A program of the virtual machine. -/
abbrev VmProgram := Program Request Request.Answer

/-- How `InitializeGlobals` begins: nil, which is its own class for now. -/
def createNil (allocator : Allocator) : MachineM Unit := do
  let nilObject ← Machine.run allocator
    (Construct.new 0 fun this => Construct.vmObject this .vmObject 0)
  Process.modify fun machine => { machine with nilObject := nilObject }
  Machine.write nilObject (.field 0) (.pointer nilObject)

/-- Perform the requests of a program. -/
def VmProgram.perform {Value : Type} (allocator : Allocator) (program : VmProgram Value) :
    MachineM Value :=
  Program.run (fun request => Machine.run allocator request.program) program

/-- A run of the virtual machine: nil first, then the program. -/
def VmProgram.run {Value : Type} (allocator : Allocator) (program : VmProgram Value) :
    MachineM Value := do
  createNil allocator
  program.perform allocator

/-! ### The functions of Universe -/

namespace Universe

def request (request : Request) : VmProgram request.Answer := .single request

/-- `result->SetClass(…)` with a class the virtual machine has a variable for. -/
def setClass (result : Address) (name : GlobalObject) : VmProgram Unit := do
  request (.set result .clazz (← request (.globalObject name)))

def symbolFor (text : String) : VmProgram Address := request (.symbolFor text)

/-- The object a member of an object refers to. -/
def member (object : Address) (member : Member) : VmProgram Address := do
  let cell : Cell ← request (.inspect object)
  match cell.fields[member.index]? with
  | some (.pointer value) => return value
  | _ => do
      request .errorExit
      return 0

/-- A new object of a class the virtual machine has a variable for. -/
def newOfClass (object : VmProgram Address) (name : GlobalObject) : VmProgram Address := do
  let result ← object
  setClass result name
  return result

def newArray (size : Int32) : VmProgram Address :=
  newOfClass (request (.newArray size)) .arrayClass

def newInteger (value : Int) : VmProgram Address :=
  newOfClass (request (.newInteger value)) .integerClass

def newBigInteger (value : Int) : VmProgram Address :=
  newOfClass (request (.newBigInteger value)) .bigIntegerClass

def newDouble : VmProgram Address := newOfClass (request .newDouble) .doubleClass

def newString (str : String) : VmProgram Address :=
  newOfClass (request (.newString str)) .stringClass

def newArrayList (list : List Address) : VmProgram Address := do
  let result ← newArray (.ofNat list.length)
  list.zipIdx.forM fun elem => request (.setEntry result elem.2 elem.1)
  return result

/-- The block has no class while `GetBlockClassWithArgs` runs. -/
def newBlock (getBlockClassWithArgs : VmProgram Address) (method context : Address) :
    VmProgram Address := do
  let result ← request .newBlock
  request (.set result .clazz (← getBlockClassWithArgs))
  request (.set result .blockMethod method)
  request (.set result .blockContext context)
  request (.setGlobal (← member method .signature) result)
  return result

/-- `numFields` is `GetNumberOfInstanceFields` of the metaclass. -/
def newClass (classOfClass : Address) (numFields : Nat) : VmProgram Address := do
  let result ← request (.newClass numFields)
  request (.set result .clazz classOfClass)
  request (.setGlobal (← symbolFor "NewClass") result)
  return result

def newFrame (previousFrame method : Address) (length : Nat) : VmProgram Address := do
  let result ← newOfClass (request (.newFrame length)) .frameClass
  request (.set result .frameMethod method)
  if previousFrame ≠ 0 then request (.set result .previousFrame previousFrame) else pure ()
  request (.setGlobal (← member (← request (.globalObject .frameClass)) .name) result)
  return result

/-- `numberOfFields` is `GetNumberOfInstanceFields` of the class. -/
def newInstance (classOfInstance : Address) (numberOfFields : Nat) : VmProgram Address := do
  let result ← request (.newObject (numberOfFields - 1))
  request (.set result .clazz classOfInstance)
  return result

/-- A class with a metaclass that has this class. -/
def newMetaclassClass : VmProgram Address := do
  let result ← request (.newClass 0)
  let mclass ← request (.newClass 0)
  request (.set result .clazz mclass)
  request (.set mclass .clazz result)
  return result

def newSystemClass : VmProgram Address := do
  let systemClass ← request (.newClass 0)
  let mclass ← request (.newClass 0)
  request (.set systemClass .clazz mclass)
  setClass mclass .metaClassClass
  request (.setGlobal (← symbolFor "SystemClass") systemClass)
  return systemClass

def newMethod (signature : Address) (numberOfBytecodes numberOfConstants : Nat) :
    VmProgram Address := do
  let result ← newOfClass (request (.newMethod numberOfBytecodes numberOfConstants)) .methodClass
  request (.set result .signature signature)
  request (.setGlobal signature result)
  return result

/-- `VMPrimitive::GetEmptyPrimitive`. -/
def getEmptyPrimitive (sig : Address) : VmProgram Address := request (.newPrimitive sig)

end Universe

end Somr.Memory
