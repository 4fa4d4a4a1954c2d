import Somr.Compiler.Nesting
import Somr.Foundation.Programs

/-!
Owns the frames and blocks of a running program: the data of `VMFrame` and
`VMBlock`, and the operations on one frame.

Frames and blocks are named by their positions in two lists that only grow. A
method is named by the compilation it comes from and its position there. Every
other object is a plain `Object` of the image.
-/

namespace Somr.Interpreter

open Foundation Compiler

/-! ### Methods -/

/-- What compiling one class source leaves. -/
structure Compilation where
  objects : List CompiledObject
  classContext : ClassGenerationContext

/-- The compilation of a class definition by the parser. -/
def Compilation.ofDefinition (definition : ClassDefinition) : Compilation :=
  ⟨(Parser.parse definition.tokens).state.objects,
    (Parser.parse definition.tokens).state.classContext⟩

/-- A method object: the one of the bootstrap, or one of a compilation. -/
inductive MethodAddress where
  | bootstrap
  | compiled (compilation address : Nat)
deriving DecidableEq, Repr

/-- The `bootstrapMethod` of `Universe::initialize`. -/
def bootstrapMethod : CompiledMethod := ⟨"bootstrap", 0, some 2, [], [Bytecode.halt]⟩

/-- The contents of a method object. -/
def methodAt (compilations : List Compilation) : MethodAddress → Option CompiledMethod
  | .bootstrap => some bootstrapMethod
  | .compiled compilation address =>
      match (compilations[compilation]?).bind fun source => source.objects[address]? with
      | some (.method method) => some method
      | _ => none

/-- The method object among those of its compilation. -/
theorem object_of_methodAt {compilations : List Compilation} {compilation address : Nat}
    {source : Compilation} (compiled : compilations[compilation]? = some source)
    {method : CompiledMethod}
    (found : methodAt compilations (.compiled compilation address) = some method) :
    source.objects[address]? = some (.method method) := by
  rw [methodAt, compiled] at found
  simp only [Option.bind_some] at found
  split at found
  · next method' object =>
      obtain rfl := Option.some.inj found
      exact object
  · exact nomatch found

/-- `GetNumberOfArguments`, which `SetSignature` computes. -/
def numberOfArguments (method : CompiledMethod) : Nat :=
  Signature.getNumberOfArguments method.signature

/-! ### Frames and blocks -/

/-- A `pVMObject` of a running program. -/
inductive Value (Object : Type) where
  | object (object : Object)
  | block (address : Nat)
  | frame (address : Nat)
deriving DecidableEq, Repr

/-- A `VMFrame`; `none` is `nilObject`. -/
structure Frame (Object : Type) where
  previousFrame : Option Nat
  context : Option Nat := none
  method : MethodAddress
  stackPointer : Int
  bytecodeIndex : Nat
  localOffset : Nat
  slots : List (Value Object)
deriving DecidableEq, Repr

/-- A `VMBlock`. -/
structure Block where
  method : MethodAddress
  context : Nat
deriving DecidableEq, Repr

/-- The running program. `frame` is the frame of the interpreter, and the world is
what the other objects hold. -/
structure State (World Object : Type) where
  frames : List (Frame Object) := []
  blocks : List Block := []
  frame : Option Nat := none
  world : World
deriving DecidableEq, Repr

/-- Why the interpreter stops between two bytecodes: `ErrorExit` or `Quit` end the
process, the C++ program leaves its defined behaviour, or its stack is exhausted. -/
inductive Halt where
  | exit
  | undefined
  | stackOverflow
deriving DecidableEq, Repr

abbrev InterpreterM (World Object : Type) : Type → Type :=
  Process Empty Halt (State World Object)

section

variable {World Object : Type}

def readFrame (address : Nat) : InterpreterM World Object (Frame Object) := do
  let state ← Process.read
  Process.demand .undefined state.frames[address]?

def changeFrame (address : Nat) (change : Frame Object → Frame Object) :
    InterpreterM World Object Unit :=
  Process.modify fun state => { state with frames := state.frames.modify address change }

/-- `GetFrame`, where the interpreter uses the frame. -/
def getFrame : InterpreterM World Object Nat := do
  let state ← Process.read
  Process.demand .undefined state.frame

def setFrame (frame : Option Nat) : InterpreterM World Object Unit :=
  Process.modify fun state => { state with frame := frame }

/-! ### Slots -/

/-- `VMArray::operator[]` of a frame, read. -/
def element (address : Nat) (idx : Int) : InterpreterM World Object (Value Object) := do
  let frame ← readFrame address
  Process.demand .exit (if idx < 0 then none else frame.slots[idx.toNat]?)

/-- `VMArray::operator[]` of a frame, written. -/
def setElement (address : Nat) (idx : Int) (value : Value Object) :
    InterpreterM World Object Unit := do
  let _ ← element address idx
  changeFrame address fun frame => { frame with slots := frame.slots.set idx.toNat value }

/-- `VMFrame::Pop`: the stack pointer moves even if the slot does not exist. -/
def pop (address : Nat) : InterpreterM World Object (Value Object) := do
  let frame ← readFrame address
  changeFrame address fun frame => { frame with stackPointer := frame.stackPointer - 1 }
  element address frame.stackPointer

def push (address : Nat) (value : Value Object) : InterpreterM World Object Unit := do
  let frame ← readFrame address
  changeFrame address fun frame => { frame with stackPointer := frame.stackPointer + 1 }
  setElement address (frame.stackPointer + 1) value

def getStackElement (address : Nat) (index : Int) : InterpreterM World Object (Value Object) := do
  let frame ← readFrame address
  element address (frame.stackPointer - index)

/-- `VMFrame::RemainingStackSize`. -/
def Frame.remainingStackSize (frame : Frame Object) : Int :=
  frame.slots.length - frame.stackPointer - 1

/-! ### Contexts -/

/-- `VMFrame::GetContextLevel`. -/
def getContextLevel (address : Nat) : Nat → InterpreterM World Object Nat
  | 0 => pure address
  | lvl + 1 => do
      let frame ← readFrame address
      let context ← Process.demand .undefined frame.context
      getContextLevel context lvl

/-- The loop of `VMFrame::GetOuterContext`. -/
def getOuterContextFrom : (rounds : Nat) → (address : Nat) → InterpreterM World Object Nat
  | 0, _ => Process.stop .undefined
  | rounds + 1, address => do
      let frame ← readFrame address
      match frame.context with
      | none => pure address
      | some context => getOuterContextFrom rounds context

/-- `VMFrame::GetOuterContext`; a chain of contexts longer than the list of frames
would be a cycle. -/
def getOuterContext (address : Nat) : InterpreterM World Object Nat := do
  let state ← Process.read
  getOuterContextFrom (state.frames.length + 1) address

def getLocal (address index contextLevel : Nat) : InterpreterM World Object (Value Object) := do
  let context ← getContextLevel address contextLevel
  let frame ← readFrame context
  element context (frame.localOffset + index)

def setLocal (address index contextLevel : Nat) (value : Value Object) :
    InterpreterM World Object Unit := do
  let context ← getContextLevel address contextLevel
  let frame ← readFrame context
  setElement context (frame.localOffset + index) value

def getArgument (address index contextLevel : Nat) :
    InterpreterM World Object (Value Object) := do
  let context ← getContextLevel address contextLevel
  element context index

def setArgument (address index contextLevel : Nat) (value : Value Object) :
    InterpreterM World Object Unit := do
  let context ← getContextLevel address contextLevel
  setElement context index value

end

/-! ### Equations -/

section

variable {World Object : Type} {state : State World Object} {address : Nat}
  {frame : Frame Object}

theorem readFrame_run (found : state.frames[address]? = some frame) :
    (readFrame address).run state = ⟨.ok frame, state, []⟩ := by
  rw [readFrame, Process.bind_of_silent (Process.run_read state), found]
  rfl

theorem element_run {idx : Nat} {value : Value Object}
    (found : state.frames[address]? = some frame) (inside : frame.slots[idx]? = some value) :
    (element address idx).run state = ⟨.ok value, state, []⟩ := by
  rw [element, Process.bind_of_silent (readFrame_run found), if_neg (by omega), Int.toNat_natCast,
    inside]
  rfl

theorem setElement_run {idx : Nat} (value : Value Object)
    (found : state.frames[address]? = some frame) (inside : idx < frame.slots.length) :
    (setElement address idx value).run state =
      ⟨.ok (), { state with
        frames := state.frames.set address { frame with slots := frame.slots.set idx value } },
        []⟩ := by
  have old : frame.slots[idx]? = some frame.slots[idx] := List.getElem?_eq_getElem inside
  rw [setElement, Process.bind_of_silent (element_run found old), changeFrame, Process.run_modify]
  simp only [Int.toNat_natCast]
  rw [List.modify_eq_set_getElem?, found]
  rfl

theorem getContextLevel_zero_run :
    (getContextLevel address 0).run state = ⟨.ok address, state, []⟩ := rfl

theorem getContextLevel_succ_run {context lvl : Nat}
    (found : state.frames[address]? = some frame) (linked : frame.context = some context) :
    (getContextLevel address (lvl + 1)).run state = (getContextLevel context lvl).run state := by
  rw [getContextLevel, Process.bind_of_silent (readFrame_run found), linked, Process.demand_some,
    Process.pure_bind]

end

/-! ### Reading rules -/

section

variable {World Object Result : Type} {relation : RunRelation Empty (State World Object)}
  {state : State World Object} {post : Result → State World Object → Prop}

theorem getFrame_triple {rest : Nat → InterpreterM World Object Result}
    (late : ∀ address, state.frame = some address →
      Process.Triple relation (fun other => other = state) (rest address) post) :
    Process.Triple relation (fun other => other = state) (getFrame >>= rest) post := by
  rw [getFrame, Process.bind_assoc]
  exact .read (.demand late)

theorem readFrame_triple {address : Nat}
    {rest : Frame Object → InterpreterM World Object Result}
    (late : ∀ frame, state.frames[address]? = some frame →
      Process.Triple relation (fun other => other = state) (rest frame) post) :
    Process.Triple relation (fun other => other = state) (readFrame address >>= rest) post := by
  rw [readFrame, Process.bind_assoc]
  exact .read (.demand late)

end

end Somr.Interpreter
