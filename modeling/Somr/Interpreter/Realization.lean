import Somr.Foundation.Readings
import Somr.Interpreter.Evaluation
import Somr.Interpreter.Rounds

/-!
Owns the relation between a running interpreter and the store of an evaluation:
every frame keeps an activation, and the frames on the chain of callers stand at a
bytecode with the values they have pushed.
-/

namespace Somr.Interpreter

open Foundation Compiler

/-! ### Code -/

/-- How many bytes an instruction takes. -/
def Instruction.size (instruction : Instruction) : Nat :=
  1 + if instruction.slot?.isSome then 2 else if instruction.literal?.isSome then 1 else 0

/-- The bytes behind an instruction name its operands. -/
def OperandsAt (method : CompiledMethod) (index : Nat) (instruction : Instruction) : Prop :=
  (∀ slot ∈ instruction.slot?, ∃ first second : UInt8, method.bytecode[index + 1]? = some first ∧
    method.bytecode[index + 2]? = some second ∧ slot = (first.toNat, second.toNat)) ∧
  ∀ literal ∈ instruction.literal?, ∃ byte : UInt8, method.bytecode[index + 1]? = some byte ∧
    method.literals[byte.toNat]? = some literal

/-- The code of a method from an index on is read as these instructions. -/
def ReadsCode (method : CompiledMethod) (index : Nat) (code : List Instruction) : Prop :=
  ∃ rounds, decodeFrom method.literals rounds (method.bytecode.drop index) = some code

/-- The bytes behind a bytecode, for the kind of operands it has. -/
def ReadFrom (literals : List Literal) (instruction : Instruction) (bytes rest : List UInt8) :
    Prop :=
  (instruction.slot? = none ∧ instruction.literal? = none ∧ bytes = rest) ∨
    (∃ first second : UInt8, instruction.slot? = some (first.toNat, second.toNat) ∧
      instruction.literal? = none ∧ bytes = first :: second :: rest) ∨
    ∃ (byte : UInt8) (literal : Literal), instruction.slot? = none ∧
      instruction.literal? = some literal ∧ literals[byte.toNat]? = some literal ∧
      bytes = byte :: rest

theorem fetchSlot_eq_some {literals : List Literal} {make : Nat → Nat → Instruction}
    (isSlot : ∀ first second, (make first second).slot? = some (first, second))
    (noLiteral : ∀ first second, (make first second).literal? = none) {bytes rest : List UInt8}
    {instruction : Instruction} (fetched : fetchSlot make bytes = some (instruction, rest)) :
    (∃ first second, instruction = make first second) ∧
      ReadFrom literals instruction bytes rest := by
  match bytes, fetched with
  | first :: second :: _, fetched =>
      obtain ⟨rfl, rfl⟩ := Prod.mk.inj (Option.some.inj fetched)
      exact ⟨⟨_, _, rfl⟩, .inr (.inl ⟨first, second, isSlot _ _, noLiteral _ _, rfl⟩)⟩

theorem fetchConstant_eq_some {literals : List Literal} {make : Literal → Instruction}
    (noSlot : ∀ literal, (make literal).slot? = none)
    (isLiteral : ∀ literal, (make literal).literal? = some literal) {bytes rest : List UInt8}
    {instruction : Instruction}
    (fetched : fetchConstant literals make bytes = some (instruction, rest)) :
    (∃ literal, instruction = make literal) ∧ ReadFrom literals instruction bytes rest := by
  match bytes, fetched with
  | byte :: _, fetched =>
      obtain ⟨literal, found, same⟩ := Option.map_eq_some_iff.mp fetched
      obtain ⟨rfl, rfl⟩ := Prod.mk.inj same
      exact ⟨⟨literal, rfl⟩, .inr (.inr ⟨byte, literal, noSlot _, isLiteral _, found, rfl⟩)⟩

/-- What is fetched has the bytecode at the head and the operands behind it. -/
theorem fetch_eq_some {literals : List Literal} {byte : UInt8} {bytes rest : List UInt8}
    {instruction : Instruction}
    (fetched : fetch literals (byte :: bytes) = some (instruction, rest)) :
    byte = instruction.opcode ∧ ReadFrom literals instruction bytes rest := by
  have plain {here : Instruction} (noSlot : here.slot? = none) (noLiteral : here.literal? = none)
      (same : some (here, bytes) = some (instruction, rest)) :
      here = instruction ∧ ReadFrom literals instruction bytes rest := by
    obtain ⟨rfl, rfl⟩ := Prod.mk.inj (Option.some.inj same)
    exact ⟨rfl, .inl ⟨noSlot, noLiteral, rfl⟩⟩
  have slot {make : Nat → Nat → Instruction}
      (isSlot : ∀ first second, (make first second).slot? = some (first, second))
      (noLiteral : ∀ first second, (make first second).literal? = none) {opcode : UInt8}
      (isOpcode : ∀ first second, (make first second).opcode = opcode)
      (same : fetchSlot make bytes = some (instruction, rest)) :
      opcode = instruction.opcode ∧ ReadFrom literals instruction bytes rest := by
    obtain ⟨⟨first, second, rfl⟩, readFrom⟩ := fetchSlot_eq_some isSlot noLiteral same
    exact ⟨(isOpcode first second).symm, readFrom⟩
  have constant {make : Literal → Instruction} (noSlot : ∀ literal, (make literal).slot? = none)
      (isLiteral : ∀ literal, (make literal).literal? = some literal) {opcode : UInt8}
      (isOpcode : ∀ literal, (make literal).opcode = opcode)
      (same : fetchConstant literals make bytes = some (instruction, rest)) :
      opcode = instruction.opcode ∧ ReadFrom literals instruction bytes rest := by
    obtain ⟨⟨literal, rfl⟩, readFrom⟩ := fetchConstant_eq_some noSlot isLiteral same
    exact ⟨(isOpcode literal).symm, readFrom⟩
  rw [fetch] at fetched
  rcases ite_eq_iff.mp fetched with ⟨isHalt, fetched⟩ | ⟨-, fetched⟩
  · obtain ⟨rfl, readFrom⟩ := plain rfl rfl fetched
    exact ⟨isHalt, readFrom⟩
  rcases ite_eq_iff.mp fetched with ⟨isDup, fetched⟩ | ⟨-, fetched⟩
  · obtain ⟨rfl, readFrom⟩ := plain rfl rfl fetched
    exact ⟨isDup, readFrom⟩
  rcases ite_eq_iff.mp fetched with ⟨isPushLocal, fetched⟩ | ⟨-, fetched⟩
  · exact isPushLocal ▸ slot (fun _ _ => rfl) (fun _ _ => rfl) (fun _ _ => rfl) fetched
  rcases ite_eq_iff.mp fetched with ⟨isPushArgument, fetched⟩ | ⟨-, fetched⟩
  · exact isPushArgument ▸ slot (fun _ _ => rfl) (fun _ _ => rfl) (fun _ _ => rfl) fetched
  rcases ite_eq_iff.mp fetched with ⟨isPushField, fetched⟩ | ⟨-, fetched⟩
  · exact isPushField ▸ constant (fun _ => rfl) (fun _ => rfl) (fun _ => rfl) fetched
  rcases ite_eq_iff.mp fetched with ⟨isPushBlock, fetched⟩ | ⟨-, fetched⟩
  · exact isPushBlock ▸ constant (fun _ => rfl) (fun _ => rfl) (fun _ => rfl) fetched
  rcases ite_eq_iff.mp fetched with ⟨isPushConstant, fetched⟩ | ⟨-, fetched⟩
  · exact isPushConstant ▸ constant (fun _ => rfl) (fun _ => rfl) (fun _ => rfl) fetched
  rcases ite_eq_iff.mp fetched with ⟨isPushGlobal, fetched⟩ | ⟨-, fetched⟩
  · exact isPushGlobal ▸ constant (fun _ => rfl) (fun _ => rfl) (fun _ => rfl) fetched
  rcases ite_eq_iff.mp fetched with ⟨isPop, fetched⟩ | ⟨-, fetched⟩
  · obtain ⟨rfl, readFrom⟩ := plain rfl rfl fetched
    exact ⟨isPop, readFrom⟩
  rcases ite_eq_iff.mp fetched with ⟨isPopLocal, fetched⟩ | ⟨-, fetched⟩
  · exact isPopLocal ▸ slot (fun _ _ => rfl) (fun _ _ => rfl) (fun _ _ => rfl) fetched
  rcases ite_eq_iff.mp fetched with ⟨isPopArgument, fetched⟩ | ⟨-, fetched⟩
  · exact isPopArgument ▸ slot (fun _ _ => rfl) (fun _ _ => rfl) (fun _ _ => rfl) fetched
  rcases ite_eq_iff.mp fetched with ⟨isPopField, fetched⟩ | ⟨-, fetched⟩
  · exact isPopField ▸ constant (fun _ => rfl) (fun _ => rfl) (fun _ => rfl) fetched
  rcases ite_eq_iff.mp fetched with ⟨isSend, fetched⟩ | ⟨-, fetched⟩
  · exact isSend ▸ constant (fun _ => rfl) (fun _ => rfl) (fun _ => rfl) fetched
  rcases ite_eq_iff.mp fetched with ⟨isSuperSend, fetched⟩ | ⟨-, fetched⟩
  · exact isSuperSend ▸ constant (fun _ => rfl) (fun _ => rfl) (fun _ => rfl) fetched
  rcases ite_eq_iff.mp fetched with ⟨isReturnLocal, fetched⟩ | ⟨-, fetched⟩
  · obtain ⟨rfl, readFrom⟩ := plain rfl rfl fetched
    exact ⟨isReturnLocal, readFrom⟩
  rcases ite_eq_iff.mp fetched with ⟨isReturnNonLocal, fetched⟩ | ⟨-, fetched⟩
  · obtain ⟨rfl, readFrom⟩ := plain rfl rfl fetched
    exact ⟨isReturnNonLocal, readFrom⟩
  exact nomatch fetched

theorem getBytecodeLength_opcode (instruction : Instruction) :
    Bytecode.getBytecodeLength instruction.opcode = some (Instruction.size instruction) := by
  cases instruction <;> rfl

theorem ReadsCode.cons {method : CompiledMethod} {index : Nat} {instruction : Instruction}
    {rest : List Instruction} (reads : ReadsCode method index (instruction :: rest)) :
    method.bytecode[index]? = some instruction.opcode ∧ OperandsAt method index instruction ∧
      ReadsCode method (index + Instruction.size instruction) rest := by
  obtain ⟨rounds, decoded⟩ := reads
  cases code : method.bytecode.drop index with
  | nil =>
      rw [code] at decoded
      cases rounds <;> exact absurd decoded (by simp [decodeFrom])
  | cons byte bytes =>
      rw [code] at decoded
      cases rounds with
      | zero => exact absurd decoded (Option.some_ne_none _).symm
      | succ rounds =>
          obtain ⟨⟨first, behind⟩, fetched, more⟩ := Option.bind_eq_some_iff.mp decoded
          obtain ⟨later, decodedLater, same⟩ := Option.bind_eq_some_iff.mp more
          obtain ⟨rfl, rfl⟩ := List.cons.inj (Option.some.inj same)
          obtain ⟨rfl, readFrom⟩ := fetch_eq_some fetched
          have byteAt (offset : Nat) : method.bytecode[index + offset]? =
              (first.opcode :: bytes)[offset]? := by
            rw [← List.getElem?_drop, code]
          have dropped (offset : Nat) : method.bytecode.drop (index + offset) =
              (first.opcode :: bytes).drop offset := by
            rw [← List.drop_drop, code]
          refine ⟨byteAt 0, ?_, rounds, ?_⟩
          · rcases readFrom with ⟨noSlot, noLiteral, -⟩ | ⟨one, two, isSlot, noLiteral, rfl⟩ |
              ⟨one, literal, noSlot, isLiteral, found, rfl⟩
            · rw [OperandsAt, noSlot, noLiteral]
              exact ⟨fun _ isIt => absurd isIt (Option.not_mem_none _),
                fun _ isIt => absurd isIt (Option.not_mem_none _)⟩
            · rw [OperandsAt, isSlot, noLiteral]
              refine ⟨fun slot isIt => ?_, fun _ isIt => absurd isIt (Option.not_mem_none _)⟩
              obtain rfl := Option.mem_some.mp isIt
              exact ⟨one, two, byteAt 1, byteAt 2, rfl⟩
            · rw [OperandsAt, noSlot, isLiteral]
              refine ⟨fun _ isIt => absurd isIt (Option.not_mem_none _), fun other isIt => ?_⟩
              obtain rfl := Option.mem_some.mp isIt
              exact ⟨one, byteAt 1, found⟩
          · rw [dropped]
            rcases readFrom with ⟨noSlot, noLiteral, rfl⟩ | ⟨one, two, isSlot, noLiteral, rfl⟩ |
              ⟨one, literal, noSlot, isLiteral, found, rfl⟩
            · rw [Instruction.size, noSlot, noLiteral]
              exact decodedLater
            · rw [Instruction.size, isSlot]
              exact decodedLater
            · rw [Instruction.size, noSlot, isLiteral]
              exact decodedLater

/-! ### Frames -/

section

variable {compilations : List Compilation} {World Object : Type}

/-- A frame keeps what an activation has. -/
structure Frame.Keeps (frame : Frame Object) (activation : Activation Object) : Prop where
  previousFrame : frame.previousFrame = activation.caller
  context : frame.context = activation.context
  method : frame.method = activation.method
  localOffset : frame.localOffset = activation.arguments.length
  slots : activation.variables <+: frame.slots

/-- An activation that runs or waits for an answer: its code, where it goes on, and the
values it has pushed, the last one first. -/
structure Pending (Object : Type) where
  address : Nat
  method : CompiledMethod
  bytecodeIndex : Nat
  stack : List (Value Object)

/-- The frame stands where the activation goes on, with room for all its code. -/
structure StandsAt (compilations : List Compilation) (frame : Frame Object)
    (activation : Activation Object) (entry : Pending Object) : Prop where
  isMethod : methodAt compilations activation.method = some entry.method
  argc : activation.arguments.length = numberOfArguments entry.method
  numberOfLocals : activation.locals.length = entry.method.numberOfLocals
  bytecodeIndex : frame.bytecodeIndex = entry.bytecodeIndex
  holds : frame.Holds (activation.variables ++ entry.stack.reverse)
  sized : ∃ bound, entry.method.maximumNumberOfStackElements = some bound ∧
    activation.variables.length + bound.toNat ≤ frame.slots.length

/-- Every frame keeps the activation at its address, and stands as it is pending. -/
structure Corresponds (compilations : List Compilation) (state : State World Object)
    (store : Store World Object) (pending : List (Pending Object)) : Prop where
  length : state.frames.length = store.activations.length
  keeps : ∀ (address : Nat) (frame : Frame Object) (activation : Activation Object),
    state.frames[address]? = some frame → store.activations[address]? = some activation →
      frame.Keeps activation
  stands : ∀ entry ∈ pending, ∃ (frame : Frame Object) (activation : Activation Object),
    state.frames[entry.address]? = some frame ∧
      store.activations[entry.address]? = some activation ∧
      StandsAt compilations frame activation entry
  blocks : state.blocks = store.blocks
  world : state.world = store.world

/-- Every pending activation was called by the next one, which has pushed its
arguments. -/
inductive Calls (store : Store World Object) : List (Pending Object) → Prop where
  | outermost {entry : Pending Object} {activation : Activation Object} :
      store.activations[entry.address]? = some activation → activation.caller = none →
      Calls store [entry]
  | call {entry sender : Pending Object} {rest : List (Pending Object)}
      {activation : Activation Object} :
      store.activations[entry.address]? = some activation →
      activation.caller = some sender.address →
      numberOfArguments entry.method ≤ sender.stack.length → Calls store (sender :: rest) →
      Calls store (entry :: sender :: rest)

/-- The interpreter runs the first of the pending activations of the store. -/
structure Realizes (compilations : List Compilation) (state : State World Object)
    (store : Store World Object) (pending : List (Pending Object)) : Prop
    extends Corresponds compilations state store pending where
  running : state.frame = pending.head?.map Pending.address
  calls : Calls store pending
  distinct : (pending.map Pending.address).Nodup

/-- The sender of a message once it has been answered. -/
def Pending.answered (argc : Nat) (value : Value Object) (sender : Pending Object) :
    Pending Object :=
  { sender with stack := value :: sender.stack.drop argc }

/-- What is pending after a home has answered its sender in place of all that it has
called. -/
inductive Escapes (home : Nat) (value : Value Object) :
    List (Pending Object) → List (Pending Object) → Prop where
  | home {entry sender : Pending Object} {rest : List (Pending Object)} :
      entry.address = home →
      Escapes home value (entry :: sender :: rest)
        (sender.answered (numberOfArguments entry.method) value :: rest)
  | inner {entry : Pending Object} {rest later : List (Pending Object)} :
      entry.address ≠ home → Escapes home value rest later →
      Escapes home value (entry :: rest) later

variable {state : State World Object} {store : Store World Object}
  {pending rest : List (Pending Object)} {entry : Pending Object} {frame : Frame Object}
  {activation : Activation Object} {address : Nat}

/-! ### Frames and activations at an address -/

theorem Corresponds.ofActivation (corresponds : Corresponds compilations state store pending)
    (there : store.activations[address]? = some activation) :
    ∃ frame, state.frames[address]? = some frame ∧ frame.Keeps activation := by
  obtain ⟨below, -⟩ := List.getElem?_eq_some_iff.mp there
  rw [← corresponds.length] at below
  have found := List.getElem?_eq_getElem below
  exact ⟨_, found, corresponds.keeps _ _ _ found there⟩

/-- What an entry of the pending activations stands for. -/
structure Standing (compilations : List Compilation) (state : State World Object)
    (store : Store World Object) (entry : Pending Object) (frame : Frame Object)
    (activation : Activation Object) : Prop where
  found : state.frames[entry.address]? = some frame
  there : store.activations[entry.address]? = some activation
  keeps : frame.Keeps activation
  stands : StandsAt compilations frame activation entry

theorem Corresponds.standing (corresponds : Corresponds compilations state store pending)
    (member : entry ∈ pending) :
    ∃ frame activation, Standing compilations state store entry frame activation := by
  obtain ⟨frame, activation, found, there, stands⟩ := corresponds.stands entry member
  exact ⟨frame, activation, found, there, corresponds.keeps _ _ _ found there, stands⟩

/-- The frame and the activation at an address are replaced by others. -/
theorem Corresponds.set (corresponds : Corresponds compilations state store pending)
    {later : List (Pending Object)} {changed : Frame Object} {other : Activation Object}
    (keeps : changed.Keeps other) (inside : address < store.activations.length)
    (stands : ∀ entry ∈ later, entry.address = address → StandsAt compilations changed other entry)
    (others : ∀ entry ∈ later, entry.address ≠ address → entry ∈ pending) :
    Corresponds compilations (state.put address changed)
      { store with activations := store.activations.set address other } later := by
  have insideFrames : address < state.frames.length := corresponds.length ▸ inside
  refine ⟨?_, fun there frame activation found isActivation => ?_, fun entry member => ?_,
    corresponds.blocks, corresponds.world⟩
  · rw [State.put, List.length_set, List.length_set]
    exact corresponds.length
  · by_cases same : there = address
    · subst same
      rw [State.put, List.getElem?_set_self insideFrames] at found
      rw [List.getElem?_set_self inside] at isActivation
      obtain rfl := Option.some.inj found
      obtain rfl := Option.some.inj isActivation
      exact keeps
    · rw [State.put, List.getElem?_set_ne (Ne.symm same)] at found
      rw [List.getElem?_set_ne (Ne.symm same)] at isActivation
      exact corresponds.keeps _ _ _ found isActivation
  · by_cases same : entry.address = address
    · refine ⟨changed, other, ?_, ?_, stands entry member same⟩
      · rw [same, State.put, List.getElem?_set_self insideFrames]
      · rw [same, List.getElem?_set_self inside]
    · obtain ⟨frame, activation, found, there, standing⟩ :=
        corresponds.stands entry (others entry member same)
      refine ⟨frame, activation, ?_, ?_, standing⟩
      · rw [State.put, List.getElem?_set_ne (Ne.symm same)]
        exact found
      · rw [List.getElem?_set_ne (Ne.symm same)]
        exact there

/-- Callers and addresses are all that a chain of calls depends on. -/
theorem Calls.congr {other : Store World Object} (calls : Calls store pending)
    (same : ∀ entry ∈ pending,
      (other.activations[entry.address]?).map Activation.caller =
        (store.activations[entry.address]?).map Activation.caller) :
    Calls other pending := by
  have callerOf {entry : Pending Object} {activation : Activation Object}
      (member : entry ∈ pending) (there : store.activations[entry.address]? = some activation) :
      ∃ changed, other.activations[entry.address]? = some changed ∧
        changed.caller = activation.caller := by
    have callers := same entry member
    rw [there, Option.map_some] at callers
    obtain ⟨changed, found, caller⟩ := Option.map_eq_some_iff.mp callers
    exact ⟨changed, found, caller⟩
  induction calls with
  | outermost there none =>
      obtain ⟨changed, found, caller⟩ := callerOf (List.mem_singleton_self _) there
      exact .outermost found (caller.trans none)
  | call there called enough _ inductionHypothesis =>
      obtain ⟨changed, found, caller⟩ := callerOf List.mem_cons_self there
      refine .call found (caller.trans called) enough (inductionHypothesis ?_ ?_)
      · exact fun entry member => same entry (List.mem_cons_of_mem _ member)
      · exact fun member => callerOf (List.mem_cons_of_mem _ member)

/-- The first of a chain of calls may go on. -/
theorem Calls.goOn {other : Pending Object} (calls : Calls store (entry :: rest))
    (sameAddress : other.address = entry.address) (sameMethod : other.method = entry.method) :
    Calls store (other :: rest) := by
  cases calls with
  | outermost there none => exact .outermost (sameAddress ▸ there) none
  | call there called enough more => exact .call (sameAddress ▸ there) called (sameMethod ▸ enough) more

/-! ### Readings -/

/-- The frame and the activation at an address. -/
structure FrameOf (state : State World Object) (store : Store World Object) (address : Nat)
    (frame : Frame Object) (activation : Activation Object) : Prop where
  found : state.frames[address]? = some frame
  there : store.activations[address]? = some activation
  keeps : frame.Keeps activation

theorem Corresponds.readFrame (corresponds : Corresponds compilations state store pending)
    (address : Nat) :
    Process.ReadsAs (FrameOf state store address) (readFrame address) (readActivation address)
      state store := by
  refine Process.readsAs_read.bind ?_
  rintro _ _ ⟨rfl, rfl⟩
  refine Process.readsAs_demand fun activation there => ?_
  obtain ⟨frame, found, keeps⟩ := corresponds.ofActivation there
  exact ⟨frame, found, found, there, keeps⟩

theorem Corresponds.getContextLevel (corresponds : Corresponds compilations state store pending)
    (level : Nat) : ∀ address, Process.ReadsAs Eq (getContextLevel address level)
      (lexicalContext address level) state store := by
  induction level with
  | zero => exact fun address => Process.readsAs_pure rfl
  | succ level inductionHypothesis =>
      intro address
      refine (corresponds.readFrame address).bind fun frame activation frameOf => ?_
      refine (Process.readsAs_found fun context isContext =>
        frameOf.keeps.context.trans isContext).bind ?_
      rintro context _ rfl
      exact inductionHypothesis context

theorem Corresponds.getOuterContext (corresponds : Corresponds compilations state store pending)
    (address : Nat) :
    Process.ReadsAs Eq (getOuterContext address) (homeOf address) state store := by
  have walk (rounds : Nat) : ∀ address, Process.ReadsAs Eq (getOuterContextFrom rounds address)
      (homeFrom rounds address) state store := by
    induction rounds with
    | zero => exact fun address => Process.readsAs_stop _ _
    | succ rounds inductionHypothesis =>
        intro address
        refine (corresponds.readFrame address).bind fun frame activation frameOf => ?_
        rw [frameOf.keeps.context]
        cases activation.context with
        | none => exact Process.readsAs_pure rfl
        | some context => exact inductionHypothesis context
  refine Process.readsAs_read.bind ?_
  rintro _ _ ⟨rfl, rfl⟩
  rw [corresponds.length]
  exact walk _ address

/-- A variable is read from its slot. -/
theorem FrameOf.element (frameOf : FrameOf state store address frame activation) {idx : Nat}
    {slot? : Option (Value Object)}
    (isSlot : ∀ value, slot? = some value → activation.variables[idx]? = some value) :
    Process.ReadsAs Eq (element address idx)
      (Process.demand .undefined slot? : EvaluationM World Object _) state store := by
  cases slot? with
  | none => exact Process.readsAs_stop _ _
  | some value =>
      have inActivation := isSlot value rfl
      obtain ⟨rest, slots⟩ := frameOf.keeps.slots
      obtain ⟨inside, -⟩ := List.getElem?_eq_some_iff.mp inActivation
      have there : frame.slots[idx]? = some value := by
        rw [← slots, List.getElem?_append_left inside, inActivation]
      intro answer after events ran
      obtain ⟨same, rfl, -⟩ := Outcome.mk.inj ran
      obtain rfl := Except.ok.inj same
      exact ⟨rfl, value, rfl, element_run frameOf.found there⟩

theorem Activation.argument {idx : Nat} {value : Value Object}
    (isArgument : activation.arguments[idx]? = some value) :
    activation.variables[idx]? = some value := by
  obtain ⟨inside, -⟩ := List.getElem?_eq_some_iff.mp isArgument
  rw [Activation.variables, List.getElem?_append_left inside, isArgument]

theorem Activation.local {idx : Nat} {value : Value Object}
    (isLocal : activation.locals[idx]? = some value) :
    activation.variables[activation.arguments.length + idx]? = some value := by
  rw [Activation.variables, List.getElem?_append_right (Nat.le_add_right _ _),
    Nat.add_sub_cancel_left, isLocal]

theorem Corresponds.getArgument (corresponds : Corresponds compilations state store pending)
    (address index level : Nat) :
    Process.ReadsAs Eq (getArgument address index level) (argumentAt address index level)
      state store := by
  refine (corresponds.getContextLevel level address).bind ?_
  rintro context _ rfl
  intro answer after events ran
  obtain ⟨activation, middle, _, _, ranRead, ranDemand, -⟩ := Process.bind_eq_ok ran
  obtain ⟨rfl, frame, frameOf, -⟩ := corresponds.readFrame context _ _ _ ranRead
  exact frameOf.element (fun _ => Activation.argument) _ _ _ ranDemand

theorem Corresponds.getLocal (corresponds : Corresponds compilations state store pending)
    (address index level : Nat) :
    Process.ReadsAs Eq (getLocal address index level) (localAt address index level)
      state store := by
  refine (corresponds.getContextLevel level address).bind ?_
  rintro context _ rfl
  refine (corresponds.readFrame context).bind fun frame activation frameOf => ?_
  rw [frameOf.keeps.localOffset, ← Int.natCast_add]
  exact frameOf.element fun _ => Activation.local

theorem Corresponds.getSelf (corresponds : Corresponds compilations state store pending)
    (running : state.frame = some address) :
    Process.ReadsAs Eq getSelf (selfOf address) state store := by
  have self : Process.ReadsAs Eq (do
      let context ← Interpreter.getOuterContext address
      Interpreter.getArgument context 0 0) (selfOf address) state store := by
    refine (corresponds.getOuterContext address).bind ?_
    rintro home _ rfl
    exact corresponds.getArgument home 0 0
  intro answer after events ran
  obtain ⟨same, value, rfl, reads⟩ := self _ _ _ ran
  refine ⟨same, value, rfl, ?_⟩
  rw [Interpreter.getSelf, Process.bind_of_silent (getFrame_run running)]
  exact reads

/-! ### The running frame -/

def Pending.goOn (length : Nat) (entry : Pending Object) : Pending Object :=
  { entry with bytecodeIndex := entry.bytecodeIndex + length }

def Pending.holding (stack : List (Value Object)) (entry : Pending Object) : Pending Object :=
  { entry with stack := stack }

/-- The stack of a method may hold so many values. -/
def HasRoom (method : CompiledMethod) (depth : Nat) : Prop :=
  ∃ bound, method.maximumNumberOfStackElements = some bound ∧ depth ≤ bound.toNat

theorem Realizes.head (realizes : Realizes compilations state store (entry :: rest)) :
    ∃ frame activation, Standing compilations state store entry frame activation :=
  realizes.standing List.mem_cons_self

theorem Realizes.isRunning (realizes : Realizes compilations state store (entry :: rest)) :
    state.frame = some entry.address := realizes.running

theorem Standing.inside (standing : Standing compilations state store entry frame activation) :
    entry.address < store.activations.length :=
  (List.getElem?_eq_some_iff.mp standing.there).1

theorem Realizes.notAbove (realizes : Realizes compilations state store (entry :: rest))
    {other : Pending Object} (member : other ∈ rest) : other.address ≠ entry.address := by
  have distinct := realizes.distinct
  rw [List.map_cons, List.nodup_cons] at distinct
  exact fun same => distinct.1 (same ▸ List.mem_map_of_mem member)

/-- The running frame is replaced by one that keeps the same activation. -/
theorem Realizes.put (realizes : Realizes compilations state store (entry :: rest))
    (standing : Standing compilations state store entry frame activation) {changed : Frame Object}
    {other : Pending Object} (sameAddress : other.address = entry.address)
    (sameMethod : other.method = entry.method) (keeps : changed.Keeps activation)
    (stands : StandsAt compilations changed activation other) :
    Realizes compilations (state.put entry.address changed) store (other :: rest) := by
  have unchanged : { store with
      activations := store.activations.set entry.address activation } = store := by
    obtain ⟨inside, same⟩ := List.getElem?_eq_some_iff.mp standing.there
    rw [← same, List.set_getElem_self]
  have corresponds : Corresponds compilations (state.put entry.address changed)
      { store with activations := store.activations.set entry.address activation }
      (other :: rest) := realizes.toCorresponds.set keeps standing.inside
    (fun entry' member same => by
      rcases List.mem_cons.mp member with rfl | member
      · exact stands
      · exact absurd same (realizes.notAbove member))
    (fun entry' member different => by
      rcases List.mem_cons.mp member with rfl | member
      · exact absurd sameAddress different
      · exact List.mem_cons_of_mem _ member)
  rw [unchanged] at corresponds
  refine ⟨corresponds, ?_, realizes.calls.goOn sameAddress sameMethod, ?_⟩
  · rw [List.head?_cons, Option.map_some, sameAddress]
    exact realizes.running
  · rw [List.map_cons, sameAddress]
    exact realizes.distinct

theorem Frame.Keeps.pushed (keeps : frame.Keeps activation) (value : Value Object)
    {values : List (Value Object)} (holds : frame.Holds (activation.variables ++ values)) :
    (frame.pushed value).Keeps activation := by
  refine ⟨keeps.previousFrame, keeps.context, keeps.method, keeps.localOffset, ?_⟩
  obtain ⟨rest, slots⟩ := keeps.slots
  have above : activation.variables.length ≤ (frame.stackPointer + 1).toNat := by
    have pointer := holds.pointer
    rw [List.length_append] at pointer
    omega
  rw [Frame.pushed, ← slots]
  exact ⟨_, (List.set_append_right _ _ above).symm⟩

theorem Frame.Keeps.popped (keeps : frame.Keeps activation) (count : Nat) :
    (frame.popped count).Keeps activation :=
  ⟨keeps.previousFrame, keeps.context, keeps.method, keeps.localOffset, keeps.slots⟩

/-- The frame of a pending activation has a slot left above its values. -/
def HasFreeSlot (compilations : List Compilation) (state : State World Object)
    (store : Store World Object) (entry : Pending Object) : Prop :=
  ∃ frame activation, Standing compilations state store entry frame activation ∧
    activation.variables.length + entry.stack.length < frame.slots.length

theorem Realizes.hasFreeSlot (realizes : Realizes compilations state store (entry :: rest))
    (room : HasRoom entry.method (entry.stack.length + 1)) :
    HasFreeSlot compilations state store entry := by
  obtain ⟨frame, activation, standing⟩ := realizes.head
  obtain ⟨bound, isBound, enough⟩ := standing.stands.sized
  obtain ⟨bound', isBound', below⟩ := room
  obtain rfl := Option.some.inj (isBound.symm.trans isBound')
  exact ⟨frame, activation, standing, by omega⟩

theorem Realizes.push (realizes : Realizes compilations state store (entry :: rest))
    (value : Value Object) (slot : HasFreeSlot compilations state store entry) :
    ∃ later, (push entry.address value).run state = ⟨.ok (), later, []⟩ ∧
      Realizes compilations later store (entry.holding (value :: entry.stack) :: rest) := by
  obtain ⟨frame, activation, standing, enough⟩ := slot
  have stands := standing.stands
  have free : (activation.variables ++ entry.stack.reverse).length < frame.slots.length := by
    rw [List.length_append, List.length_reverse]
    exact enough
  obtain ⟨bound, isBound, sized⟩ := stands.sized
  refine ⟨_, push_value_run standing.found stands.holds value free, ?_⟩
  refine realizes.put standing rfl rfl (standing.keeps.pushed value stands.holds)
    ⟨stands.isMethod, stands.argc, stands.numberOfLocals, stands.bytecodeIndex, ?_, bound,
      isBound, ?_⟩
  · have holds := stands.holds.pushed value free
    rw [List.append_assoc, ← List.reverse_cons] at holds
    exact holds
  · rw [Frame.length_slots_pushed]
    exact sized

theorem Realizes.pop (realizes : Realizes compilations state store (entry :: rest))
    {value : Value Object} {stack : List (Value Object)} (top : entry.stack = value :: stack) :
    ∃ later, (pop entry.address).run state = ⟨.ok value, later, []⟩ ∧
      Realizes compilations later store (entry.holding stack :: rest) ∧
      HasFreeSlot compilations later store (entry.holding stack) := by
  obtain ⟨frame, activation, standing⟩ := realizes.head
  have stands := standing.stands
  have holds := stands.holds
  rw [top, List.reverse_cons, ← List.append_assoc] at holds
  have standsLater : StandsAt compilations (frame.popped 1) activation (entry.holding stack) :=
    ⟨stands.isMethod, stands.argc, stands.numberOfLocals, stands.bytecodeIndex, holds.popped,
      stands.sized⟩
  refine ⟨_, pop_value_run standing.found holds,
    realizes.put standing rfl rfl (standing.keeps.popped 1) standsLater, ?_⟩
  refine ⟨_, activation, ⟨State.put_found standing.found _, standing.there,
    standing.keeps.popped 1, standsLater⟩, ?_⟩
  have inside := holds.live.length_le
  rw [List.length_append, List.length_append, List.length_reverse, List.length_singleton] at inside
  exact inside

/-- The running frame goes on at another bytecode. -/
theorem Realizes.goesTo (realizes : Realizes compilations state store (entry :: rest))
    (next : Nat → Nat) :
    ∃ later, (changeFrame entry.address fun frame =>
        { frame with bytecodeIndex := next frame.bytecodeIndex }).run state =
        ⟨.ok (), later, []⟩ ∧
      Realizes compilations later store
        ({ entry with bytecodeIndex := next entry.bytecodeIndex } :: rest) := by
  obtain ⟨frame, activation, standing⟩ := realizes.head
  have stands := standing.stands
  have keeps := standing.keeps
  refine ⟨_, changeFrame_run standing.found _, realizes.put standing rfl rfl ?_ ?_⟩
  · exact ⟨keeps.previousFrame, keeps.context, keeps.method, keeps.localOffset, keeps.slots⟩
  · exact ⟨stands.isMethod, stands.argc, stands.numberOfLocals,
      congrArg next stands.bytecodeIndex, ⟨stands.holds.pointer, stands.holds.live⟩, stands.sized⟩

/-- The running frame drops all that its code has pushed. -/
theorem Realizes.resets (image : Image compilations World Object)
    (invoke : Invokable compilations World Object → Nat → InterpreterM World Object Unit)
    (realizes : Realizes compilations state store (entry :: rest)) :
    ∃ later, (primitiveOperation image invoke (.resetStackPointer entry.address)).run state =
        ⟨.ok (), later, []⟩ ∧
      Realizes compilations later store (entry.holding [] :: rest) := by
  obtain ⟨frame, activation, standing⟩ := realizes.head
  have stands := standing.stands
  have keeps := standing.keeps
  have isCode : methodAt compilations frame.method = some entry.method :=
    keeps.method ▸ stands.isMethod
  refine ⟨state.put entry.address (frame.resetStackPointer entry.method), ?_,
    realizes.put standing rfl rfl ?_ ?_⟩
  · rw [primitiveOperation, Process.bind_of_silent (readFrame_run standing.found), readMethod,
      isCode, Process.demand_some, Process.pure_bind]
    exact changeFrame_run standing.found _
  · exact ⟨keeps.previousFrame, keeps.context, keeps.method, stands.argc.symm, keeps.slots⟩
  · refine ⟨stands.isMethod, stands.argc, stands.numberOfLocals, stands.bytecodeIndex, ⟨?_, ?_⟩,
      stands.sized⟩
    · simp [Frame.resetStackPointer, Pending.holding, Activation.variables, stands.argc,
        stands.numberOfLocals]
    · rw [Pending.holding, List.reverse_nil, List.append_nil]
      exact (List.prefix_append _ _).trans stands.holds.live

/-- A round goes on behind its bytecode, and dispatches it if it is no `HALT`. -/
theorem Realizes.rounds (image : Image compilations World Object)
    (realizes : Realizes compilations state store (entry :: rest)) {instruction : Instruction}
    {code : List Instruction}
    (reads : ReadsCode entry.method entry.bytecodeIndex (instruction :: code)) :
    ∃ later, Realizes compilations later store
        (entry.goOn (Instruction.size instruction) :: rest) ∧
      (round image).run state =
        (if instruction.opcode = Bytecode.halt then pure ()
          else dispatch image instruction.opcode entry.bytecodeIndex).run later := by
  obtain ⟨frame, activation, standing⟩ := realizes.head
  have isCode : methodAt compilations frame.method = some entry.method :=
    standing.keeps.method ▸ standing.stands.isMethod
  obtain ⟨later, goes, realizesLater⟩ := realizes.goesTo (· + Instruction.size instruction)
  refine ⟨later, realizesLater, ?_⟩
  rw [round, Process.bind_of_silent (getFrame_run realizes.isRunning),
    Process.bind_of_silent (readFrame_run standing.found), readMethod, isCode,
    Process.demand_some, Process.pure_bind, standing.stands.bytecodeIndex, reads.cons.1,
    Process.demand_some, Process.pure_bind, getBytecodeLength_opcode, Process.demand_some,
    Process.pure_bind, Process.bind_of_silent goes]

theorem opcode_ne_halt {instruction : Instruction} (goesOn : instruction ≠ .halt) :
    instruction.opcode ≠ Bytecode.halt := by
  cases instruction with
  | halt => exact absurd rfl goesOn
  | _ => exact fun same => nomatch same

theorem Realizes.fetches (image : Image compilations World Object)
    (realizes : Realizes compilations state store (entry :: rest)) {instruction : Instruction}
    {code : List Instruction}
    (reads : ReadsCode entry.method entry.bytecodeIndex (instruction :: code))
    (goesOn : instruction ≠ .halt) :
    ∃ later, Realizes compilations later store
        (entry.goOn (Instruction.size instruction) :: rest) ∧
      (round image).run state =
        (dispatch image instruction.opcode entry.bytecodeIndex).run later := by
  obtain ⟨later, realizesLater, ran⟩ := realizes.rounds image reads
  rw [if_neg (opcode_ne_halt goesOn)] at ran
  exact ⟨later, realizesLater, ran⟩

theorem Realizes.getMethod_run (realizes : Realizes compilations state store (entry :: rest)) :
    (getMethod compilations).run state = ⟨.ok entry.method, state, []⟩ := by
  obtain ⟨frame, activation, standing⟩ := realizes.head
  exact Interpreter.getMethod_run realizes.isRunning standing.found
    (standing.keeps.method ▸ standing.stands.isMethod)

/-! ### Assignments -/

/-- The activation with another value in a variable. -/
structure Activation.Assigned (activation other : Activation Object) (idx : Nat)
    (value : Value Object) : Prop where
  inside : idx < activation.variables.length
  slots : other.variables = activation.variables.set idx value
  arguments : other.arguments.length = activation.arguments.length
  caller : other.caller = activation.caller
  context : other.context = activation.context
  method : other.method = activation.method

/-- A variable is assigned in its slot, wherever its frame stands. -/
theorem Realizes.assign (realizes : Realizes compilations state store pending)
    (frameOf : FrameOf state store address frame activation) {other : Activation Object}
    {idx : Nat} {value : Value Object} (assigned : activation.Assigned other idx value) :
    Realizes compilations
      (state.put address { frame with slots := frame.slots.set idx value })
      { store with activations := store.activations.set address other } pending := by
  have keeps := frameOf.keeps
  obtain ⟨inside, -⟩ := List.getElem?_eq_some_iff.mp frameOf.there
  have sameLength : other.variables.length = activation.variables.length := by
    rw [assigned.slots, List.length_set]
  refine ⟨realizes.toCorresponds.set ?_ inside ?_ fun _ member _ => member, realizes.running,
    realizes.calls.congr fun entry member => ?_, realizes.distinct⟩
  · obtain ⟨rest, slots⟩ := keeps.slots
    refine ⟨keeps.previousFrame.trans assigned.caller.symm,
      keeps.context.trans assigned.context.symm, keeps.method.trans assigned.method.symm,
      keeps.localOffset.trans assigned.arguments.symm, rest, ?_⟩
    rw [assigned.slots, ← slots, List.set_append_left _ _ assigned.inside]
  · intro entry member same
    obtain ⟨frame', activation', found, there, stands⟩ := realizes.stands entry member
    rw [same] at found there
    obtain rfl := Option.some.inj (frameOf.found.symm.trans found)
    obtain rfl := Option.some.inj (frameOf.there.symm.trans there)
    obtain ⟨bound, isBound, enough⟩ := stands.sized
    refine ⟨assigned.method ▸ stands.isMethod, assigned.arguments.trans stands.argc, ?_,
      stands.bytecodeIndex, ⟨?_, ?_⟩, bound, isBound, ?_⟩
    · have sameArguments := assigned.arguments
      rw [Activation.variables, Activation.variables, List.length_append,
        List.length_append] at sameLength
      exact (by omega : other.locals.length = activation.locals.length).trans
        stands.numberOfLocals
    · have pointer := stands.holds.pointer
      rw [List.length_append] at pointer ⊢
      rw [sameLength]
      exact pointer
    · obtain ⟨rest, slots⟩ := stands.holds.live
      refine ⟨rest, ?_⟩
      rw [assigned.slots, ← slots, List.append_assoc, List.append_assoc,
        List.set_append_left _ _ assigned.inside]
    · rw [sameLength, List.length_set]
      exact enough
  · by_cases same : entry.address = address
    · rw [same, List.getElem?_set_self inside, frameOf.there, Option.map_some, Option.map_some,
        assigned.caller]
    · rw [List.getElem?_set_ne (Ne.symm same)]

theorem Activation.assignedArgument {idx : Nat} (value : Value Object)
    (inside : idx < activation.arguments.length) :
    activation.Assigned { activation with arguments := activation.arguments.set idx value } idx
      value := by
  refine ⟨?_, ?_, List.length_set, rfl, rfl, rfl⟩
  · rw [Activation.variables, List.length_append]
    omega
  · exact (List.set_append_left _ _ inside).symm

theorem Activation.assignedLocal {idx : Nat} (value : Value Object)
    (inside : idx < activation.locals.length) :
    activation.Assigned { activation with locals := activation.locals.set idx value }
      (activation.arguments.length + idx) value := by
  refine ⟨?_, ?_, rfl, rfl, rfl, rfl⟩
  · rw [Activation.variables, List.length_append]
    omega
  · rw [Activation.variables, Activation.variables,
      List.set_append_right _ _ (Nat.le_add_right _ _), Nat.add_sub_cancel_left]

theorem changeActivation_run (there : store.activations[address]? = some activation)
    (change : Activation Object → Activation Object) :
    (changeActivation address change).run store =
      ⟨.ok (), { store with activations := store.activations.set address (change activation) },
        []⟩ := by
  rw [changeActivation, Process.run_modify, List.modify_eq_set_getElem?, there]
  rfl

/-- A slot that an activation has is written in its frame. -/
theorem FrameOf.setElement_run (frameOf : FrameOf state store address frame activation)
    {idx : Nat} (value : Value Object) (inside : idx < activation.variables.length) :
    (setElement address idx value).run state =
      ⟨.ok (), state.put address { frame with slots := frame.slots.set idx value }, []⟩ := by
  refine Interpreter.setElement_run value frameOf.found ?_
  exact Nat.lt_of_lt_of_le inside frameOf.keeps.slots.length_le

theorem Realizes.setArgument (realizes : Realizes compilations state store pending)
    {index level : Nat} {value : Value Object} {after : Store World Object} {events : List Empty}
    (ran : (assignArgument address index level value).run store = ⟨.ok (), after, events⟩) :
    ∃ later, (setArgument address index level value).run state = ⟨.ok (), later, []⟩ ∧
      Realizes compilations later after pending := by
  obtain ⟨context, _, _, _, ranContext, behind, -⟩ := Process.bind_eq_ok ran
  obtain ⟨rfl, _, rfl, leads⟩ := realizes.getContextLevel level address _ _ _ ranContext
  obtain ⟨activation, _, _, _, ranRead, last, -⟩ := Process.bind_eq_ok behind
  obtain ⟨rfl, frame, frameOf, -⟩ := realizes.readFrame _ _ _ _ ranRead
  obtain ⟨old, _, _, _, ranDemand, changes, -⟩ := Process.bind_eq_ok last
  cases isOld : activation.arguments[index]? with
  | none =>
      rw [isOld] at ranDemand
      exact nomatch (Outcome.mk.inj ranDemand).1
  | some argument =>
      rw [isOld] at ranDemand
      obtain ⟨-, rfl, -⟩ := Outcome.mk.inj ranDemand
      obtain ⟨inside, -⟩ := List.getElem?_eq_some_iff.mp isOld
      have assigned := Activation.assignedArgument value inside
      rw [changeActivation_run frameOf.there] at changes
      obtain ⟨-, rfl, -⟩ := Outcome.mk.inj changes
      refine ⟨_, ?_, realizes.assign frameOf assigned⟩
      rw [Interpreter.setArgument, Process.bind_of_silent leads]
      exact frameOf.setElement_run value assigned.inside

theorem Realizes.setLocal (realizes : Realizes compilations state store pending)
    {index level : Nat} {value : Value Object} {after : Store World Object} {events : List Empty}
    (ran : (assignLocal address index level value).run store = ⟨.ok (), after, events⟩) :
    ∃ later, (setLocal address index level value).run state = ⟨.ok (), later, []⟩ ∧
      Realizes compilations later after pending := by
  obtain ⟨context, _, _, _, ranContext, behind, -⟩ := Process.bind_eq_ok ran
  obtain ⟨rfl, _, rfl, leads⟩ := realizes.getContextLevel level address _ _ _ ranContext
  obtain ⟨activation, _, _, _, ranRead, last, -⟩ := Process.bind_eq_ok behind
  obtain ⟨rfl, frame, frameOf, reads⟩ := realizes.readFrame _ _ _ _ ranRead
  obtain ⟨old, _, _, _, ranDemand, changes, -⟩ := Process.bind_eq_ok last
  cases isOld : activation.locals[index]? with
  | none =>
      rw [isOld] at ranDemand
      exact nomatch (Outcome.mk.inj ranDemand).1
  | some old =>
      rw [isOld] at ranDemand
      obtain ⟨-, rfl, -⟩ := Outcome.mk.inj ranDemand
      obtain ⟨inside, -⟩ := List.getElem?_eq_some_iff.mp isOld
      have assigned := Activation.assignedLocal value inside
      rw [changeActivation_run frameOf.there] at changes
      obtain ⟨-, rfl, -⟩ := Outcome.mk.inj changes
      have position : (frame.localOffset : Int) + index =
          ((activation.arguments.length + index : Nat) : Int) := by
        rw [frameOf.keeps.localOffset, Int.natCast_add]
      refine ⟨_, ?_, realizes.assign frameOf assigned⟩
      rw [Interpreter.setLocal, Process.bind_of_silent leads, Process.bind_of_silent reads,
        position]
      exact frameOf.setElement_run value assigned.inside

end

end Somr.Interpreter
