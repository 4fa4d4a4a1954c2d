import Somr.Interpreter.Realization

/-!
Owns the rounds of the interpreter for the instructions that neither send a message
nor return: each of them does to the running frame, its variables and the objects
what the instruction means.

`Implements` is what an image must have in common with a domain: wherever the domain
gives a meaning, the image answers the same.
-/

namespace Somr.Interpreter

open Foundation Compiler

section

variable {compilations : List Compilation} {World Object : Type}

/-! ### Images and domains -/

/-- A primitive routine reacts to its receiver and arguments: either they are replaced
by its answer, or by the values of another message, which is then invoked. -/
def Computes (image : Image compilations World Object)
    (routine : Nat → Program (PrimitiveOperation World Object) PrimitiveOperation.Answer Unit)
    (react : Store World Object → List (Value Object) → Option (Reaction World Object)) : Prop :=
  ∀ (depth : Nat) (state : State World Object) (store : Store World Object)
    (entry : Pending Object) (rest : List (Pending Object)) (values below : List (Value Object)),
    Realizes compilations state store (entry :: rest) →
    entry.stack = values.reverse ++ below →
    match react store values with
    | some (.answer world value) => ∃ later,
        ((routine entry.address).run (primitiveOperation image (invokeWithin image depth))).run
          state = ⟨.ok (), later, []⟩ ∧
        Realizes compilations later { store with world := world }
          (entry.holding (value :: below) :: rest)
    | some (.resend world receiver selector arguments) => ∃ later,
        Realizes compilations later { store with world := world }
          (entry.holding ((receiver :: arguments).reverse ++ below) :: rest) ∧
        ∀ invokable, image.lookupInvokable later receiver selector = some invokable →
          ((routine entry.address).run (primitiveOperation image (invokeWithin image depth))).run
            state = (invokeWithin image depth invokable entry.address).run later
    | none => True

/-- A primitive routine makes the frame that sent the message begin again. -/
def Restarts (image : Image compilations World Object)
    (routine : Nat → Program (PrimitiveOperation World Object) PrimitiveOperation.Answer Unit) :
    Prop :=
  ∀ (depth : Nat) (state : State World Object) (store : Store World Object)
    (entry : Pending Object) (rest : List (Pending Object)),
    Realizes compilations state store (entry :: rest) → ∃ later,
      ((routine entry.address).run (primitiveOperation image (invokeWithin image depth))).run
        state = ⟨.ok (), later, []⟩ ∧
      Realizes compilations later store ({ entry with bytecodeIndex := 0, stack := [] } :: rest)

/-- `_Block::Restart`. -/
def blockRestart (frame : Nat) :
    Program (PrimitiveOperation World Object) PrimitiveOperation.Answer Unit :=
  .perform (.setBytecodeIndex frame 0) fun _ =>
    .perform (.resetStackPointer frame) fun _ => .done ()

theorem restarts_blockRestart (image : Image compilations World Object) :
    Restarts image blockRestart := by
  intro depth state store entry rest realizes
  obtain ⟨rewound, rewinds, realizesRewound⟩ := realizes.goesTo fun _ => 0
  obtain ⟨later, resets, realizesLater⟩ :=
    realizesRewound.resets image (invokeWithin image depth)
  refine ⟨later, ?_, realizesLater⟩
  exact (Process.bind_of_silent rewinds).trans
    ((congrArg (Process.run · rewound) (Process.bind_pure _)).trans resets)

/-- An invokable of the image behaves as the domain says. -/
inductive Behaves (image : Image compilations World Object) :
    Invokable compilations World Object → Behaviour World Object → Prop where
  | method (installed : InstalledMethod compilations) :
      Behaves image (.method installed) (.method installed.method)
  | evaluation (argc : Nat) : Behaves image (.evaluation argc) (.evaluation argc)
  | primitive {routine : Nat →
        Program (PrimitiveOperation World Object) PrimitiveOperation.Answer Unit}
      {react : Store World Object → List (Value Object) → Option (Reaction World Object)} :
      Computes image routine react → Behaves image (.primitive routine) (.primitive react)
  | restart {routine : Nat →
        Program (PrimitiveOperation World Object) PrimitiveOperation.Answer Unit} :
      Restarts image routine → Behaves image (.primitive routine) .restart

/-- The image answers whatever the domain says. -/
structure Implements (image : Image compilations World Object) (domain : Domain World Object) :
    Prop where
  nilObject : image.nilObject = domain.nilObject
  stackDepth : domain.resends ≤ image.stackDepth
  constant : image.constant = domain.constant
  setField : image.setField = domain.setField
  setGlobal : image.setGlobal = domain.setGlobal
  lookup : ∀ (state : State World Object) (store : Store World Object),
    Corresponds compilations state store [] → ∀ receiver selector behaviour,
      domain.lookup store receiver selector = some behaviour →
      ∃ invokable, image.lookupInvokable state receiver selector = some invokable ∧
        Behaves image invokable behaviour
  lookupSuper : ∀ (state : State World Object) (store : Store World Object),
    Corresponds compilations state store [] → ∀ method selector behaviour,
      domain.lookupSuper store method selector = some behaviour →
      ∃ invokable, image.lookupSuper state method selector = some invokable ∧
        Behaves image invokable behaviour
  getField : ∀ (state : State World Object) (store : Store World Object),
    Corresponds compilations state store [] → ∀ receiver name value,
      domain.getField store receiver name = some value →
      image.getField state receiver name = some value
  getGlobal : ∀ (state : State World Object) (store : Store World Object),
    Corresponds compilations state store [] → ∀ name value,
      domain.getGlobal store name = some value → image.getGlobal state name = some value
  setBlockClass : ∀ (state : State World Object) (store : Store World Object),
    Corresponds compilations state store [] → ∀ block arguments world,
      domain.setBlockClass store block arguments = some world →
      image.setBlockClass state block arguments = some world

/-! ### The switch -/

variable (image : Image compilations World Object)

/-- What the switch of the interpreter does for an instruction. -/
def doInstruction (instruction : Instruction) (bytecodeIndex : Nat) :
    InterpreterM World Object Unit :=
  match instruction with
  | .halt => Process.stop .exit
  | .dup => doDup
  | .pushLocal .. => doPushLocal compilations bytecodeIndex
  | .pushArgument .. => doPushArgument compilations bytecodeIndex
  | .pushField _ => doPushField image bytecodeIndex
  | .pushBlock _ => doPushBlock image bytecodeIndex
  | .pushConstant _ => doPushConstant image bytecodeIndex
  | .pushGlobal _ => doPushGlobal image bytecodeIndex
  | .pop => doPop
  | .popLocal .. => doPopLocal compilations bytecodeIndex
  | .popArgument .. => doPopArgument compilations bytecodeIndex
  | .popField _ => doPopField image bytecodeIndex
  | .send _ => doSend image bytecodeIndex
  | .superSend _ => doSuperSend image bytecodeIndex
  | .returnLocal => doReturnLocal compilations
  | .returnNonLocal => doReturnNonLocal image

theorem dispatch_opcode (instruction : Instruction) (bytecodeIndex : Nat) :
    dispatch image instruction.opcode bytecodeIndex =
      doInstruction image instruction bytecodeIndex := by
  cases instruction <;> rfl

/-! ### Operands -/

variable {image} {state : State World Object} {store : Store World Object}
  {entry : Pending Object} {rest : List (Pending Object)} {method : CompiledMethod}
  {index : Nat} {instruction : Instruction} {code : List Instruction}

theorem OperandsAt.slot (operands : OperandsAt method index instruction) {first second : Nat}
    (isSlot : instruction.slot? = some (first, second)) (state : State World Object) :
    (getBytecode method (index + 1)).run state = ⟨.ok first, state, []⟩ ∧
      (getBytecode method (index + 2)).run state = ⟨.ok second, state, []⟩ := by
  obtain ⟨one, two, isOne, isTwo, same⟩ := operands.1 _ isSlot
  obtain ⟨rfl, rfl⟩ := Prod.mk.inj same
  exact ⟨getBytecode_run isOne, getBytecode_run isTwo⟩

theorem OperandsAt.constant (operands : OperandsAt method index instruction) {literal : Literal}
    (isLiteral : instruction.literal? = some literal) (state : State World Object) :
    (getConstant method index).run state = ⟨.ok literal, state, []⟩ := by
  obtain ⟨byte, isByte, found⟩ := operands.2 _ isLiteral
  rw [getConstant, Process.bind_of_silent (getBytecode_run isByte), found]
  rfl

theorem OperandsAt.symbol (operands : OperandsAt method index instruction) {name : String}
    (isLiteral : instruction.literal? = some (.symbol name)) (state : State World Object) :
    (getSymbol method index).run state = ⟨.ok name, state, []⟩ := by
  rw [getSymbol, Process.bind_of_silent (operands.constant isLiteral state)]
  rfl

/-- A round for an instruction with a slot uses the slot. -/
theorem Realizes.fetchesSlot (realizes : Realizes compilations state store (entry :: rest))
    (reads : ReadsCode entry.method entry.bytecodeIndex (instruction :: code)) {first second : Nat}
    (isSlot : instruction.slot? = some (first, second))
    {use : Nat → Nat → InterpreterM World Object Unit}
    (does : doInstruction image instruction entry.bytecodeIndex = do
      let method ← getMethod compilations
      let bc1 ← getBytecode method (entry.bytecodeIndex + 1)
      let bc2 ← getBytecode method (entry.bytecodeIndex + 2)
      use bc1 bc2) :
    ∃ next, Realizes compilations next store (entry.goOn (Instruction.size instruction) :: rest) ∧
      (round image).run state = (use first second).run next := by
  have goesOn : instruction ≠ .halt := fun same => by
    rw [same] at isSlot
    exact nomatch isSlot
  obtain ⟨next, goesOn, ranRound⟩ := realizes.fetches image reads goesOn
  obtain ⟨isFirst, isSecond⟩ := reads.cons.2.1.slot isSlot next
  have isMethod : (getMethod compilations).run next = ⟨.ok entry.method, next, []⟩ :=
    goesOn.getMethod_run
  refine ⟨next, goesOn, ?_⟩
  rw [ranRound, dispatch_opcode, does, Process.bind_of_silent isMethod,
    Process.bind_of_silent isFirst, Process.bind_of_silent isSecond]

variable (image) in
/-- A round for an instruction with a symbol uses the symbol. -/
theorem Realizes.fetchesSymbol (realizes : Realizes compilations state store (entry :: rest))
    (reads : ReadsCode entry.method entry.bytecodeIndex (instruction :: code)) {name : String}
    (isLiteral : instruction.literal? = some (.symbol name))
    {use : String → InterpreterM World Object Unit}
    (does : doInstruction image instruction entry.bytecodeIndex = do
      let method ← getMethod compilations
      let symbol ← getSymbol method entry.bytecodeIndex
      use symbol) :
    ∃ next, Realizes compilations next store (entry.goOn (Instruction.size instruction) :: rest) ∧
      (round image).run state = (use name).run next := by
  have goesOn : instruction ≠ .halt := fun same => by
    rw [same] at isLiteral
    exact nomatch isLiteral
  obtain ⟨next, goesOn, ranRound⟩ := realizes.fetches image reads goesOn
  have isMethod : (getMethod compilations).run next = ⟨.ok entry.method, next, []⟩ :=
    goesOn.getMethod_run
  refine ⟨next, goesOn, ?_⟩
  rw [ranRound, dispatch_opcode, does, Process.bind_of_silent isMethod,
    Process.bind_of_silent (reads.cons.2.1.symbol isLiteral next)]

/-! ### Pushing -/

/-- The round ends with these pending activations of the store. -/
def Advances (image : Image compilations World Object) (state : State World Object)
    (after : Store World Object) (pending : List (Pending Object)) : Prop :=
  ∃ later, (round image).run state = ⟨.ok (), later, []⟩ ∧
    Realizes compilations later after pending

variable {domain : Domain World Object} {send : Sending World Object}
  {after : Store World Object} {events : List Empty} {value : Value Object}
  {stack : List (Value Object)}

/-- What is read is pushed. -/
theorem Realizes.pushReading (realizes : Realizes compilations state store (entry :: rest))
    {process : InterpreterM World Object (Value Object)}
    {meaning : EvaluationM World Object (Value Object)}
    (reads : Process.ReadsAs Eq process meaning state store)
    (ran : meaning.run store = ⟨.ok value, after, events⟩)
    (room : HasRoom entry.method (entry.stack.length + 1)) :
    ∃ later, (do
        let value ← process
        Interpreter.push (← getFrame) value : InterpreterM World Object Unit).run state =
          ⟨.ok (), later, []⟩ ∧
      Realizes compilations later after (entry.holding (value :: entry.stack) :: rest) := by
  obtain ⟨rfl, _, same, readValue⟩ := reads _ _ _ ran
  rw [same] at readValue
  obtain ⟨later, pushed, realizesLater⟩ := realizes.push value (realizes.hasFreeSlot room)
  refine ⟨later, ?_, realizesLater⟩
  rw [Process.bind_of_silent readValue, Process.bind_of_silent (getFrame_run realizes.isRunning),
    pushed]

/-- `PUSH_LOCAL` and `PUSH_ARGUMENT`. -/
theorem Realizes.pushVariable (realizes : Realizes compilations state store (entry :: rest))
    (reads : ReadsCode entry.method entry.bytecodeIndex (instruction :: code)) {first second : Nat}
    (isSlot : instruction.slot? = some (first, second))
    {variableOf : Nat → Nat → Nat → InterpreterM World Object (Value Object)}
    {meaning : EvaluationM World Object (Value Object)}
    (does : doInstruction image instruction entry.bytecodeIndex = do
      let method ← getMethod compilations
      let bc1 ← getBytecode method (entry.bytecodeIndex + 1)
      let bc2 ← getBytecode method (entry.bytecodeIndex + 2)
      let value ← variableOf (← getFrame) bc1 bc2
      Interpreter.push (← getFrame) value)
    (means : ∀ next, Corresponds compilations next store
        (entry.goOn (Instruction.size instruction) :: rest) →
      Process.ReadsAs Eq (variableOf entry.address first second) meaning next store)
    (ran : meaning.run store = ⟨.ok value, after, events⟩)
    (room : HasRoom entry.method (entry.stack.length + 1)) :
    Advances image state after
      ((entry.goOn (Instruction.size instruction)).holding (value :: entry.stack) :: rest) := by
  obtain ⟨next, goesOn, ranRound⟩ := realizes.fetchesSlot reads isSlot does
  obtain ⟨later, pushed, realizesLater⟩ :=
    goesOn.pushReading (means next goesOn.toCorresponds) ran room
  refine ⟨later, ?_, realizesLater⟩
  rw [ranRound, Process.bind_of_silent (getFrame_run goesOn.isRunning)]
  exact pushed

theorem Corresponds.bare {pending : List (Pending Object)}
    (corresponds : Corresponds compilations state store pending) :
    Corresponds compilations state store [] :=
  { corresponds with stands := nofun }

theorem Realizes.pushField (implements : Implements image domain)
    (realizes : Realizes compilations state store (entry :: rest)) {name : String}
    (reads : ReadsCode entry.method entry.bytecodeIndex (.pushField (.symbol name) :: code))
    (ran : ((instructionSemantics compilations domain send entry.address).push
      (.pushField (.symbol name))).run store = ⟨.ok value, after, events⟩)
    (room : HasRoom entry.method (entry.stack.length + 1)) :
    Advances image state after ((entry.goOn 2).holding (value :: entry.stack) :: rest) := by
  obtain ⟨next, goesOn, ranRound⟩ := realizes.fetchesSymbol image reads rfl rfl
  have readsField : Process.ReadsAs Eq (do
        let self ← Interpreter.getSelf
        let state ← Process.read
        Process.demand .undefined (image.getField state self name) :
          InterpreterM World Object (Value Object))
      ((instructionSemantics compilations domain send entry.address).push
        (.pushField (.symbol name))) next store := by
    refine (goesOn.getSelf goesOn.isRunning).bind ?_
    rintro self _ rfl
    refine Process.readsAs_read.bind ?_
    rintro _ _ ⟨rfl, rfl⟩
    exact Process.readsAs_found (implements.getField _ _ goesOn.toCorresponds.bare self name)
  obtain ⟨later, pushed, realizesLater⟩ := goesOn.pushReading readsField ran room
  refine ⟨later, ?_, realizesLater⟩
  rw [ranRound]
  simp only [Process.bind_assoc] at pushed
  exact pushed

theorem Realizes.pushGlobal (implements : Implements image domain)
    (realizes : Realizes compilations state store (entry :: rest)) {name : String}
    (reads : ReadsCode entry.method entry.bytecodeIndex (.pushGlobal (.symbol name) :: code))
    (ran : ((instructionSemantics compilations domain send entry.address).push
      (.pushGlobal (.symbol name))).run store = ⟨.ok value, after, events⟩)
    (room : HasRoom entry.method (entry.stack.length + 1)) :
    Advances image state after ((entry.goOn 2).holding (value :: entry.stack) :: rest) := by
  obtain ⟨next, goesOn, ranRound⟩ := realizes.fetchesSymbol image reads rfl rfl
  rw [instructionSemantics, Process.bind_of_silent (Process.run_read _)] at ran
  obtain ⟨isGlobal, rfl⟩ := Process.demand_eq_ok ran
  obtain ⟨later, pushed, realizesLater⟩ := goesOn.push value (goesOn.hasFreeSlot room)
  refine ⟨later, ?_, realizesLater⟩
  rw [ranRound, Process.bind_of_silent (Process.run_read _),
    implements.getGlobal _ _ goesOn.toCorresponds.bare name value isGlobal]
  dsimp only
  rw [Process.bind_of_silent (getFrame_run goesOn.isRunning)]
  exact pushed

/-- The running frame and the activation it keeps, as the round has read them. -/
theorem Realizes.readMethod_run {Result : Type}
    (realizes : Realizes compilations state store (entry :: rest)) {frame : Frame Object}
    {activation : Activation Object}
    (standing : Standing compilations state store entry frame activation)
    (next : Frame Object → CompiledMethod → InterpreterM World Object Result) :
    (do
      let frame ← readFrame (← getFrame)
      let method ← readMethod compilations frame.method
      next frame method).run state = (next frame entry.method).run state := by
  have isMethod : methodAt compilations frame.method = some entry.method :=
    standing.keeps.method ▸ standing.stands.isMethod
  rw [Process.bind_of_silent (getFrame_run realizes.isRunning),
    Process.bind_of_silent (readFrame_run standing.found), readMethod, isMethod,
    Process.demand_some, Process.pure_bind]

theorem readActivation_run {activation : Activation Object} {address : Nat}
    (there : store.activations[address]? = some activation) :
    (readActivation address).run store = ⟨.ok activation, store, []⟩ := by
  rw [readActivation, Process.bind_of_silent (Process.run_read _), there]
  rfl

theorem readActivation_bind_eq_ok {Result : Type} {address : Nat} {result : Result}
    {next : Activation Object → EvaluationM World Object Result}
    (ran : (readActivation address >>= next).run store = ⟨.ok result, after, events⟩) :
    ∃ activation, store.activations[address]? = some activation ∧
      (next activation).run store = ⟨.ok result, after, events⟩ := by
  rw [readActivation, Process.bind_assoc, Process.bind_of_silent (Process.run_read _)] at ran
  exact Process.demand_bind_eq_ok ran

theorem Realizes.pushConstant (implements : Implements image domain)
    (realizes : Realizes compilations state store (entry :: rest)) {constant : Literal}
    (reads : ReadsCode entry.method entry.bytecodeIndex (.pushConstant constant :: code))
    (ran : ((instructionSemantics compilations domain send entry.address).push
      (.pushConstant constant)).run store = ⟨.ok value, after, events⟩)
    (room : HasRoom entry.method (entry.stack.length + 1)) :
    Advances image state after ((entry.goOn 2).holding (value :: entry.stack) :: rest) := by
  obtain ⟨next, goesOn, ranRound⟩ := realizes.fetches image reads nofun
  obtain ⟨frame, activation, standing⟩ := goesOn.head
  obtain ⟨activation', there, means⟩ := readActivation_bind_eq_ok ran
  obtain rfl : activation = activation' := Option.some.inj (standing.there.symm.trans there)
  obtain ⟨compilation, isCompilation, means⟩ := Process.demand_bind_eq_ok means
  obtain ⟨same, rfl, -⟩ := Outcome.mk.inj means
  obtain rfl := Except.ok.inj same
  obtain ⟨later, pushed, realizesLater⟩ := goesOn.push (domain.constant compilation constant) (goesOn.hasFreeSlot room)
  refine ⟨later, ?_, realizesLater⟩
  have isConstant := reads.cons.2.1.constant rfl next
  have ofFrame : frame.method.compilation? = some compilation :=
    standing.keeps.method ▸ isCompilation
  rw [ranRound, dispatch_opcode, doInstruction, doPushConstant, goesOn.readMethod_run standing,
    ofFrame, Process.demand_some, Process.pure_bind]
  change (getConstant entry.method entry.bytecodeIndex >>= _).run next = _
  rw [Process.bind_of_silent isConstant,
    Process.bind_of_silent (getFrame_run goesOn.isRunning), implements.constant]
  exact pushed

/-- More blocks and another world leave the frames and activations alone. -/
theorem Realizes.withBlocks {pending : List (Pending Object)}
    (realizes : Realizes compilations state store pending) (blocks : List Block) (world : World) :
    Realizes compilations { state with blocks := blocks, world := world }
      { store with blocks := blocks, world := world } pending :=
  ⟨⟨realizes.length, realizes.keeps, realizes.stands, rfl, rfl⟩, realizes.running,
    realizes.calls.congr fun _ _ => rfl, realizes.distinct⟩

/-- What the meaning of `PUSH_BLOCK` comes to. -/
theorem makeBlock_eq_ok {address block : Nat}
    (ran : (makeBlock compilations domain address block).run store = ⟨.ok value, after, events⟩) :
    ∃ activation compilation code world, store.activations[address]? = some activation ∧
      activation.method.compilation? = some compilation ∧
      methodAt compilations (.compiled compilation block) = some code ∧
      domain.setBlockClass store store.blocks.length (numberOfArguments code) = some world ∧
      value = .block store.blocks.length ∧
      after = { store with
        blocks := store.blocks ++ [⟨.compiled compilation block, address⟩]
        world := domain.setGlobal world code.signature (.block store.blocks.length) } := by
  obtain ⟨activation, there, found⟩ := readActivation_bind_eq_ok ran
  obtain ⟨compilation, isCompilation, found⟩ := Process.demand_bind_eq_ok found
  obtain ⟨code, isCode, found⟩ := Process.demand_bind_eq_ok found
  rw [Process.bind_of_silent (Process.run_read _)] at found
  obtain ⟨world, made, found⟩ := Process.demand_bind_eq_ok found
  obtain ⟨same, isAfter, -⟩ := Outcome.mk.inj found
  exact ⟨activation, compilation, code, world, there, isCompilation, isCode, made,
    (Except.ok.inj same).symm, isAfter.symm⟩

theorem Realizes.pushBlock (implements : Implements image domain)
    (realizes : Realizes compilations state store (entry :: rest)) {block : Nat}
    (reads : ReadsCode entry.method entry.bytecodeIndex (.pushBlock (.object block) :: code))
    (ran : (makeBlock compilations domain entry.address block).run store =
      ⟨.ok value, after, events⟩)
    (room : HasRoom entry.method (entry.stack.length + 1)) :
    Advances image state after ((entry.goOn 2).holding (value :: entry.stack) :: rest) := by
  obtain ⟨next, goesOn, ranRound⟩ := realizes.fetches image reads nofun
  obtain ⟨frame, activation, standing⟩ := goesOn.head
  obtain ⟨activation', compilation, inner, world, there, isCompilation, isCode, made, rfl, rfl⟩ :=
    makeBlock_eq_ok ran
  obtain rfl : activation = activation' := Option.some.inj (standing.there.symm.trans there)
  have ofFrame : frame.method.compilation? = some compilation :=
    standing.keeps.method ▸ isCompilation
  have isConstant := reads.cons.2.1.constant rfl next
  have sameBlocks : next.blocks.length = store.blocks.length := congrArg _ goesOn.blocks
  have madeThere := implements.setBlockClass _ _ goesOn.toCorresponds.bare _ _ _ made
  rw [← sameBlocks] at madeThere
  have withBlock := goesOn.withBlocks
    (store.blocks ++ [⟨.compiled compilation block, entry.address⟩])
    (domain.setGlobal world inner.signature (.block store.blocks.length))
  obtain ⟨later, pushed, realizesLater⟩ := withBlock.push (.block store.blocks.length) (withBlock.hasFreeSlot room)
  refine ⟨later, ?_, realizesLater⟩
  have created : (newBlock image (.compiled compilation block) inner entry.address
      (numberOfArguments inner)).run next = ⟨.ok store.blocks.length, { next with
        blocks := store.blocks ++ [⟨.compiled compilation block, entry.address⟩]
        world := domain.setGlobal world inner.signature (.block store.blocks.length) }, []⟩ := by
    rw [newBlock, Process.bind_of_silent (Process.run_read _),
      Process.bind_of_silent (Process.run_modify _ _), madeThere, Process.demand_some,
      Process.pure_bind, setWorld, Process.bind_of_silent (Process.run_modify _ _),
      implements.setGlobal, sameBlocks, goesOn.blocks]
    rfl
  have isInner : (readMethod compilations (.compiled compilation block) :
      InterpreterM World Object CompiledMethod) = pure inner := by
    rw [readMethod, isCode]
    rfl
  rw [ranRound, dispatch_opcode, doInstruction, doPushBlock, goesOn.readMethod_run standing,
    ofFrame, Process.demand_some, Process.pure_bind]
  change (getConstant entry.method entry.bytecodeIndex >>= _).run next = _
  rw [Process.bind_of_silent isConstant]
  dsimp only
  rw [isInner, Process.pure_bind, Process.bind_of_silent (getFrame_run goesOn.isRunning)]
  change (newBlock image (.compiled compilation block) inner entry.address
    (numberOfArguments inner) >>= _).run next = _
  rw [Process.bind_of_silent created,
    Process.bind_of_silent (getFrame_run withBlock.isRunning)]
  exact pushed

/-! ### Popping -/

theorem Realizes.dup (realizes : Realizes compilations state store (entry :: rest))
    (reads : ReadsCode entry.method entry.bytecodeIndex (.dup :: code))
    (top : entry.stack = value :: stack) (room : HasRoom entry.method (entry.stack.length + 1)) :
    Advances image state store ((entry.goOn 1).holding (value :: value :: stack) :: rest) := by
  obtain ⟨next, goesOn, ranRound⟩ := realizes.fetches image reads nofun
  obtain ⟨frame, activation, standing⟩ := goesOn.head
  obtain ⟨later, pushed, realizesLater⟩ := goesOn.push value (goesOn.hasFreeSlot room)
  have holds : frame.Holds ((activation.variables ++ stack.reverse) ++ [value]) := by
    have holds := standing.stands.holds
    rw [show (entry.goOn (Instruction.size .dup)).stack = value :: stack from top,
      List.reverse_cons, ← List.append_assoc] at holds
    exact holds
  have isTop : (getStackElement entry.address 0).run next = ⟨.ok value, next, []⟩ :=
    getStackElement_run standing.found holds rfl Nat.one_pos
  have stacked : (entry.goOn (Instruction.size .dup)).holding
      (value :: (entry.goOn (Instruction.size .dup)).stack) =
        (entry.goOn 1).holding (value :: value :: stack) :=
    congrArg (fun stack => (entry.goOn 1).holding (value :: stack)) top
  rw [stacked] at realizesLater
  refine ⟨later, ?_, realizesLater⟩
  rw [ranRound, dispatch_opcode, doInstruction, doDup,
    Process.bind_of_silent (getFrame_run goesOn.isRunning)]
  change (getStackElement entry.address 0 >>= _).run next = _
  rw [Process.bind_of_silent isTop, Process.bind_of_silent (getFrame_run goesOn.isRunning)]
  exact pushed

theorem Realizes.popped (realizes : Realizes compilations state store (entry :: rest))
    (reads : ReadsCode entry.method entry.bytecodeIndex (.pop :: code))
    (top : entry.stack = value :: stack) :
    Advances image state store ((entry.goOn 1).holding stack :: rest) := by
  obtain ⟨next, goesOn, ranRound⟩ := realizes.fetches image reads nofun
  obtain ⟨later, popped, realizesLater, -⟩ := goesOn.pop top
  refine ⟨later, ?_, realizesLater⟩
  rw [ranRound, dispatch_opcode, doInstruction, doPop,
    Process.bind_of_silent (getFrame_run goesOn.isRunning)]
  rw [Process.bind_of_silent popped]
  rfl

/-- `POP_LOCAL` and `POP_ARGUMENT`. -/
theorem Realizes.popVariable (realizes : Realizes compilations state store (entry :: rest))
    (reads : ReadsCode entry.method entry.bytecodeIndex (instruction :: code)) {first second : Nat}
    (isSlot : instruction.slot? = some (first, second)) (top : entry.stack = value :: stack)
    {assign : Nat → Nat → Nat → Value Object → InterpreterM World Object Unit}
    (does : doInstruction image instruction entry.bytecodeIndex = do
      let method ← getMethod compilations
      let bc1 ← getBytecode method (entry.bytecodeIndex + 1)
      let bc2 ← getBytecode method (entry.bytecodeIndex + 2)
      let o ← Interpreter.pop (← getFrame)
      assign (← getFrame) bc1 bc2 o)
    (assigns : ∀ next, Realizes compilations next store
        ((entry.goOn (Instruction.size instruction)).holding stack :: rest) →
      ∃ later, (assign entry.address first second value).run next = ⟨.ok (), later, []⟩ ∧
        Realizes compilations later after
          ((entry.goOn (Instruction.size instruction)).holding stack :: rest)) :
    Advances image state after
      ((entry.goOn (Instruction.size instruction)).holding stack :: rest) := by
  obtain ⟨next, goesOn, ranRound⟩ := realizes.fetchesSlot reads isSlot does
  obtain ⟨last, popped, realizesLast, -⟩ := goesOn.pop top
  obtain ⟨later, assigned, realizesLater⟩ := assigns last realizesLast
  refine ⟨later, ?_, realizesLater⟩
  rw [ranRound, Process.bind_of_silent (getFrame_run goesOn.isRunning)]
  rw [Process.bind_of_silent popped,
    Process.bind_of_silent (getFrame_run realizesLast.isRunning)]
  exact assigned

theorem Realizes.popField (implements : Implements image domain)
    (realizes : Realizes compilations state store (entry :: rest)) {name : String}
    (reads : ReadsCode entry.method entry.bytecodeIndex (.popField (.symbol name) :: code))
    (top : entry.stack = value :: stack)
    (ran : ((instructionSemantics compilations domain send entry.address).store
      (.popField (.symbol name)) value).run store = ⟨.ok (), after, events⟩) :
    Advances image state after ((entry.goOn 2).holding stack :: rest) := by
  obtain ⟨next, goesOn, ranRound⟩ := realizes.fetchesSymbol image reads rfl rfl
  obtain ⟨known, _, _, _, ranSelf, means, -⟩ := Process.bind_eq_ok ran
  obtain ⟨rfl, self, rfl, readsSelf⟩ := goesOn.getSelf goesOn.isRunning _ _ _ ranSelf
  cases self with
  | block | frame => exact nomatch (Outcome.mk.inj means).1
  | object self =>
      have sets : (do
          let store ← Process.read
          let world ← Process.demand .undefined (domain.setField store.world self name value)
          changeWorld world : EvaluationM World Object Unit).run _ = ⟨.ok (), after, _⟩ := means
      rw [Process.bind_of_silent (Process.run_read _)] at sets
      obtain ⟨world, isWorld, sets⟩ := Process.demand_bind_eq_ok sets
      obtain ⟨-, rfl, -⟩ := Outcome.mk.inj sets
      obtain ⟨last, popped, realizesLast, -⟩ := goesOn.pop top
      have isWorldThere : image.setField last.world self name value = some world := by
        rw [implements.setField, realizesLast.world]
        exact isWorld
      refine ⟨{ last with world := world }, ?_, ?_⟩
      · rw [ranRound, Process.bind_of_silent readsSelf]
        dsimp only
        rw [Process.bind_of_silent (getFrame_run goesOn.isRunning),
          Process.bind_of_silent popped, Process.bind_of_silent (Process.run_read _),
          isWorldThere]
        rfl
      · have withWorld := realizesLast.withBlocks last.blocks world
        rw [realizesLast.blocks] at withWorld
        exact ⟨⟨withWorld.length, withWorld.keeps, withWorld.stands, realizesLast.blocks, rfl⟩,
          withWorld.running, withWorld.calls, withWorld.distinct⟩

/-! ### Every instruction -/

/-- An instruction that neither sends nor returns does to the running frame what it
means. -/
theorem Realizes.step (implements : Implements image domain)
    (realizes : Realizes compilations state store (entry :: rest))
    (reads : ReadsCode entry.method entry.bytecodeIndex (instruction :: code))
    (noSend : instruction.isSend = false)
    (ran : ((instructionSemantics compilations domain send entry.address).step instruction
      entry.stack).run store = ⟨.ok stack, after, events⟩)
    (room : HasRoom entry.method stack.length) :
    Advances image state after
      ((entry.goOn (Instruction.size instruction)).holding stack :: rest) := by
  cases instruction with
  | send | superSend => exact nomatch noSend
  | halt | returnLocal | returnNonLocal => exact nomatch (Outcome.mk.inj ran).1
  | pushLocal first second =>
      obtain ⟨value, meant, rfl⟩ := Process.map_eq_ok ran
      exact realizes.pushVariable reads rfl rfl
        (fun next corresponds => corresponds.getLocal entry.address first second) meant room
  | pushArgument first second =>
      obtain ⟨value, meant, rfl⟩ := Process.map_eq_ok ran
      exact realizes.pushVariable reads rfl rfl
        (fun next corresponds => corresponds.getArgument entry.address first second) meant room
  | pushField field =>
      obtain ⟨value, meant, rfl⟩ := Process.map_eq_ok ran
      cases field with
      | symbol name => exact realizes.pushField implements reads meant room
      | object => exact nomatch (Outcome.mk.inj ran).1
  | pushBlock block =>
      obtain ⟨value, meant, rfl⟩ := Process.map_eq_ok ran
      cases block with
      | symbol => exact nomatch (Outcome.mk.inj ran).1
      | object => exact realizes.pushBlock implements reads meant room
  | pushConstant constant =>
      obtain ⟨value, meant, rfl⟩ := Process.map_eq_ok ran
      exact realizes.pushConstant implements reads meant room
  | pushGlobal global =>
      obtain ⟨value, meant, rfl⟩ := Process.map_eq_ok ran
      cases global with
      | symbol name => exact realizes.pushGlobal implements reads meant room
      | object => exact nomatch (Outcome.mk.inj ran).1
  | dup =>
      cases top : entry.stack with
      | nil =>
          rw [top] at ran
          exact nomatch (Outcome.mk.inj ran).1
      | cons value below =>
          rw [top] at ran
          obtain ⟨same, rfl, -⟩ := Outcome.mk.inj ran
          obtain rfl := Except.ok.inj same
          refine realizes.dup reads top ?_
          rw [top]
          exact room
  | pop =>
      cases top : entry.stack with
      | nil =>
          rw [top] at ran
          exact nomatch (Outcome.mk.inj ran).1
      | cons value below =>
          rw [top] at ran
          obtain ⟨same, rfl, -⟩ := Outcome.mk.inj ran
          obtain rfl := Except.ok.inj same
          exact realizes.popped reads top
  | popLocal first second =>
      cases top : entry.stack with
      | nil =>
          rw [top] at ran
          exact nomatch (Outcome.mk.inj ran).1
      | cons value below =>
          rw [top] at ran
          obtain ⟨_, stores, rfl⟩ := Process.map_eq_ok ran
          exact realizes.popVariable reads rfl top rfl
            fun next realizes => realizes.setLocal stores
  | popArgument first second =>
      cases top : entry.stack with
      | nil =>
          rw [top] at ran
          exact nomatch (Outcome.mk.inj ran).1
      | cons value below =>
          rw [top] at ran
          obtain ⟨_, stores, rfl⟩ := Process.map_eq_ok ran
          exact realizes.popVariable reads rfl top rfl
            fun next realizes => realizes.setArgument stores
  | popField field =>
      cases top : entry.stack with
      | nil =>
          rw [top] at ran
          exact nomatch (Outcome.mk.inj ran).1
      | cons value below =>
          rw [top] at ran
          obtain ⟨_, stores, rfl⟩ := Process.map_eq_ok ran
          cases field with
          | symbol name => exact realizes.popField implements reads top stores
          | object => exact nomatch (Outcome.mk.inj ran).1

end

end Somr.Interpreter
