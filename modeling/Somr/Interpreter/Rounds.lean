import Somr.Interpreter.NotUnderstood

/-!
Owns what the rounds that make a block and that send a message do, where they succeed,
and the runs of rounds.

A frame is described by a `View`: where it returns to, its context, its method,
where it stands in the code, and the values up to its stack pointer. Of the slots
above the stack pointer nothing is said.
-/

namespace Somr.Interpreter

open Foundation Compiler

/-! ### Views -/

structure View (Object : Type) where
  previousFrame : Option Nat
  context : Option Nat
  method : MethodAddress
  size : Nat
  bytecodeIndex : Nat
  values : List (Value Object)

section

variable {World Object : Type}

def View.goOn (length : Nat) (view : View Object) : View Object :=
  { view with bytecodeIndex := view.bytecodeIndex + length }

def View.push (value : Value Object) (view : View Object) : View Object :=
  { view with values := view.values ++ [value] }

structure Frame.Shows (frame : Frame Object) (view : View Object) : Prop where
  previousFrame : frame.previousFrame = view.previousFrame
  context : frame.context = view.context
  method : frame.method = view.method
  size : frame.slots.length = view.size
  bytecodeIndex : frame.bytecodeIndex = view.bytecodeIndex
  holds : frame.Holds view.values

def State.Shows (state : State World Object) (address : Nat) (view : View Object) : Prop :=
  ∃ frame, state.frames[address]? = some frame ∧ frame.Shows view

/-- The state with a further frame, in which the interpreter goes on. -/
def State.enter (state : State World Object) (callee : Frame Object) (world : World) :
    State World Object :=
  { state with
    frames := state.frames ++ [callee]
    frame := some state.frames.length
    world := world }

variable {state : State World Object} {address other : Nat} {frame : Frame Object}
  {view : View Object} {values below top : List (Value Object)}

theorem Frame.Shows.goOn (shows : frame.Shows view) (length : Nat) :
    ({ frame with bytecodeIndex := frame.bytecodeIndex + length } : Frame Object).Shows
      (view.goOn length) :=
  { shows with
    bytecodeIndex := congrArg (· + length) shows.bytecodeIndex
    holds := ⟨shows.holds.pointer, shows.holds.live⟩ }

theorem Frame.Shows.pushed (shows : frame.Shows view) (value : Value Object)
    (room : view.values.length < view.size) : (frame.pushed value).Shows (view.push value) :=
  { shows with
    size := (Frame.length_slots_pushed value).trans shows.size
    holds := shows.holds.pushed value (shows.size ▸ room) }

theorem State.Shows.put (shows : state.Shows address view) {changed : Frame Object}
    {later : View Object} (shown : changed.Shows later) :
    (state.put address changed).Shows address later := by
  obtain ⟨frame, found, -⟩ := shows
  exact ⟨changed, State.put_found found changed, shown⟩

theorem State.put_other (different : other ≠ address) (changed : Frame Object) :
    (state.put address changed).frames[other]? = state.frames[other]? :=
  List.getElem?_set_ne different.symm

theorem State.Shows.enter (shows : state.Shows address view) (callee : Frame Object)
    (world : World) : (state.enter callee world).Shows address view := by
  obtain ⟨frame, found, shown⟩ := shows
  obtain ⟨below, -⟩ := List.getElem?_eq_some_iff.mp found
  exact ⟨frame, (List.getElem?_append_left below).trans found, shown⟩

theorem State.Shows.lt (shows : state.Shows address view) : address < state.frames.length := by
  obtain ⟨frame, found, -⟩ := shows
  exact (List.getElem?_eq_some_iff.mp found).1

/-- The state with a further block. -/
def State.withBlock (state : State World Object) (block : Block) (world : World) :
    State World Object :=
  { state with blocks := state.blocks ++ [block], world := world }

theorem State.enter_put (state : State World Object) (callee changed : Frame Object)
    (world : World) :
    (state.enter callee world).put state.frames.length changed = state.enter changed world := by
  rw [State.enter, State.put, State.enter]
  dsimp only
  rw [List.set_append_right _ _ (Nat.le_refl _), Nat.sub_self, List.set_cons_zero]

theorem State.enter_found (state : State World Object) (callee : Frame Object) (world : World) :
    (state.enter callee world).frames[state.frames.length]? = some callee :=
  List.getElem?_concat_length

/-- The element so far below the stack pointer. -/
theorem getStackElement_run (found : state.frames[address]? = some frame)
    (holds : frame.Holds (below ++ top)) {depth : Nat} {value : Value Object}
    (there : top[top.length - 1 - depth]? = some value) (inside : depth < top.length) :
    (getStackElement address depth).run state = ⟨.ok value, state, []⟩ := by
  have pointer := holds.pointer
  rw [List.length_append] at pointer
  have position : frame.stackPointer - (depth : Int) =
      ((below.length + (top.length - 1 - depth) : Nat) : Int) := by omega
  have slot : frame.slots[below.length + (top.length - 1 - depth)]? = some value := by
    obtain ⟨rest, slots⟩ := holds.live
    rw [← slots, List.append_assoc, List.getElem?_append_right (Nat.le_add_right _ _),
      Nat.add_sub_cancel_left, List.getElem?_append_left (by omega), there]
  rw [getStackElement, Process.bind_of_silent (readFrame_run found), position]
  exact element_run found slot

end

/-! ### Rounds -/

/-- The code has these bytes at the index. -/
def Reads (method : CompiledMethod) (index : Nat) (bytes : List UInt8) : Prop :=
  bytes <+: method.bytecode.drop index

instance (method : CompiledMethod) (index : Nat) (bytes : List UInt8) :
    Decidable (Reads method index bytes) :=
  inferInstanceAs (Decidable (bytes <+: method.bytecode.drop index))

theorem Reads.byte {method : CompiledMethod} {index : Nat} {bytes : List UInt8}
    (reads : Reads method index bytes) {offset : Nat} {byte : UInt8}
    (there : bytes[offset]? = some byte) : method.bytecode[index + offset]? = some byte := by
  obtain ⟨rest, code⟩ := reads
  obtain ⟨inside, -⟩ := List.getElem?_eq_some_iff.mp there
  rw [← List.getElem?_drop, ← code, List.getElem?_append_left inside, there]

section

variable {compilations : List Compilation} {World Object : Type}
  {image : Image compilations World Object} {state : State World Object}
  {address other : Nat} {view : View Object} {method : CompiledMethod}
  {below arguments : List (Value Object)}

/-- The interpreter runs the frame that is shown, and its method has this code. -/
structure Executes (compilations : List Compilation) (state : State World Object) (address : Nat)
    (view : View Object) (method : CompiledMethod) : Prop where
  running : state.frame = some address
  shows : state.Shows address view
  code : methodAt compilations view.method = some method

theorem Executes.put (executes : Executes compilations state address view method)
    {changed : Frame Object} {later : View Object} (shown : changed.Shows later)
    (same : later.method = view.method) :
    Executes compilations (state.put address changed) address later method :=
  ⟨executes.running, executes.shows.put shown, same ▸ executes.code⟩

variable (image) in
/-- A round goes on behind its bytecode and dispatches it. -/
theorem Executes.fetches (executes : Executes compilations state address view method)
    {bytecode : UInt8} {operands : List UInt8} {length : Nat}
    (reads : Reads method view.bytecodeIndex (bytecode :: operands))
    (isLength : Bytecode.getBytecodeLength bytecode = some length)
    (goesOn : bytecode ≠ Bytecode.halt) :
    ∃ frame, frame.Shows (view.goOn length) ∧
      (round image).run state =
        (dispatch image bytecode view.bytecodeIndex).run (state.put address frame) := by
  obtain ⟨frame, found, shown⟩ := executes.shows
  have fetched : method.bytecode[frame.bytecodeIndex]? = some bytecode := by
    rw [shown.bytecodeIndex, ← Nat.add_zero view.bytecodeIndex]
    exact reads.byte rfl
  have isCode : methodAt compilations frame.method = some method := shown.method ▸ executes.code
  refine ⟨_, shown.goOn length, ?_⟩
  rw [← shown.bytecodeIndex, round,
    Process.bind_of_silent (getFrame_run executes.running),
    Process.bind_of_silent (readFrame_run found), readMethod, isCode,
    Process.demand_some, Process.pure_bind, fetched, Process.demand_some, Process.pure_bind,
    isLength, Process.demand_some, Process.pure_bind,
    Process.bind_of_silent (changeFrame_run found _), if_neg goesOn]

/-- What `getMethod` answers while a frame runs. -/
theorem Executes.getMethod_run (executes : Executes compilations state address view method) :
    (getMethod compilations).run state = ⟨.ok method, state, []⟩ := by
  obtain ⟨frame, found, shown⟩ := executes.shows
  exact Interpreter.getMethod_run executes.running found (shown.method ▸ executes.code)

theorem getBytecode_run {index : Nat} {byte : UInt8} (there : method.bytecode[index]? = some byte) :
    (getBytecode method index).run state = ⟨.ok byte.toNat, state, []⟩ := by
  rw [getBytecode, there]
  rfl

/-! ### Blocks -/

theorem dispatch_pushBlock (bytecodeIndex : Nat) :
    dispatch image Bytecode.pushBlock bytecodeIndex = doPushBlock image bytecodeIndex := rfl

variable (image)

theorem Executes.pushes (executes : Executes compilations state address view method)
    (value : Value Object) (room : view.values.length < view.size) :
    ∃ frame, frame.Shows (view.push value) ∧
      (push address value).run state = ⟨.ok (), state.put address frame, []⟩ := by
  obtain ⟨frame, found, shown⟩ := executes.shows
  exact ⟨_, shown.pushed value room, push_value_run found shown.holds value (shown.size ▸ room)⟩

theorem Executes.atPushBlock (executes : Executes compilations state address view method)
    {index : UInt8} (reads : Reads method view.bytecodeIndex [Bytecode.pushBlock, index])
    {compilation outer inner : Nat} (ofCompilation : view.method = .compiled compilation outer)
    (literal : method.literals[index.toNat]? = some (.object inner)) {code : CompiledMethod}
    (isCode : methodAt compilations (.compiled compilation inner) = some code)
    (makes : ∀ later : State World Object,
      ∃ world, image.setBlockClass later later.blocks.length (numberOfArguments code) = some world)
    (room : view.values.length < view.size) :
    ∃ frame world, frame.Shows ((view.goOn 2).push (.block state.blocks.length)) ∧
      (round image).run state = ⟨.ok (), (state.put address frame).withBlock
        ⟨.compiled compilation inner, address⟩ world, []⟩ := by
  obtain ⟨advanced, shown, ran⟩ := executes.fetches image reads rfl (by decide)
  have later := executes.put shown rfl
  obtain ⟨frame, found, shows⟩ := later.shows
  obtain ⟨world, made⟩ := makes (state.put address advanced)
  have constant : (getConstant method view.bytecodeIndex :
      InterpreterM World Object Literal).run (state.put address advanced) =
        ⟨.ok (.object inner), state.put address advanced, []⟩ := by
    rw [getConstant, Process.bind_of_silent (getBytecode_run (reads.byte rfl)), literal]
    rfl
  have created : (newBlock image (.compiled compilation inner) code address
      (numberOfArguments code)).run (state.put address advanced) =
        ⟨.ok state.blocks.length, (state.put address advanced).withBlock
          ⟨.compiled compilation inner, address⟩
          (image.setGlobal world code.signature (.block state.blocks.length)), []⟩ := by
    rw [newBlock, Process.bind_of_silent (Process.run_read _),
      Process.bind_of_silent (Process.run_modify _ _), made, Process.demand_some,
      Process.pure_bind, setWorld, Process.bind_of_silent (Process.run_modify _ _)]
    rfl
  have after : Executes compilations ((state.put address advanced).withBlock
      ⟨.compiled compilation inner, address⟩
      (image.setGlobal world code.signature (.block state.blocks.length))) address (view.goOn 2)
        method := ⟨later.running, later.shows, later.code⟩
  obtain ⟨last, showsLast, pushed⟩ := after.pushes (.block state.blocks.length) room
  refine ⟨last, image.setGlobal world code.signature (.block state.blocks.length), showsLast, ?_⟩
  have ofFrame : frame.method = .compiled compilation outer := shows.method.trans ofCompilation
  have isMethod : methodAt compilations frame.method = some method := shows.method ▸ later.code
  have isInner : (readMethod compilations (.compiled compilation inner) :
      InterpreterM World Object CompiledMethod) = pure code := by
    rw [readMethod, isCode]
    rfl
  rw [ran, dispatch_pushBlock, doPushBlock, Process.bind_of_silent (getFrame_run later.running),
    Process.bind_of_silent (readFrame_run found), readMethod, isMethod, Process.demand_some,
    Process.pure_bind, ofFrame, MethodAddress.compilation?, Process.demand_some, Process.pure_bind,
    Process.bind_of_silent constant]
  dsimp only
  rw [isInner, Process.pure_bind, Process.bind_of_silent (getFrame_run later.running),
    Process.bind_of_silent created, Process.bind_of_silent (getFrame_run after.running), pushed]
  rw [State.withBlock, State.withBlock, State.put, State.put, State.put]
  dsimp only
  rw [List.set_set]

/-! ### Sends -/

/-- A `SEND` whose receiver understands the message invokes what the lookup finds. -/
theorem Executes.atSend (executes : Executes compilations state address view method)
    {index : UInt8} (reads : Reads method view.bytecodeIndex [Bytecode.send, index])
    {signature : String} (literal : method.literals[index.toNat]? = some (.symbol signature))
    (holding : view.values = below ++ arguments)
    (counts : Signature.getNumberOfArguments signature = arguments.length)
    {receiver : Value Object} (first : arguments.head? = some receiver)
    {invokable : Invokable compilations World Object}
    (understands : ∀ later, image.lookupInvokable later receiver signature = some invokable) :
    ∃ frame, frame.Shows (view.goOn 2) ∧
      (round image).run state = (invoke image invokable address).run (state.put address frame) := by
  obtain ⟨advanced, shown, ran⟩ := executes.fetches image reads rfl (by decide)
  have later := executes.put shown rfl
  obtain ⟨frame, found, shows⟩ := later.shows
  have holds : frame.Holds (below ++ arguments) := holding ▸ shows.holds
  have some : 0 < arguments.length := counts ▸ numberOfArguments_pos signature
  have element : (getStackElement address (Signature.getNumberOfArguments signature - 1)).run
      (state.put address advanced) = ⟨.ok receiver, state.put address advanced, []⟩ := by
    have depth : (Signature.getNumberOfArguments signature : Int) - 1 =
        ((arguments.length - 1 : Nat) : Int) := by omega
    rw [depth]
    refine getStackElement_run found holds ?_ (by omega)
    rw [Nat.sub_self, ← List.head?_eq_getElem?, first]
  refine ⟨advanced, shown, ?_⟩
  rw [ran, dispatch_send, doSend, Process.bind_of_silent later.getMethod_run,
    Process.bind_of_silent (getSymbol_run (reads.byte rfl) literal),
    Process.bind_of_silent (getFrame_run later.running), Process.bind_of_silent element, send,
    Process.bind_of_silent (Process.run_read _), understands]
  dsimp only
  rw [Process.bind_of_silent (getFrame_run later.running)]

variable {image} in
theorem invoke_method (deep : 0 < image.stackDepth) (installed : InstalledMethod compilations)
    (frame : Nat) :
    invoke image (.method installed) frame = invokeMethod image installed.method frame := by
  obtain ⟨depth, isDepth⟩ := Nat.exists_eq_succ_of_ne_zero (Nat.ne_of_gt deep)
  rw [invoke, isDepth]
  rfl

variable {image} in
theorem invoke_evaluation (deep : 0 < image.stackDepth) (argc frame : Nat) :
    invoke image (.evaluation argc) frame = evaluationRoutine image argc frame := by
  obtain ⟨depth, isDepth⟩ := Nat.exists_eq_succ_of_ne_zero (Nat.ne_of_gt deep)
  rw [invoke, isDepth]
  rfl

/-! ### New frames -/

/-- The view of a frame just entered. -/
def enteredView (previousFrame context : Option Nat)
    (method : MethodAddress) (code : CompiledMethod) (arguments : List (Value Object)) :
    View Object where
  previousFrame := previousFrame
  context := context
  method := method
  size := arguments.length + code.numberOfLocals +
    (code.maximumNumberOfStackElements.getD 0).toNat
  bytecodeIndex := 0
  values := arguments ++ List.replicate code.numberOfLocals (.object image.nilObject)

/-- The frame that `NewFrame` makes, before the arguments are copied. -/
theorem pushNewFrame_run {callee : MethodAddress} {code : CompiledMethod}
    (isCode : methodAt compilations callee = some code)
    (reserves : code.maximumNumberOfStackElements.isSome = true) :
    ∃ frame world, (pushNewFrame image callee).run state =
        ⟨.ok state.frames.length, state.enter frame world, []⟩ ∧
      frame.Shows (enteredView image state.frame none callee code
        (List.replicate (numberOfArguments code) (.object image.nilObject))) := by
  obtain ⟨stackElements, isReserved⟩ := Option.isSome_iff_exists.mp reserves
  let nils : List (Value Object) := List.replicate (numberOfArguments code + code.numberOfLocals +
    stackElements.toNat) (.object image.nilObject)
  let frame : Frame Object := Frame.resetStackPointer code
    { previousFrame := state.frame, method := callee, stackPointer := 0, bytecodeIndex := 0,
      localOffset := 0, slots := nils }
  have created : (newFrame image state.frame callee).run state = ⟨.ok state.frames.length,
      { state with
        frames := state.frames ++ [frame]
        world := image.setGlobal state.world "Frame" (.frame state.frames.length) }, []⟩ := by
    rw [newFrame, readMethod, isCode, Process.demand_some, Process.pure_bind, isReserved,
      Process.demand_some, Process.pure_bind]
    rfl
  refine ⟨frame, image.setGlobal state.world "Frame" (.frame state.frames.length), ?_, rfl, rfl, rfl,
    ?_, rfl, ?_, ?_⟩
  · rw [pushNewFrame, Process.bind_of_silent (Process.run_read _), Process.bind_of_silent created]
    rfl
  · simp [enteredView, isReserved, frame, nils, Frame.resetStackPointer]
  · simp [enteredView, frame, Frame.resetStackPointer]
  · rw [enteredView, List.replicate_append_replicate]
    exact ⟨_, List.replicate_append_replicate⟩

/-- One turn of the loop of `CopyArgumentsFrom`. -/
def copyArgument (address callee count i : Nat) : InterpreterM World Object Unit := do
  let stackElem ← getStackElement address (count - 1 - i)
  setElement callee i stackElem

/-- The frame when the loop has copied so many arguments. -/
def Frame.copied (frame : Frame Object) (arguments : List (Value Object)) (count : Nat) :
    Frame Object :=
  { frame with slots := arguments.take count ++ frame.slots.drop count }

theorem copyArgument_run {caller frame : Frame Object} {callee : Nat}
    (different : callee ≠ address) (found : state.frames[address]? = some caller)
    (holds : caller.Holds (below ++ arguments)) (isCallee : state.frames[callee]? = some frame)
    (room : arguments.length ≤ frame.slots.length) {first : Nat}
    (inside : first < arguments.length) :
    (copyArgument address callee arguments.length first).run
        (state.put callee (frame.copied arguments first)) =
      ⟨.ok (), state.put callee (frame.copied arguments (first + 1)), []⟩ := by
  have depth : (arguments.length : Int) - 1 - (first : Int) =
      ((arguments.length - 1 - first : Nat) : Int) := by omega
  have stillCaller := (State.put_other different.symm (frame.copied arguments first)).trans found
  have element : (getStackElement address (arguments.length - 1 - first)).run
      (state.put callee (frame.copied arguments first)) =
        ⟨.ok arguments[first], state.put callee (frame.copied arguments first), []⟩ := by
    rw [depth]
    refine getStackElement_run stillCaller holds ?_ (by omega)
    rw [show arguments.length - 1 - (arguments.length - 1 - first) = first by omega]
    exact List.getElem?_eq_getElem inside
  have slot : first < (frame.copied arguments first).slots.length := by
    rw [Frame.copied, List.length_append, List.length_take, List.length_drop]
    omega
  have written := setElement_run arguments[first]
    (State.put_found isCallee (frame.copied arguments first)) slot
  have more : (frame.copied arguments first).slots.set first arguments[first] =
      (frame.copied arguments (first + 1)).slots := by
    have taken : (arguments.take first).length = first := List.length_take_of_le (by omega)
    rw [Frame.copied, Frame.copied, List.set_append_right _ _ (by omega), taken, Nat.sub_self,
      List.drop_eq_getElem_cons (by omega), List.set_cons_zero, List.take_succ_eq_append_getElem,
      List.append_assoc]
    rfl
  rw [copyArgument, Process.bind_of_silent element, written, more]
  exact congrArg (fun after => (⟨.ok (), after, []⟩ : Outcome _ _ _ _)) (State.put_put _ _)

theorem copyArguments_run {caller frame : Frame Object} {callee : Nat}
    (different : callee ≠ address) (found : state.frames[address]? = some caller)
    (holds : caller.Holds (below ++ arguments)) (isCallee : state.frames[callee]? = some frame)
    (room : arguments.length ≤ frame.slots.length) (count : Nat) :
    ∀ first, first + count = arguments.length →
      ((List.range' first count).forM (copyArgument address callee arguments.length)).run
          (state.put callee (frame.copied arguments first)) =
        ⟨.ok (), state.put callee (frame.copied arguments arguments.length), []⟩ := by
  induction count with
  | zero =>
      intro first same
      obtain rfl : first = arguments.length := same
      rfl
  | succ count inductionHypothesis =>
      intro first same
      have copied := copyArgument_run different found holds isCallee room
        (show first < arguments.length by omega)
      change (copyArgument address callee arguments.length first >>= fun _ =>
        (List.range' (first + 1) count).forM (copyArgument address callee arguments.length)).run
          _ = _
      rw [Process.bind_of_silent copied]
      exact inductionHypothesis (first + 1) (by omega)

/-- A frame entered from another one has the topmost values of that one. -/
theorem enter_run (shows : state.Shows address view) (holding : view.values = below ++ arguments)
    {callee : MethodAddress} {code : CompiledMethod}
    (isCode : methodAt compilations callee = some code)
    (reserves : code.maximumNumberOfStackElements.isSome = true)
    (counts : numberOfArguments code = arguments.length) :
    ∃ frame world, (pushNewFrame image callee).run state =
        ⟨.ok state.frames.length, state.enter frame world, []⟩ ∧
      ∃ copied, (copyArgumentsFrom compilations state.frames.length address).run
          (state.enter frame world) = ⟨.ok (), state.enter copied world, []⟩ ∧
        copied.Shows (enteredView image state.frame none callee code arguments) := by
  obtain ⟨frame, world, entered, shown⟩ :=
    pushNewFrame_run image isCode reserves
  refine ⟨frame, world, entered, frame.copied arguments arguments.length, ?_, ?_⟩
  · obtain ⟨caller, found, showsCaller⟩ := shows.enter frame world
    have holds : caller.Holds (below ++ arguments) := holding ▸ showsCaller.holds
    have room : arguments.length ≤ frame.slots.length := by
      rw [shown.size, enteredView, List.length_replicate, counts]
      dsimp only
      omega
    have isCallee := State.enter_found state frame world
    have copied := copyArguments_run (Nat.ne_of_gt shows.lt) found holds isCallee room
      arguments.length 0 (Nat.zero_add _)
    have unchanged : frame.copied arguments 0 = frame := rfl
    have isMethod : methodAt compilations frame.method = some code := shown.method ▸ isCode
    rw [unchanged, State.put_same isCallee, State.enter_put, ← List.range_eq_range'] at copied
    rw [copyArgumentsFrom, Process.bind_of_silent (readFrame_run isCallee), readMethod, isMethod,
      Process.demand_some, Process.pure_bind, counts]
    exact copied
  · have holds := shown.holds
    rw [enteredView, counts] at holds
    refine ⟨shown.previousFrame, shown.context, shown.method, ?_, shown.bytecodeIndex, ?_, ?_⟩
    · have size := shown.size
      rw [enteredView, List.length_replicate, counts] at size
      rw [Frame.copied, enteredView]
      dsimp only at size ⊢
      rw [List.length_append, List.length_take, List.length_drop]
      omega
    · have pointer := holds.pointer
      rw [List.length_append, List.length_replicate] at pointer
      rw [enteredView, List.length_append]
      exact pointer
    · obtain ⟨rest, slots⟩ := holds.live
      rw [Frame.copied, enteredView, List.take_length, ← slots, List.append_assoc,
        List.drop_left' List.length_replicate]
      exact ⟨rest, List.append_assoc _ _ _⟩

/-- `VMMethod::operator()`. -/
theorem invokeMethod_run (shows : state.Shows address view)
    (holding : view.values = below ++ arguments) {callee : MethodAddress} {code : CompiledMethod}
    (isCode : methodAt compilations callee = some code)
    (reserves : code.maximumNumberOfStackElements.isSome = true)
    (counts : numberOfArguments code = arguments.length) :
    ∃ frame world, (invokeMethod image callee address).run state =
        ⟨.ok (), state.enter frame world, []⟩ ∧
      frame.Shows (enteredView image state.frame none callee code arguments) := by
  obtain ⟨frame, world, entered, copied, copies, shown⟩ :=
    enter_run image shows holding isCode reserves counts
  refine ⟨copied, world, ?_, shown⟩
  rw [invokeMethod, Process.bind_of_silent entered, copies]

/-- The evaluation of a block. -/
theorem evaluationRoutine_run (shows : state.Shows address view)
    (holding : view.values = below ++ arguments) {argc blockAddress : Nat} {block : Block}
    (isCount : argc = arguments.length) (first : arguments.head? = some (.block blockAddress))
    (isBlock : state.blocks[blockAddress]? = some block) {code : CompiledMethod}
    (isCode : methodAt compilations block.method = some code)
    (reserves : code.maximumNumberOfStackElements.isSome = true)
    (counts : numberOfArguments code = arguments.length) :
    ∃ frame world, (evaluationRoutine image argc address).run state =
        ⟨.ok (), state.enter frame world, []⟩ ∧
      frame.Shows (enteredView image state.frame (some block.context) block.method code
        arguments) := by
  obtain ⟨frame, world, entered, copied, copies, shown⟩ :=
    enter_run image shows holding isCode reserves counts
  obtain ⟨caller, found, showsCaller⟩ := shows
  have holds : caller.Holds (below ++ arguments) := holding ▸ showsCaller.holds
  have some : 0 < arguments.length := by
    cases arguments with
    | nil => exact absurd first (Option.some_ne_none _).symm
    | cons value rest => exact Nat.succ_pos _
  have receiver : (getStackElement address (argc - 1)).run state =
      ⟨.ok (.block blockAddress), state, []⟩ := by
    have depth : (argc : Int) - 1 = ((arguments.length - 1 : Nat) : Int) := by omega
    rw [depth]
    refine getStackElement_run found holds ?_ (by omega)
    rw [Nat.sub_self, ← List.head?_eq_getElem?, first]
  refine ⟨{ copied with context := Option.some block.context }, world, ?_,
    { shown with context := rfl, holds := ⟨shown.holds.pointer, shown.holds.live⟩ }⟩
  rw [evaluationRoutine, Process.bind_of_silent receiver]
  dsimp only
  rw [Process.bind_of_silent (Process.run_read _), isBlock, Process.demand_some, Process.pure_bind,
    Process.bind_of_silent entered, Process.bind_of_silent copies,
    changeFrame_run (State.enter_found state copied world), State.enter_put]

/-! ### Returns -/

theorem getFrame_pop_run (running : state.frame = some address) {value : Value Object}
    {next : State World Object} (popped : (pop address).run state = ⟨.ok value, next, []⟩) :
    (do let _ ← pop (← getFrame) : InterpreterM World Object Unit).run state =
      ⟨.ok (), next, []⟩ := by
  rw [Process.bind_of_silent (getFrame_run running), Process.bind_of_silent popped]
  rfl

/-! ### Runs -/

variable {image}

/-- The interpreter gets from one state to another by rounds. -/
inductive Run (image : Image compilations World Object) :
    State World Object → State World Object → Prop
  | done (state : State World Object) : Run image state state
  | round {state next last : State World Object} :
      (round image).run state = ⟨.ok (), next, []⟩ → Run image next last → Run image state last

theorem Run.trans {first second third : State World Object} (early : Run image first second)
    (late : Run image second third) : Run image first third := by
  induction early with
  | done => exact late
  | round ran _ inductionHypothesis => exact .round ran (inductionHypothesis late)

theorem Run.one {next : State World Object}
    (ran : (Interpreter.round image).run state = ⟨.ok (), next, []⟩) : Run image state next :=
  .round ran (.done next)

theorem Run.reachable {world : World} {first last : State World Object}
    (run : Run image first last) (reachable : Reachable image world first) :
    Reachable image world last := by
  induction run with
  | done => exact reachable
  | round ran _ inductionHypothesis =>
      apply inductionHypothesis
      have next := reachable.round (by rw [ran])
      rwa [ran] at next

end

end Somr.Interpreter
