import Somr.Interpreter.OperandStack

/-!
Owns the delivery of messages that are not understood: what `SEND` and
`SUPER_SEND` do when the lookup finds nothing, up to the invocation they end with.

Both replace the receiver and the arguments on the stack by the receiver, the
selector and an array. Only `SEND` makes room for these three values.
-/

namespace Somr.Interpreter

open Foundation Compiler

section

variable {compilations : List Compilation} {World Object : Type}
  (image : Image compilations World Object)

/-! ### The invocation a send ends with -/

/-- `VMObject::Send` up to the invocation: what is invoked, and with which frame. -/
def objectSendTarget (receiver : Value Object) (selector : String)
    (arguments : List (Value Object)) :
    InterpreterM World Object (Invokable compilations World Object × Nat) := do
  let frame ← getFrame
  push frame receiver
  arguments.forM (push frame)
  let state ← Process.read
  let invokable ← Process.demand .undefined (image.lookupInvokable state receiver selector)
  return (invokable, frame)

/-- The branch of `send` and of `doSuperSend` for a message that is not understood,
up to the invocation; `send` makes room in the frame first. -/
def notUnderstood (makesRoom : Bool) (signature : String) :
    InterpreterM World Object (Invokable compilations World Object × Nat) := do
  let (receiver, argumentsArray) ← packArguments image signature
  if makesRoom then reserve image 3
  objectSendTarget image receiver "doesNotUnderstand:arguments:"
    [image.symbol signature, argumentsArray]

def invokeTarget (target : Invokable compilations World Object × Nat) :
    InterpreterM World Object Unit :=
  invoke image target.1 target.2

theorem objectSend_eq (receiver : Value Object) (selector : String)
    (arguments : List (Value Object)) :
    objectSend image (invoke image) receiver selector arguments =
      objectSendTarget image receiver selector arguments >>= invokeTarget image := by
  simp only [objectSend, objectSendTarget, Process.bind_assoc]
  rfl

theorem notUnderstood_then (makesRoom : Bool) (signature : String) :
    notUnderstood image makesRoom signature >>= invokeTarget image = (do
      let (receiver, argumentsArray) ← packArguments image signature
      if makesRoom then reserve image 3
      objectSend image (invoke image) receiver "doesNotUnderstand:arguments:"
        [image.symbol signature, argumentsArray]) := by
  cases makesRoom with
  | true => simp only [notUnderstood, if_true, Process.bind_assoc, objectSend_eq]
  | false =>
      simp only [notUnderstood, Bool.false_eq_true, if_false, Process.bind_assoc, objectSend_eq]

/-! ### A send about to be executed -/

/-- The next bytecode is a `SEND` or a `SUPER_SEND` of the selector. -/
structure AtSend (compilations : List Compilation) (state : State World Object) (address : Nat)
    (frame : Frame Object) (super : Bool) (signature : String) : Prop where
  running : state.frame = some address
  found : state.frames[address]? = some frame
  sends : ∃ method index, methodAt compilations frame.method = some method ∧
    method.bytecode[frame.bytecodeIndex]? =
      some (if super then Bytecode.superSend else Bytecode.send) ∧
    method.bytecode[frame.bytecodeIndex + 1]? = some index ∧
    method.literals[index.toNat]? = some (.symbol signature)

/-- The frame in which a send is executed: the interpreter has gone on behind it. -/
def Frame.behindSend (frame : Frame Object) : Frame Object :=
  { frame with bytecodeIndex := frame.bytecodeIndex + 2 }

/-- The lookup of a `SEND` starts at the class of the receiver, that of a
`SUPER_SEND` behind the holder of the method of the outermost context. -/
inductive LookupFails (state : State World Object) (address : Nat) (signature : String) :
    (super : Bool) → Prop
  | send {receiver : Value Object} :
      (getStackElement address (Signature.getNumberOfArguments signature - 1)).run state =
        ⟨.ok receiver, state, []⟩ →
      image.lookupInvokable state receiver signature = none →
      LookupFails state address signature false
  | superSend {home : Nat} {ctxt : Frame Object} :
      (getOuterContext address).run state = ⟨.ok home, state, []⟩ →
      state.frames[home]? = some ctxt →
      image.lookupSuper state ctxt.method signature = none →
      LookupFails state address signature true

variable {image} {state : State World Object} {address : Nat} {frame : Frame Object}
  {super : Bool} {signature : String}

theorem getFrame_run (running : state.frame = some address) :
    (getFrame : InterpreterM World Object Nat).run state = ⟨.ok address, state, []⟩ := by
  rw [getFrame, Process.bind_of_silent (Process.run_read state), running]
  rfl

/-- A bytecode whose operand is a symbol of the running method. -/
theorem getSymbol_run {method : CompiledMethod} {bytecodeIndex : Nat} {index : UInt8}
    (operand : method.bytecode[bytecodeIndex + 1]? = some index)
    (literal : method.literals[index.toNat]? = some (.symbol signature)) :
    (getSymbol method bytecodeIndex : InterpreterM World Object String).run state =
      ⟨.ok signature, state, []⟩ := by
  have byte : (getBytecode method (bytecodeIndex + 1) : InterpreterM World Object Nat).run state =
      ⟨.ok index.toNat, state, []⟩ := by
    rw [getBytecode, operand]
    rfl
  have constant : (getConstant method bytecodeIndex : InterpreterM World Object Literal).run state =
      ⟨.ok (.symbol signature), state, []⟩ := by
    rw [getConstant, Process.bind_of_silent byte, literal]
    rfl
  rw [getSymbol, Process.bind_of_silent constant]
  rfl

theorem getMethod_run {method : CompiledMethod} (running : state.frame = some address)
    (found : state.frames[address]? = some frame)
    (code : methodAt compilations frame.method = some method) :
    (getMethod compilations).run state = ⟨.ok method, state, []⟩ := by
  rw [getMethod, Process.bind_of_silent (getFrame_run running),
    Process.bind_of_silent (readFrame_run found), readMethod, code]
  rfl

theorem dispatch_send (bytecodeIndex : Nat) :
    dispatch image Bytecode.send bytecodeIndex = doSend image bytecodeIndex := by
  simp [dispatch, Bytecode.send, Bytecode.dup, Bytecode.pushLocal, Bytecode.pushArgument,
    Bytecode.pushField, Bytecode.pushBlock, Bytecode.pushConstant, Bytecode.pushGlobal,
    Bytecode.pop, Bytecode.popLocal, Bytecode.popArgument, Bytecode.popField]

theorem dispatch_superSend (bytecodeIndex : Nat) :
    dispatch image Bytecode.superSend bytecodeIndex = doSuperSend image bytecodeIndex := by
  simp [dispatch, Bytecode.superSend, Bytecode.send, Bytecode.dup, Bytecode.pushLocal,
    Bytecode.pushArgument, Bytecode.pushField, Bytecode.pushBlock, Bytecode.pushConstant,
    Bytecode.pushGlobal, Bytecode.pop, Bytecode.popLocal, Bytecode.popArgument, Bytecode.popField]

/-- A round at a send goes on behind it and dispatches it. -/
theorem round_atSend (atSend : AtSend compilations state address frame super signature) :
    (round image).run state =
      (dispatch image (if super then Bytecode.superSend else Bytecode.send)
        frame.bytecodeIndex).run (state.put address frame.behindSend) := by
  obtain ⟨method, index, code, bytecode, -⟩ := atSend.sends
  rw [round, Process.bind_of_silent (getFrame_run atSend.running),
    Process.bind_of_silent (readFrame_run atSend.found), readMethod, code, Process.demand_some,
    Process.pure_bind, bytecode, Process.demand_some, Process.pure_bind]
  cases super with
  | false =>
      rw [if_neg Bool.false_ne_true]
      rw [show Bytecode.getBytecodeLength Bytecode.send = some 2 from rfl, Process.demand_some,
        Process.pure_bind, Process.bind_of_silent (changeFrame_run atSend.found _),
        if_neg (by decide)]
      rfl
  | true =>
      rw [if_pos rfl]
      rw [show Bytecode.getBytecodeLength Bytecode.superSend = some 2 from rfl,
        Process.demand_some, Process.pure_bind,
        Process.bind_of_silent (changeFrame_run atSend.found _), if_neg (by decide)]
      rfl

/-- The method and the selector of a send, read when it is executed. -/
theorem AtSend.executing (atSend : AtSend compilations state address frame super signature) :
    ∃ method,
      (getMethod compilations).run (state.put address frame.behindSend) =
        ⟨.ok method, state.put address frame.behindSend, []⟩ ∧
      (getSymbol method frame.bytecodeIndex).run (state.put address frame.behindSend) =
        ⟨.ok signature, state.put address frame.behindSend, []⟩ := by
  obtain ⟨method, index, code, -, operand, literal⟩ := atSend.sends
  have found := State.put_found atSend.found frame.behindSend
  have running : (state.put address frame.behindSend).frame = some address := atSend.running
  exact ⟨method, getMethod_run running found code, getSymbol_run operand literal⟩

/-- A super send, with the frame that its outermost context leads to. -/
theorem round_superSend (atSend : AtSend compilations state address frame true signature)
    {home : Nat} {ctxt : Frame Object}
    (outer : (getOuterContext address).run (state.put address frame.behindSend) =
      ⟨.ok home, state.put address frame.behindSend, []⟩)
    (there : (state.put address frame.behindSend).frames[home]? = some ctxt) :
    (round image).run state =
      ((image.lookupSuper (state.put address frame.behindSend) ctxt.method signature).elim
        (notUnderstood image false signature >>= invokeTarget image)
        fun invokable => invoke image invokable address).run
          (state.put address frame.behindSend) := by
  obtain ⟨method, isMethod, isSymbol⟩ := atSend.executing
  have running : (state.put address frame.behindSend).frame = some address := atSend.running
  rw [round_atSend atSend, if_pos rfl, dispatch_superSend, doSuperSend,
    Process.bind_of_silent isMethod, Process.bind_of_silent isSymbol,
    Process.bind_of_silent (getFrame_run running), Process.bind_of_silent outer,
    Process.bind_of_silent (readFrame_run there), Process.bind_of_silent (Process.run_read _),
    notUnderstood_then]
  cases image.lookupSuper (state.put address frame.behindSend) ctxt.method signature with
  | none => rfl
  | some invokable =>
      dsimp only [Option.elim]
      rw [Process.bind_of_silent (getFrame_run running)]

/-- A round that sends a message nothing is found for is the delivery of
`doesNotUnderstand:arguments:` and its invocation. -/
theorem round_notUnderstood (atSend : AtSend compilations state address frame super signature)
    (fails : LookupFails image (state.put address frame.behindSend) address signature super) :
    (round image).run state =
      (notUnderstood image (!super) signature >>= invokeTarget image).run
        (state.put address frame.behindSend) := by
  cases fails with
  | send element absent =>
      obtain ⟨method, isMethod, isSymbol⟩ := atSend.executing
      have running : (state.put address frame.behindSend).frame = some address := atSend.running
      rw [round_atSend atSend, if_neg Bool.false_ne_true, dispatch_send, doSend,
        Process.bind_of_silent isMethod, Process.bind_of_silent isSymbol,
        Process.bind_of_silent (getFrame_run running), Process.bind_of_silent element, send,
        Process.bind_of_silent (Process.run_read _), absent, notUnderstood_then]
      rfl
  | superSend outer there absent =>
      rw [round_superSend atSend outer there, absent]
      rfl

/-! ### The frame a message is delivered with -/

variable (image)

/-- The arguments of the message as an array. -/
def argumentsArray (signature : String) (state : State World Object) (frame : Frame Object) :
    World × Value Object :=
  image.newArray state.world (frame.top (Signature.getNumberOfArguments signature))

/-- The state in which the arguments have become an array. -/
def packed (signature : String) (state : State World Object) (address : Nat)
    (frame : Frame Object) : State World Object :=
  { state.put address (frame.popped (Signature.getNumberOfArguments signature)) with
    world := (argumentsArray image signature state frame).1 }

/-- The frame with three free slots: itself, or the larger copy `reserve` makes. -/
def roomyFrame (frame : Frame Object) : Frame Object :=
  { frame with
    slots := frame.slots ++
      List.replicate (3 - frame.remainingStackSize).toNat (.object image.nilObject) }

/-- The state behind `reserve`, and where its frame is. -/
def roomy (state : State World Object) (address : Nat) (frame : Frame Object) :
    State World Object × Nat :=
  if 3 - frame.remainingStackSize > 0 then
    ({ state with
      frames := state.frames ++ [roomyFrame image frame]
      frame := some state.frames.length }, state.frames.length)
  else (state, address)

/-- What the stack gets instead of the receiver and the arguments. -/
def dnuValues (signature : String) (state : State World Object) (frame : Frame Object) :
    List (Value Object) :=
  (frame.top (Signature.getNumberOfArguments signature)).take 1 ++
    [image.symbol signature, (argumentsArray image signature state frame).2]

/-- The state before these values are pushed, with its frame and where that is. -/
def ready (makesRoom : Bool) (signature : String) (state : State World Object) (address : Nat)
    (frame : Frame Object) : State World Object × Nat × Frame Object :=
  let poppedFrame := frame.popped (Signature.getNumberOfArguments signature)
  let packedState := packed image signature state address frame
  if makesRoom then
    ((roomy image packedState address poppedFrame).1,
      (roomy image packedState address poppedFrame).2, roomyFrame image poppedFrame)
  else (packedState, address, poppedFrame)

/-- The state in which `doesNotUnderstand:arguments:` is invoked. -/
def delivering (makesRoom : Bool) (signature : String) (state : State World Object)
    (address : Nat) (frame : Frame Object) : State World Object :=
  let (readyState, target, readyFrame) := ready image makesRoom signature state address frame
  readyState.put target ((dnuValues image signature state frame).foldl Frame.pushed readyFrame)

variable {image}

theorem numberOfArguments_pos (signature : String) :
    0 < Signature.getNumberOfArguments signature := by
  rw [Signature.getNumberOfArguments]
  split
  · exact Nat.succ_pos 1
  · exact Nat.succ_pos _

theorem packArguments_run (running : state.frame = some address)
    (found : state.frames[address]? = some frame)
    (has : frame.HasValues (Signature.getNumberOfArguments signature)) {receiver : Value Object}
    (first : (frame.top (Signature.getNumberOfArguments signature)).head? = some receiver) :
    (packArguments image signature).run state =
      ⟨.ok (receiver, (argumentsArray image signature state frame).2),
        packed image signature state address frame, []⟩ := by
  have holds := has.holds
  have positive := numberOfArguments_pos signature
  have sized := has.length_top
  have pops := popArguments_run found holds
  rw [sized] at pops
  have isFirst : frame.slots[(frame.below (Signature.getNumberOfArguments signature)).length]? =
      some receiver := by
    obtain ⟨rest, slots⟩ := holds.live
    rw [← slots, List.append_assoc, List.getElem?_append_right (Nat.le_refl _), Nat.sub_self]
    rw [List.head?_eq_getElem?] at first
    rw [List.getElem?_append_left (by omega), first]
  have element : (getStackElement address (Signature.getNumberOfArguments signature - 1)).run state =
      ⟨.ok receiver, state, []⟩ := by
    have pointer := holds.pointer
    rw [List.length_append, sized] at pointer
    rw [getStackElement, Process.bind_of_silent (readFrame_run found),
      show frame.stackPointer - ((Signature.getNumberOfArguments signature : Int) - 1) =
        ((frame.below (Signature.getNumberOfArguments signature)).length : Int) by omega]
    exact element_run found isFirst
  rw [packArguments, Process.bind_of_silent (getFrame_run running), Process.bind_of_silent element,
    Process.bind_of_silent pops, Process.bind_of_silent (Process.run_read _), setWorld,
    Process.bind_of_silent (Process.run_modify _ _)]
  rfl

theorem reserve_run (running : state.frame = some address)
    (found : state.frames[address]? = some frame) :
    (reserve image 3).run state = ⟨.ok (), (roomy image state address frame).1, []⟩ := by
  rw [reserve, Process.bind_of_silent (getFrame_run running),
    Process.bind_of_silent (readFrame_run found), roomy]
  dsimp only
  by_cases missing : 3 - frame.remainingStackSize > 0
  · rw [if_pos missing, if_pos missing, emergencyFrameFrom, Process.bind_assoc,
      Process.bind_of_silent (readFrame_run found), Process.bind_assoc,
      Process.bind_of_silent (Process.run_read _), Process.bind_assoc,
      Process.bind_of_silent (Process.run_modify _ _)]
    rfl
  · rw [if_neg missing, if_neg missing]
    rfl

/-- The frame behind `reserve` is the running one and has three free slots. -/
theorem roomy_spec (running : state.frame = some address)
    (found : state.frames[address]? = some frame) :
    (roomy image state address frame).1.frame = some (roomy image state address frame).2 ∧
      (roomy image state address frame).1.frames[(roomy image state address frame).2]? =
        some (roomyFrame image frame) := by
  rw [roomy]
  split
  · refine ⟨rfl, ?_⟩
    exact List.getElem?_concat_length
  · next enough =>
      have nothing : (3 - frame.remainingStackSize).toNat = 0 := by omega
      have same : roomyFrame image frame = frame := by
        rw [roomyFrame, nothing, List.replicate_zero, List.append_nil]
      rw [same]
      exact ⟨running, found⟩

theorem Frame.Holds.roomy {values : List (Value Object)} (holds : frame.Holds values) :
    (roomyFrame image frame).Holds values ∧
      values.length + 3 ≤ (roomyFrame image frame).slots.length := by
  have pointer := holds.pointer
  have live := holds.live.length_le
  refine ⟨⟨pointer, holds.live.trans (List.prefix_append _ _)⟩, ?_⟩
  rw [roomyFrame]
  dsimp only
  rw [List.length_append, List.length_replicate, Frame.remainingStackSize]
  omega

/-- Pushing three values and looking up the message. -/
theorem objectSendTarget_run (running : state.frame = some address)
    (found : state.frames[address]? = some frame) {below : List (Value Object)}
    (holds : frame.Holds below) (receiver : Value Object) (selector : String)
    (arguments : List (Value Object))
    (room : below.length + (receiver :: arguments).length ≤ frame.slots.length) :
    let final := state.put address ((receiver :: arguments).foldl Frame.pushed frame)
    (objectSendTarget image receiver selector arguments).run state =
      (Process.demand .undefined (image.lookupInvokable final receiver selector) >>=
        fun invokable => pure (invokable, address)).run final := by
  intro final
  have pushes : (push address receiver >>= fun _ => arguments.forM (push address)).run state =
      ⟨.ok (), final, []⟩ := pushes_run found holds room
  rw [objectSendTarget, Process.bind_of_silent (getFrame_run running), ← Process.bind_assoc,
    Process.bind_of_silent pushes, Process.bind_of_silent (Process.run_read _)]

theorem objectSendTarget_outside (running : state.frame = some address)
    (found : state.frames[address]? = some frame) {below : List (Value Object)}
    (holds : frame.Holds below) (receiver : Value Object) (selector : String)
    (arguments : List (Value Object))
    (full : frame.slots.length < below.length + (receiver :: arguments).length) :
    ((objectSendTarget image receiver selector arguments).run state).result = .error .exit := by
  have pushes : ((push address receiver >>= fun _ => arguments.forM (push address)).run
      state).result = .error .exit := pushes_outside found holds full
  rw [objectSendTarget, Process.bind_of_silent (getFrame_run running), ← Process.bind_assoc]
  cases outcome : (push address receiver >>= fun _ => arguments.forM (push address)).run state with
  | mk result after events =>
      rw [outcome] at pushes
      obtain rfl : result = .error .exit := pushes
      rw [Process.bind_of_error outcome]

/-! ### When the message is delivered -/

variable (image)

/-- In the final state the target is invoked with the running frame. Its stack has the
receiver, the selector and an array of the popped values in place of these
values; the other frames are as they were. -/
structure Delivered (signature : String) (state : State World Object) (address : Nat)
    (frame : Frame Object) (invokable : Invokable compilations World Object) (target : Nat)
    (final : State World Object) : Prop where
  popped : frame.HasValues (Signature.getNumberOfArguments signature)
  running : final.frame = some target
  entered : ∃ entered receiver, final.frames[target]? = some entered ∧
    (frame.top (Signature.getNumberOfArguments signature)).head? = some receiver ∧
    entered.Holds (frame.below (Signature.getNumberOfArguments signature) ++
      [receiver, image.symbol signature, (argumentsArray image signature state frame).2]) ∧
    image.lookupInvokable final receiver "doesNotUnderstand:arguments:" = some invokable
  world : final.world = (argumentsArray image signature state frame).1
  others : ∀ other < state.frames.length, other ≠ address →
    final.frames[other]? = state.frames[other]?

/-- The frame has the receiver and the arguments, a `SUPER_SEND` finds three slots
free once they are popped, and the receiver understands
`doesNotUnderstand:arguments:`. -/
structure Deliverable (super : Bool) (signature : String) (state : State World Object)
    (address : Nat) (frame : Frame Object) : Prop where
  values : frame.HasValues (Signature.getNumberOfArguments signature)
  room : super = true →
    3 ≤ frame.remainingStackSize + Signature.getNumberOfArguments signature
  understands : ∀ receiver ∈ (frame.top (Signature.getNumberOfArguments signature)).head?,
    (image.lookupInvokable (delivering image (!super) signature state address frame) receiver
      "doesNotUnderstand:arguments:").isSome = true

variable {image}

theorem put_others {other : Nat} (different : other ≠ address) (changed : Frame Object) :
    (state.put address changed).frames[other]? = state.frames[other]? :=
  List.getElem?_set_ne different.symm

theorem roomy_others {other : Nat} (below : other < state.frames.length) :
    (roomy image state address frame).1.frames[other]? = state.frames[other]? ∧
      ((roomy image state address frame).2 = address ∨
        (roomy image state address frame).2 ≠ other) := by
  rw [roomy]
  split
  · exact ⟨List.getElem?_append_left below, Or.inr (Nat.ne_of_gt below)⟩
  · exact ⟨rfl, Or.inl rfl⟩

theorem ready_spec (running : state.frame = some address)
    (found : state.frames[address]? = some frame) (makesRoom : Bool) :
    let here := ready image makesRoom signature state address frame
    here.1.frame = some here.2.1 ∧ here.1.frames[here.2.1]? = some here.2.2 ∧
      here.1.world = (argumentsArray image signature state frame).1 ∧
      ∀ other < state.frames.length, other ≠ address → here.2.1 ≠ other ∧
        here.1.frames[other]? = state.frames[other]? := by
  have found := State.put_found found (frame.popped (Signature.getNumberOfArguments signature))
  have running : (packed image signature state address frame).frame = some address := running
  have sameLength : (packed image signature state address frame).frames.length =
      state.frames.length := List.length_set
  cases makesRoom with
  | false =>
      exact ⟨running, found, rfl, fun other _ different => ⟨different.symm, put_others different _⟩⟩
  | true =>
      obtain ⟨stillRunning, there⟩ := @roomy_spec _ _ _ image _ _ _ running found
      refine ⟨stillRunning, there, ?_, fun other below different => ?_⟩
      · show (roomy image _ _ _).1.world = _
        rw [roomy]
        split <;> rfl
      · obtain ⟨same, elsewhere⟩ := @roomy_others _ _ _ image _ address
          (frame.popped (Signature.getNumberOfArguments signature)) _
          (Nat.lt_of_lt_of_eq below sameLength.symm)
        refine ⟨?_, same.trans (put_others different _)⟩
        rcases elsewhere with here | elsewhere
        · exact fun there => different (there.symm.trans here)
        · exact elsewhere

/-- Once the receiver and the arguments are an array, what is left is a send in the
ready state. -/
theorem notUnderstood_run (running : state.frame = some address)
    (found : state.frames[address]? = some frame)
    (has : frame.HasValues (Signature.getNumberOfArguments signature)) {receiver : Value Object}
    (first : (frame.top (Signature.getNumberOfArguments signature)).head? = some receiver)
    (makesRoom : Bool) :
    (notUnderstood image makesRoom signature).run state =
      (objectSendTarget image receiver "doesNotUnderstand:arguments:"
        [image.symbol signature, (argumentsArray image signature state frame).2]).run
          (ready image makesRoom signature state address frame).1 := by
  have found' := State.put_found found (frame.popped (Signature.getNumberOfArguments signature))
  have running' : (packed image signature state address frame).frame = some address := running
  rw [notUnderstood, Process.bind_of_silent (packArguments_run running found has first)]
  cases makesRoom with
  | false => rfl
  | true =>
      dsimp only
      rw [if_pos rfl, Process.bind_of_silent (reserve_run running' found')]
      rfl

/-- The ready frame has lost the receiver and the arguments, and has three slots
free if the code made room or they were free already. -/
theorem ready_holds (has : frame.HasValues (Signature.getNumberOfArguments signature)) :
    (ready image (!super) signature state address frame).2.2.Holds
        (frame.below (Signature.getNumberOfArguments signature)) ∧
      ((frame.below (Signature.getNumberOfArguments signature)).length + 3 ≤
          (ready image (!super) signature state address frame).2.2.slots.length ↔
        (super = true →
          3 ≤ frame.remainingStackSize + Signature.getNumberOfArguments signature)) := by
  have left := has.holds.popped
  rw [has.length_top] at left
  cases super with
  | false =>
      obtain ⟨holds, room⟩ := @Frame.Holds.roomy _ _ _ image _ _ left
      exact ⟨holds, fun _ sends => Bool.noConfusion sends, fun _ => room⟩
  | true =>
      have pointer := left.pointer
      rw [Frame.popped] at pointer
      dsimp only at pointer
      refine ⟨left, ?_⟩
      show (frame.below _).length + 3 ≤ frame.slots.length ↔ _
      rw [Frame.remainingStackSize]
      constructor
      · intro room _
        omega
      · intro room
        have enough := room rfl
        omega

/-- A message that is not understood is delivered exactly where it is deliverable. -/
theorem delivered_iff (running : state.frame = some address)
    (found : state.frames[address]? = some frame) :
    (∃ invokable target final, (notUnderstood image (!super) signature).run state =
        ⟨.ok (invokable, target), final, []⟩ ∧
          Delivered image signature state address frame invokable target final) ↔
      Deliverable image super signature state address frame := by
  by_cases has : frame.HasValues (Signature.getNumberOfArguments signature)
  case neg =>
    constructor
    · rintro ⟨invokable, target, final, -, delivered⟩
      exact absurd delivered.popped has
    · exact fun deliverable => absurd deliverable.values has
  obtain ⟨receiver, first⟩ : ∃ receiver,
      (frame.top (Signature.getNumberOfArguments signature)).head? = some receiver := by
    have positive := numberOfArguments_pos signature
    rw [← has.length_top] at positive
    exact ⟨_, List.head?_eq_some_head (List.ne_nil_of_length_pos positive)⟩
  obtain ⟨stillRunning, there, world, others⟩ :=
    @ready_spec _ _ _ image _ _ _ signature running found (!super)
  obtain ⟨holds, room⟩ := @ready_holds _ _ _ image state address frame super signature has
  have run := @notUnderstood_run _ _ _ image _ _ _ _ running found has _ first (!super)
  have values : dnuValues image signature state frame =
      [receiver, image.symbol signature, (argumentsArray image signature state frame).2] := by
    rw [dnuValues]
    cases top : frame.top (Signature.getNumberOfArguments signature) with
    | nil =>
        rw [top] at first
        exact absurd first (by simp)
    | cons value rest =>
        rw [top] at first
        obtain rfl := Option.some.inj first
        rfl
  by_cases free : super = true →
      3 ≤ frame.remainingStackSize + Signature.getNumberOfArguments signature
  case neg =>
    have outside := @objectSendTarget_outside _ _ _ image _ _ _ stillRunning there _ holds receiver
      "doesNotUnderstand:arguments:"
      [image.symbol signature, (argumentsArray image signature state frame).2]
      (Nat.lt_of_not_le fun enough => free (room.mp enough))
    constructor
    · rintro ⟨invokable, target, final, ran, -⟩
      rw [← run, ran] at outside
      exact absurd outside (by simp)
    · exact fun deliverable => absurd deliverable.room free
  have pushed := @objectSendTarget_run _ _ _ image _ _ _ stillRunning there _ holds receiver
    "doesNotUnderstand:arguments:"
    [image.symbol signature, (argumentsArray image signature state frame).2] (room.mpr free)
  have isFinal : (ready image (!super) signature state address frame).1.put
      (ready image (!super) signature state address frame).2.1
        ([receiver, image.symbol signature, (argumentsArray image signature state frame).2].foldl
          Frame.pushed (ready image (!super) signature state address frame).2.2) =
      delivering image (!super) signature state address frame := by
    rw [← values]
    rfl
  rw [← run, isFinal] at pushed
  dsimp only at pushed
  cases lookup : image.lookupInvokable (delivering image (!super) signature state address frame)
      receiver "doesNotUnderstand:arguments:" with
  | none =>
      rw [lookup, Process.demand_none, Process.bind_of_error (Process.run_stop _ _)] at pushed
      constructor
      · rintro ⟨invokable, target, final, ran, -⟩
        rw [pushed] at ran
        exact absurd ran (by simp)
      · intro deliverable
        have understood := deliverable.understands receiver first
        rw [lookup] at understood
        exact Bool.noConfusion understood
  | some invokable =>
      rw [lookup, Process.demand_some, Process.pure_bind, Process.run_pure] at pushed
      constructor
      · intro _
        refine ⟨has, free, fun other isFirst => ?_⟩
        obtain rfl := Option.some.inj (first.symm.trans isFirst)
        rw [lookup]
        rfl
      · intro _
        refine ⟨invokable, _, _, pushed, has, stillRunning, ?_, world, ?_⟩
        · refine ⟨_, receiver, ?_, first, holds.pushedAll (room.mpr free), lookup⟩
          rw [← isFinal]
          exact State.put_found there _
        · intro other below different
          obtain ⟨elsewhere, same⟩ := others other below different
          rw [← isFinal, put_others elsewhere.symm]
          exact same

/-- A round that sends a message nothing is found for delivers it and then invokes
what the receiver answers to `doesNotUnderstand:arguments:`, exactly where it is
deliverable. Only a `SUPER_SEND` has to find the room for it in the frame. -/
theorem not_understood_delivered_iff
    (atSend : AtSend compilations state address frame super signature)
    (fails : LookupFails image (state.put address frame.behindSend) address signature super) :
    let executing := state.put address frame.behindSend
    (round image).run state =
        (notUnderstood image (!super) signature >>= invokeTarget image).run executing ∧
      ((∃ invokable target final, (notUnderstood image (!super) signature).run executing =
          ⟨.ok (invokable, target), final, []⟩ ∧
            Delivered image signature executing address frame.behindSend invokable target final) ↔
        Deliverable image super signature executing address frame.behindSend) :=
  ⟨round_notUnderstood atSend fails,
    delivered_iff atSend.running (State.put_found atSend.found _)⟩

end

/-! ### A super send in a frame without room -/

theorem lexical_foo : Signature.isBinary "foo" = false ∧ "foo".toList.count ':' = 0 := by
  decide

theorem lexical_className :
    Signature.isBinary "Foo" = false ∧ "Foo".toList.count ':' = 0 := by
  decide

/-- A class `Foo` with one method `run: it`. -/
def statementClass (body : Body) : ClassDefinition where
  name := ⟨"Foo", lexical_className⟩
  superName := none
  instanceSide := ⟨none, [.code
    (.keyword (⟨"run:", by decide⟩, ⟨⟨.identifier, "it"⟩, Or.inl rfl⟩) []) none body], by
    intro _ method member
    obtain rfl := Option.mem_some.mp member
    exact fun same => nomatch same⟩
  classSide := none

/-- `super foo`, or `self foo`. -/
def fooBody (receiver : Identifier) : Body :=
  .last (.mk [] (.name receiver) [⟨"foo", lexical_foo⟩] .done .done)

def superBody : Body := fooBody ⟨"super", Identifier.lexical_super⟩

def sendBody : Body := fooBody ⟨"self", Identifier.lexical_self⟩

def statementCompilations (body : Body) : List Compilation :=
  [⟨(statementClass body).generate.objects, (statementClass body).generate.classContext⟩]

/-- Every object answers `run:` and `doesNotUnderstand:arguments:` with the method and
no other message. -/
def statementImage (body : Body) (installed : InstalledMethod (statementCompilations body)) :
    Image (statementCompilations body) Unit String where
  nilObject := "nil"
  system := "system"
  stackDepth := 1
  constant _ _ := .object "constant"
  symbol text := .object text
  lookupInvokable _ _ selector :=
    if selector = "run:" ∨ selector = "doesNotUnderstand:arguments:" then some (.method installed)
    else none
  lookupSuper _ _ _ := none
  getField _ _ _ := none
  setField world _ _ _ := some world
  getGlobal _ _ := none
  setGlobal world _ _ := world
  newArray world _ := (world, .object "array")
  setBlockClass state _ _ := some state.world

def superImage : Image (statementCompilations superBody) Unit String :=
  statementImage superBody ⟨0, 0, _, rfl, Or.inl (by decide)⟩

def sendImage : Image (statementCompilations sendBody) Unit String :=
  statementImage sendBody ⟨0, 0, _, rfl, Or.inl (by decide)⟩

/-- The state in which the statement's receiver has been pushed. -/
def statementState {compilations : List Compilation} (image : Image compilations Unit String) :
    State Unit String :=
  ((round image).run ((shellStatement image (.object "foo") (.object "nil")).run
    ((pushNewFrame image .bootstrap).run { world := () }).state).state).state

theorem superState_reachable : Reachable superImage () (statementState superImage) :=
  .round (.statement _ _ (.shell 0 (by decide +kernel)) (by decide +kernel)) (by decide +kernel)

/-- The frame of the statement, at its send. -/
def statementFrame {compilations : List Compilation} (image : Image compilations Unit String)
    (running : (statementState image).frames[1]?.isSome = true) : Frame String :=
  (statementState image).frames[1]?.get running

def superFrame : Frame String := statementFrame superImage (by decide +kernel)

def sendFrame : Frame String := statementFrame sendImage (by decide +kernel)

theorem superState_atSend :
    AtSend (statementCompilations superBody) (statementState superImage) 1 superFrame true
      "foo" where
  running := by decide +kernel
  found := by decide +kernel
  sends := by
    refine ⟨_, 0, Option.some_get (by decide +kernel) |>.symm, ?_⟩
    decide +kernel

theorem sendState_atSend :
    AtSend (statementCompilations sendBody) (statementState sendImage) 1 sendFrame false
      "foo" where
  running := by decide +kernel
  found := by decide +kernel
  sends := by
    refine ⟨_, 0, Option.some_get (by decide +kernel) |>.symm, ?_⟩
    decide +kernel

/-- `self foo` is delivered: the frame of the statement is replaced by a larger one. -/
theorem self_foo_delivered :
    let executing := (statementState sendImage).put 1 sendFrame.behindSend
    (round sendImage).run (statementState sendImage) =
        (notUnderstood sendImage true "foo" >>= invokeTarget sendImage).run executing ∧
      ∃ invokable target final, (notUnderstood sendImage true "foo").run executing =
          ⟨.ok (invokable, target), final, []⟩ ∧
        Delivered sendImage "foo" executing 1 sendFrame.behindSend invokable target final := by
  have fails : LookupFails sendImage ((statementState sendImage).put 1 sendFrame.behindSend) 1
      "foo" false := by
    have element : (getStackElement 1 (Signature.getNumberOfArguments "foo" - 1)).run
        ((statementState sendImage).put 1 sendFrame.behindSend) =
          ⟨.ok (.object "foo"), (statementState sendImage).put 1 sendFrame.behindSend, []⟩ := by
      decide +kernel
    exact .send element rfl
  obtain ⟨rounds, delivered⟩ := not_understood_delivered_iff sendState_atSend fails
  have values : sendFrame.behindSend.HasValues (Signature.getNumberOfArguments "foo") :=
    ⟨by decide +kernel, by decide +kernel⟩
  exact ⟨rounds, delivered.mpr ⟨values, Bool.noConfusion, fun _ _ => rfl⟩⟩

/-- `super foo` is not delivered: the second value pushed is outside the frame. -/
theorem super_foo_not_delivered : ¬ ∀ (compilations : List Compilation) (World Object : Type)
    (image : Image compilations World Object) (world : World) (state : State World Object),
    Reachable image world state → ∀ (super : Bool) (signature : String) (address : Nat)
      (frame : Frame Object), AtSend compilations state address frame super signature →
      LookupFails image (state.put address frame.behindSend) address signature super →
      ∃ invokable target final,
        (notUnderstood image (!super) signature).run (state.put address frame.behindSend) =
          ⟨.ok (invokable, target), final, []⟩ ∧
        Delivered image signature (state.put address frame.behindSend) address frame.behindSend
          invokable target final := by
  intro always
  have fails : LookupFails superImage ((statementState superImage).put 1 superFrame.behindSend) 1
      "foo" true := by
    have outer : (getOuterContext 1).run
        ((statementState superImage).put 1 superFrame.behindSend) =
          ⟨.ok 1, (statementState superImage).put 1 superFrame.behindSend, []⟩ := by
      decide +kernel
    have there : ((statementState superImage).put 1 superFrame.behindSend).frames[1]? =
        some superFrame.behindSend := by
      decide +kernel
    exact .superSend outer there rfl
  obtain ⟨invokable, target, final, ran, -⟩ := always _ _ _ superImage () _ superState_reachable
    true "foo" 1 superFrame superState_atSend fails
  have stopped : ((notUnderstood superImage false "foo").run
      ((statementState superImage).put 1 superFrame.behindSend)).result.toBool = false := by
    decide +kernel
  rw [show (!true) = false from rfl] at ran
  rw [ran] at stopped
  exact Bool.noConfusion stopped

end Somr.Interpreter
