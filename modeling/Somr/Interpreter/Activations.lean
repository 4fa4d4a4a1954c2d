import Somr.Interpreter.Realization

/-!
Owns what happens between the rounds of two activations: a method or block is
entered with the topmost values of its sender, it is left with an answer, and a
block escapes to its home over everything that has been called since.
-/

namespace Somr.Interpreter

open Foundation Compiler

section

variable {compilations : List Compilation} {World Object : Type}
  {image : Image compilations World Object} {state : State World Object}
  {store : Store World Object} {entry sender : Pending Object} {rest : List (Pending Object)}
  {activation : Activation Object} {frame : Frame Object}

/-! ### Entering -/

/-- The entry of a method or block that has just been entered. -/
def Pending.begun (address : Nat) (method : CompiledMethod) : Pending Object where
  address := address
  method := method
  bytecodeIndex := 0
  stack := []

variable (image) in
/-- `PushNewFrame` and `CopyArgumentsFrom`, for a method, or for a block with its
context. -/
def enterFrame (method : MethodAddress) (context : Option Nat) (frame : Nat) :
    InterpreterM World Object Unit := do
  let callee ← pushNewFrame image method
  copyArgumentsFrom compilations callee frame
  match context with
  | none => pure ()
  | some context => changeFrame callee fun frame => { frame with context := some context }

variable (image) in
theorem invokeMethod_eq (method : MethodAddress) (frame : Nat) :
    invokeMethod image method frame = enterFrame image method none frame := by
  rw [invokeMethod, enterFrame]
  exact bind_congr fun callee => (Process.bind_pure _).symm

variable (image) in
/-- The frame that `NewFrame` makes. -/
def newFrameOf (previousFrame : Option Nat) (method : MethodAddress) (code : CompiledMethod)
    (bound : UInt8) : Frame Object :=
  Frame.resetStackPointer code {
    previousFrame := previousFrame
    method := method
    stackPointer := 0
    bytecodeIndex := 0
    localOffset := 0
    slots := List.replicate (numberOfArguments code + code.numberOfLocals + bound.toNat)
      (.object image.nilObject) }

theorem pushNewFrame_newFrameOf {method : MethodAddress} {code : CompiledMethod} {bound : UInt8}
    (isCode : methodAt compilations method = some code)
    (isBound : code.maximumNumberOfStackElements = some bound) :
    (pushNewFrame image method).run state =
      ⟨.ok state.frames.length, state.enter (newFrameOf image state.frame method code bound)
        (image.setGlobal state.world "Frame" (.frame state.frames.length)), []⟩ := by
  have created : (newFrame image state.frame method).run state = ⟨.ok state.frames.length,
      { state with
        frames := state.frames ++ [newFrameOf image state.frame method code bound]
        world := image.setGlobal state.world "Frame" (.frame state.frames.length) }, []⟩ := by
    rw [newFrame, readMethod, isCode, Process.demand_some, Process.pure_bind, isBound,
      Process.demand_some, Process.pure_bind]
    rfl
  rw [pushNewFrame, Process.bind_of_silent (Process.run_read _), Process.bind_of_silent created]
  rfl

/-- An activation as it is entered. -/
def Activation.entered (domain : Domain World Object) (caller : Nat) (method : MethodAddress)
    (code : CompiledMethod) (context : Option Nat) (arguments : List (Value Object)) :
    Activation Object where
  caller := some caller
  context := context
  method := method
  arguments := arguments
  locals := List.replicate code.numberOfLocals (.object domain.nilObject)

variable {domain : Domain World Object} {method : MethodAddress} {code : CompiledMethod}
  {bound : UInt8} {context : Option Nat} {arguments below : List (Value Object)}

variable (method bound context) in
/-- The frame with the arguments copied keeps the activation that is entered. -/
theorem keeps_entered (sameNil : image.nilObject = domain.nilObject)
    (counts : numberOfArguments code = arguments.length) (caller : Nat) :
    ({ (newFrameOf image (some caller) method code bound).copied arguments arguments.length with
      context := context } : Frame Object).Keeps
        (Activation.entered domain caller method code context arguments) := by
  refine ⟨rfl, rfl, rfl, counts, List.replicate bound.toNat (.object domain.nilObject), ?_⟩
  rw [Frame.copied, newFrameOf, Frame.resetStackPointer, Activation.variables, Activation.entered]
  dsimp only
  rw [List.take_length, List.drop_replicate, List.append_assoc, List.replicate_append_replicate,
    counts, sameNil, Nat.add_assoc, Nat.add_sub_cancel_left]

variable (bound context) in
theorem standsAt_entered (sameNil : image.nilObject = domain.nilObject)
    (isCode : methodAt compilations method = some code)
    (isBound : code.maximumNumberOfStackElements = some bound)
    (counts : numberOfArguments code = arguments.length) (caller address : Nat) :
    StandsAt compilations
      { (newFrameOf image (some caller) method code bound).copied arguments arguments.length with
        context := context }
      (Activation.entered domain caller method code context arguments)
      (Pending.begun address code) := by
  have keeps := keeps_entered method bound context sameNil counts caller
  refine ⟨isCode, counts.symm, List.length_replicate, rfl, ⟨?_, ?_⟩, bound, isBound, ?_⟩
  · simp [newFrameOf, Frame.resetStackPointer, Frame.copied, Pending.begun, Activation.variables,
      Activation.entered, counts]
  · rw [Pending.begun, List.reverse_nil, List.append_nil]
    exact keeps.slots
  · simp [newFrameOf, Frame.resetStackPointer, Frame.copied, Activation.variables,
      Activation.entered, counts]
    omega

/-- A frame and the activation that it keeps are added behind the others. -/
theorem Corresponds.enter {pending : List (Pending Object)}
    (corresponds : Corresponds compilations state store pending) {changed : Frame Object}
    {callee : Activation Object} {begun : Pending Object} (world : World)
    (keeps : changed.Keeps callee) (isLast : begun.address = store.activations.length)
    (stands : StandsAt compilations changed callee begun) :
    Corresponds compilations (state.enter changed world)
      { store with activations := store.activations ++ [callee], world := world }
      (begun :: pending) := by
  have length := corresponds.length
  refine ⟨?_, fun address frame activation found there => ?_, fun other member => ?_,
    corresponds.blocks, rfl⟩
  · rw [State.enter, List.length_append, List.length_append, length]
    rfl
  · rw [State.enter] at found
    by_cases inside : address < store.activations.length
    · rw [List.getElem?_append_left (length ▸ inside)] at found
      rw [List.getElem?_append_left inside] at there
      exact corresponds.keeps _ _ _ found there
    · obtain ⟨below, -⟩ := List.getElem?_eq_some_iff.mp there
      rw [List.length_append, List.length_singleton] at below
      obtain rfl : address = store.activations.length := by omega
      rw [← length, List.getElem?_concat_length] at found
      rw [List.getElem?_concat_length] at there
      obtain rfl := Option.some.inj found
      obtain rfl := Option.some.inj there
      exact keeps
  · rcases List.mem_cons.mp member with rfl | member
    · refine ⟨changed, callee, ?_, ?_, stands⟩
      · rw [State.enter, isLast, ← length, List.getElem?_concat_length]
      · rw [isLast, List.getElem?_concat_length]
    · obtain ⟨frame, activation, found, there, standing⟩ := corresponds.stands other member
      obtain ⟨insideFrames, -⟩ := List.getElem?_eq_some_iff.mp found
      obtain ⟨inside, -⟩ := List.getElem?_eq_some_iff.mp there
      exact ⟨frame, activation, (List.getElem?_append_left insideFrames).trans found,
        (List.getElem?_append_left inside).trans there, standing⟩

theorem Realizes.inside {pending : List (Pending Object)}
    (realizes : Realizes compilations state store pending) {other : Pending Object}
    (member : other ∈ pending) : other.address < store.activations.length := by
  obtain ⟨frame, activation, -, there, -⟩ := realizes.stands other member
  exact (List.getElem?_eq_some_iff.mp there).1

/-- The store in which a method or block has been entered. -/
def Store.entered (domain : Domain World Object) (store : Store World Object)
    (callee : Activation Object) : Store World Object :=
  { store with
    activations := store.activations ++ [callee]
    world := domain.setGlobal store.world "Frame" (.frame store.activations.length) }

variable (context) in
/-- A method or block is entered from the running frame, with the values on top of its
stack. -/
theorem Realizes.enters (sameNil : image.nilObject = domain.nilObject)
    (sameGlobals : image.setGlobal = domain.setGlobal)
    (realizes : Realizes compilations state store (entry :: rest))
    (stacked : entry.stack = arguments.reverse ++ below)
    (isCode : methodAt compilations method = some code)
    (isBound : code.maximumNumberOfStackElements = some bound)
    (counts : numberOfArguments code = arguments.length) :
    ∃ next, (enterFrame image method context entry.address).run state = ⟨.ok (), next, []⟩ ∧
      Realizes compilations next (store.entered domain
        (.entered domain entry.address method code context arguments))
        (.begun store.activations.length code :: entry :: rest) := by
  obtain ⟨caller, activation, standing⟩ := realizes.head
  have length := realizes.length
  let world := domain.setGlobal store.world "Frame" (.frame store.activations.length)
  let callee := newFrameOf image (some entry.address) method code bound
  let copied := callee.copied arguments arguments.length
  let changed : Frame Object := { copied with context := context }
  have keeps : changed.Keeps (.entered domain entry.address method code context arguments) :=
    keeps_entered method bound context sameNil counts entry.address
  have stands := standsAt_entered bound context sameNil isCode isBound counts entry.address store.activations.length
  refine ⟨state.enter changed world, ?_, ?_, congrArg some length, ?_, ?_⟩
  · have pushed : (pushNewFrame image method).run state =
        ⟨.ok store.activations.length, state.enter callee world, []⟩ := by
      rw [pushNewFrame_newFrameOf isCode isBound, realizes.isRunning, length, sameGlobals,
        realizes.world]
    have isCallee := State.enter_found state callee world
    have found : (state.enter callee world).frames[entry.address]? = some caller := by
      obtain ⟨inside, -⟩ := List.getElem?_eq_some_iff.mp standing.found
      exact (List.getElem?_append_left inside).trans standing.found
    have holds : caller.Holds ((activation.variables ++ below.reverse) ++ arguments) := by
      have holds := standing.stands.holds
      rw [stacked, List.reverse_append, List.reverse_reverse, ← List.append_assoc] at holds
      exact holds
    have room : arguments.length ≤ callee.slots.length := by
      rw [← counts, show callee.slots.length = numberOfArguments code + code.numberOfLocals +
        bound.toNat from List.length_replicate]
      omega
    have different : state.frames.length ≠ entry.address :=
      Nat.ne_of_gt (length ▸ standing.inside)
    have copies := copyArguments_run different found holds isCallee room arguments.length 0
      (Nat.zero_add _)
    have unchanged : callee.copied arguments 0 = callee := rfl
    rw [unchanged, State.put_same isCallee, State.enter_put, ← List.range_eq_range'] at copies
    rw [enterFrame, Process.bind_of_silent pushed, ← length]
    have copiesArguments : (copyArgumentsFrom compilations state.frames.length entry.address).run
        (state.enter callee world) = ⟨.ok (), state.enter copied world, []⟩ := by
      rw [copyArgumentsFrom, Process.bind_of_silent (readFrame_run isCallee), readMethod,
        show methodAt compilations callee.method = some code from isCode, Process.demand_some,
        Process.pure_bind, counts]
      exact copies
    rw [Process.bind_of_silent copiesArguments]
    cases context with
    | none => rfl
    | some context =>
        dsimp only
        rw [changeFrame_run (State.enter_found state copied world), State.enter_put]
  · exact realizes.toCorresponds.enter world keeps rfl stands
  · refine .call (List.getElem?_concat_length) rfl ?_ (realizes.calls.congr fun other member => ?_)
    · rw [stacked, List.length_append, List.length_reverse]
      exact Nat.le_trans (Nat.le_of_eq counts) (Nat.le_add_right _ _)
    · rw [Store.entered, List.getElem?_append_left (realizes.inside member)]
  · rw [List.map_cons, List.nodup_cons]
    refine ⟨fun member => ?_, realizes.distinct⟩
    obtain ⟨other, isMember, same⟩ := List.mem_map.mp member
    exact absurd same (Nat.ne_of_lt (realizes.inside isMember))

/-! ### Leaving -/

/-- The store in which the activation at an address has been left. -/
def Store.leaving (store : Store World Object) (address : Nat) (activation : Activation Object) :
    Store World Object :=
  { store with activations := store.activations.set address activation.left }

theorem leave_run {address : Nat} (there : store.activations[address]? = some activation) :
    (leave address).run store = ⟨.ok (), store.leaving address activation, []⟩ :=
  changeActivation_run there Activation.left

/-- The running activation may be left: what is pending below it stands where it goes
on, whatever is left on its own stack. -/
structure Departing (compilations : List Compilation) (state : State World Object)
    (store : Store World Object) (entry : Pending Object) (pending : List (Pending Object)) : Prop
    extends Corresponds compilations state store pending where
  running : state.frame = some entry.address
  isMethod : ∀ activation, store.activations[entry.address]? = some activation →
    methodAt compilations activation.method = some entry.method
  calls : Calls store (entry :: pending)
  distinct : ((entry :: pending).map Pending.address).Nodup

theorem Realizes.ending (realizes : Realizes compilations state store (entry :: rest)) :
    Departing compilations state store entry rest := by
  refine ⟨⟨realizes.length, realizes.keeps, fun other member => ?_, realizes.blocks,
    realizes.world⟩, realizes.isRunning, fun activation there => ?_, realizes.calls,
    realizes.distinct⟩
  · exact realizes.stands other (List.mem_cons_of_mem _ member)
  · obtain ⟨frame, activation', standing⟩ := realizes.head
    obtain rfl := Option.some.inj (there.symm.trans standing.there)
    exact standing.stands.isMethod

/-- The running frame is popped. -/
theorem Departing.popFrame (ending : Departing compilations state store entry (sender :: rest))
    (there : store.activations[entry.address]? = some activation) :
    ∃ next, Interpreter.popFrame.run state = ⟨.ok entry.address, next, []⟩ ∧
      Realizes compilations next (store.leaving entry.address activation) (sender :: rest) := by
  obtain ⟨frame, found, keeps⟩ := ending.ofActivation there
  obtain ⟨inside, -⟩ := List.getElem?_eq_some_iff.mp there
  have called : activation.caller = some sender.address ∧ Calls store (sender :: rest) := by
    cases ending.calls with
    | call isThere called enough more =>
        obtain rfl := Option.some.inj (there.symm.trans isThere)
        exact ⟨called, more⟩
  let left : Frame Object := { frame with previousFrame := none }
  have isPrevious : frame.previousFrame = some sender.address :=
    keeps.previousFrame.trans called.1
  have others : ∀ other ∈ sender :: rest, other.address ≠ entry.address :=
    fun other member same => (List.nodup_cons.mp ending.distinct).1
      (same ▸ List.mem_map_of_mem member)
  refine ⟨{ state.put entry.address left with frame := some sender.address }, ?_, ?_, rfl, ?_, ?_⟩
  · have foundThere : ({ state with frame := some sender.address } :
        State World Object).frames[entry.address]? = some frame := found
    rw [Interpreter.popFrame, Process.bind_of_silent (getFrame_run ending.running),
      Process.bind_of_silent (readFrame_run found), setFrame, isPrevious,
      Process.bind_of_silent (Process.run_modify _ _),
      Process.bind_of_silent (changeFrame_run foundThere _)]
    rfl
  · have corresponds : Corresponds compilations (state.put entry.address left)
        (store.leaving entry.address activation) (sender :: rest) :=
      ending.toCorresponds.set
        ⟨rfl, keeps.context, keeps.method, keeps.localOffset, keeps.slots⟩ inside
        (fun other member same => absurd same (others other member))
        (fun other member _ => member)
    exact { corresponds with }
  · refine called.2.congr fun other member => ?_
    rw [Store.leaving, List.getElem?_set_ne (others other member).symm]
  · exact (List.nodup_cons.mp ending.distinct).2

/-- The loop of `popFrameAndPushResult` over the arguments. -/
theorem Realizes.popEach (items : List Nat) : ∀ {state : State World Object}
    {entry : Pending Object}, Realizes compilations state store (entry :: rest) →
      items.length ≤ entry.stack.length →
      ∃ next, (items.forM fun _ => do
          let _ ← Interpreter.pop (← getFrame) : InterpreterM World Object Unit).run state =
          ⟨.ok (), next, []⟩ ∧
        Realizes compilations next store
          (entry.holding (entry.stack.drop items.length) :: rest) ∧
        (items ≠ [] → HasFreeSlot compilations next store
          (entry.holding (entry.stack.drop items.length))) := by
  induction items with
  | nil => exact fun realizes _ => ⟨_, rfl, realizes, fun filled => absurd rfl filled⟩
  | cons item items inductionHypothesis =>
      intro state entry realizes enough
      match top : entry.stack with
      | [] =>
          rw [top] at enough
          exact absurd enough (Nat.not_succ_le_zero _)
      | value :: stack =>
          rw [top] at enough
          obtain ⟨later, popped, realizesLater, free⟩ := realizes.pop top
          obtain ⟨next, ran, realizesNext, freeNext⟩ :=
            inductionHypothesis realizesLater (Nat.le_of_succ_le_succ enough)
          refine ⟨next, ?_, realizesNext, fun _ => ?_⟩
          · change ((do let _ ← Interpreter.pop (← getFrame) : InterpreterM World Object Unit) >>=
              fun _ => items.forM fun _ => do let _ ← Interpreter.pop (← getFrame)).run state = _
            rw [Process.bind_of_silent (getFrame_pop_run realizes.isRunning popped), ran]
          · cases items with
            | nil =>
                obtain ⟨-, rfl, -⟩ := Outcome.mk.inj ran
                exact free
            | cons => exact freeNext (List.cons_ne_nil _ _)

/-- An activation is left and its sender gets the answer. -/
theorem Departing.answers (ending : Departing compilations state store entry (sender :: rest))
    (there : store.activations[entry.address]? = some activation) (value : Value Object) :
    ∃ next, (popFrameAndPushResult compilations value).run state = ⟨.ok (), next, []⟩ ∧
      Realizes compilations next (store.leaving entry.address activation)
        (sender.answered (numberOfArguments entry.method) value :: rest) := by
  obtain ⟨inside, -⟩ := List.getElem?_eq_some_iff.mp there
  have enough : numberOfArguments entry.method ≤ sender.stack.length := by
    cases ending.calls with
    | call _ _ enough _ => exact enough
  obtain ⟨unlinked, unlinks, realizesSender⟩ := ending.popFrame there
  have isLeft : (store.leaving entry.address activation).activations[entry.address]? =
      some activation.left := List.getElem?_set_self inside
  obtain ⟨left, foundLeft, keepsLeft⟩ := realizesSender.ofActivation isLeft
  have isCode : methodAt compilations left.method = some entry.method :=
    keepsLeft.method ▸ ending.isMethod activation there
  obtain ⟨dropped, drops, realizesDropped, free⟩ := realizesSender.popEach
    (List.range (numberOfArguments entry.method)) (by rw [List.length_range]; exact enough)
  have some : List.range (numberOfArguments entry.method) ≠ [] := by
    rw [Ne, List.range_eq_nil]
    exact Nat.ne_of_gt (numberOfArguments_pos entry.method.signature)
  obtain ⟨next, pushed, realizesNext⟩ := realizesDropped.push value (free some)
  rw [List.length_range] at realizesNext
  refine ⟨next, ?_, realizesNext⟩
  rw [popFrameAndPushResult, Process.bind_of_silent unlinks,
    Process.bind_of_silent (readFrame_run foundLeft), readMethod, isCode, Process.demand_some,
    Process.pure_bind, Process.bind_of_silent drops,
    Process.bind_of_silent (getFrame_run realizesDropped.isRunning)]
  exact pushed

/-- What a return pops: the value on top of the stack, or below an empty stack the last
variable. -/
def Answer (store : Store World Object) (entry : Pending Object) (value : Value Object) : Prop :=
  entry.stack.head? = some value ∨
    entry.stack = [] ∧ ∃ activation, store.activations[entry.address]? = some activation ∧
      activation.variables.getLast? = some value

theorem Realizes.popAnswer (realizes : Realizes compilations state store (entry :: rest))
    {value : Value Object} (answer : Answer store entry value) :
    ∃ later, (Interpreter.pop entry.address).run state = ⟨.ok value, later, []⟩ ∧
      Departing compilations later store entry rest := by
  rcases answer with isTop | ⟨noStack, activation, there, isLast⟩
  · obtain ⟨stack, top⟩ := List.head?_eq_some_iff.mp isTop
    obtain ⟨later, popped, realizesLater, -⟩ := realizes.pop top
    exact ⟨later, popped,
      { realizesLater.ending with calls := realizesLater.calls.goOn rfl rfl }⟩
  · obtain ⟨frame, activation', standing⟩ := realizes.head
    obtain rfl := Option.some.inj (there.symm.trans standing.there)
    have holds := standing.stands.holds
    have whole := List.dropLast_append_getLast? value isLast
    rw [noStack, List.reverse_nil, List.append_nil, ← whole] at holds
    refine ⟨_, pop_value_run standing.found holds, ?_⟩
    have unchanged : { store with
        activations := store.activations.set entry.address activation } = store := by
      obtain ⟨inside, same⟩ := List.getElem?_eq_some_iff.mp standing.there
      rw [← same, List.set_getElem_self]
    have corresponds : Corresponds compilations (state.put entry.address (frame.popped 1))
        { store with activations := store.activations.set entry.address activation } rest :=
      realizes.toCorresponds.set (standing.keeps.popped 1) standing.inside
        (fun other member same => absurd same (realizes.notAbove member))
        (fun other member _ => List.mem_cons_of_mem _ member)
    rw [unchanged] at corresponds
    exact { corresponds with
      running := realizes.isRunning
      isMethod := realizes.ending.isMethod
      calls := realizes.calls
      distinct := realizes.distinct }

/-! ### Escaping -/

theorem Calls.hasSender (calls : Calls store (entry :: rest))
    (there : store.activations[entry.address]? = some activation) {caller : Nat}
    (called : activation.caller = some caller) :
    ∃ sender below, rest = sender :: below ∧ sender.address = caller := by
  cases calls with
  | outermost isThere none =>
      obtain rfl := Option.some.inj (there.symm.trans isThere)
      exact nomatch called.symm.trans none
  | call isThere isCaller _ _ =>
      obtain rfl := Option.some.inj (there.symm.trans isThere)
      exact ⟨_, _, rfl, Option.some.inj (isCaller.symm.trans called)⟩

/-- What leaving down to a home comes to, one activation at a time. -/
theorem leaveTo_succ_eq_ok {home rounds address : Nat} {after : Store World Object}
    {events : List Empty}
    (ran : (leaveTo home (rounds + 1) address).run store = ⟨.ok (), after, events⟩) :
    ∃ activation caller, store.activations[address]? = some activation ∧
      activation.caller = some caller ∧
      (if address = home then after = store.leaving address activation
      else ∃ events, (leaveTo home rounds caller).run (store.leaving address activation) =
        ⟨.ok (), after, events⟩) := by
  obtain ⟨activation, middle, _, _, ranRead, behind, -⟩ := Process.bind_eq_ok ran
  rw [readActivation, Process.bind_of_silent (Process.run_read _)] at ranRead
  obtain ⟨there, rfl⟩ := Process.demand_eq_ok ranRead
  obtain ⟨caller, isCaller, behind⟩ := Process.demand_bind_eq_ok behind
  rw [Process.bind_of_silent (leave_run there)] at behind
  refine ⟨activation, caller, there, isCaller, ?_⟩
  by_cases same : address = home
  · rw [if_pos same] at behind ⊢
    exact (Outcome.mk.inj behind).2.1.symm
  · rw [if_neg same] at behind ⊢
    exact ⟨_, behind⟩

/-- A home that is reached has been called. -/
theorem leaveTo_home {home rounds : Nat} : ∀ {address : Nat} {store after : Store World Object}
    {events : List Empty}, (leaveTo home rounds address).run store = ⟨.ok (), after, events⟩ →
    ∃ activation caller, store.activations[home]? = some activation ∧
      activation.caller = some caller := by
  induction rounds with
  | zero => exact fun ran => nomatch (Outcome.mk.inj ran).1
  | succ rounds inductionHypothesis =>
      intro address store after events ran
      obtain ⟨activation, caller, there, isCaller, behind⟩ := leaveTo_succ_eq_ok ran
      by_cases same : address = home
      · exact ⟨activation, caller, same ▸ there, isCaller⟩
      · rw [if_neg same] at behind
        obtain ⟨_, behind⟩ := behind
        obtain ⟨reached, from?, isReached, called⟩ := inductionHypothesis behind
        rw [Store.leaving, List.getElem?_set_ne same] at isReached
        exact ⟨reached, from?, isReached, called⟩

/-- The frames are popped down to the home, which is left with the answer. -/
theorem Departing.leavesTo {home rounds : Nat} {value : Value Object} {after : Store World Object} :
    ∀ {state : State World Object} {store : Store World Object} {entry : Pending Object}
      {rest : List (Pending Object)} {events : List Empty},
      Departing compilations state store entry rest →
      (leaveTo home rounds entry.address).run store = ⟨.ok (), after, events⟩ →
      ∃ next later, (popFramesTo home rounds >>= fun _ =>
          popFrameAndPushResult compilations value).run state = ⟨.ok (), next, []⟩ ∧
        Escapes home value (entry :: rest) later ∧ Realizes compilations next after later := by
  induction rounds with
  | zero => exact fun _ ran => nomatch (Outcome.mk.inj ran).1
  | succ rounds inductionHypothesis =>
      intro state store entry rest events departing ran
      obtain ⟨activation, caller, there, isCaller, behind⟩ := leaveTo_succ_eq_ok ran
      obtain ⟨sender, below, rfl, rfl⟩ := departing.calls.hasSender there isCaller
      by_cases same : entry.address = home
      · rw [if_pos same] at behind
        obtain ⟨next, answers, realizesNext⟩ := departing.answers there value
        refine ⟨next, _, ?_, .home same, behind ▸ realizesNext⟩
        have stops : (popFramesTo home (rounds + 1)).run state = ⟨.ok (), state, []⟩ := by
          rw [popFramesTo, Process.bind_of_silent (getFrame_run departing.running), if_pos same]
          rfl
        rw [Process.bind_of_silent stops, answers]
      · rw [if_neg same] at behind
        obtain ⟨_, behind⟩ := behind
        obtain ⟨unlinked, unlinks, realizesSender⟩ := departing.popFrame there
        obtain ⟨next, later, ranLater, escapes, realizesNext⟩ :=
          inductionHypothesis realizesSender.ending behind
        refine ⟨next, later, ?_, .inner same escapes, realizesNext⟩
        rw [popFramesTo, Process.bind_assoc,
          Process.bind_of_silent (getFrame_run departing.running), if_neg same,
          Process.bind_assoc, Process.bind_of_silent unlinks, ranLater]

/-- What escaping comes to. -/
theorem escapeFrom_eq_error {address home : Nat} {value result : Value Object}
    {after : Store World Object} {events : List Empty}
    (ran : (escapeFrom address value).run store = ⟨.error (.escape home result), after, events⟩) :
    result = value ∧ ∃ middle early late,
      (homeOf address).run store = ⟨.ok home, middle, early⟩ ∧
      (leaveTo home (middle.activations.length + 1) address).run middle =
        ⟨.ok (), after, late⟩ := by
  rcases Process.bind_eq_error ran with stops | ⟨found, middle, early, _, ranHome, behind, -⟩
  · exact nomatch undefined_homeOf address store _ (congrArg Outcome.result stops)
  rcases Process.bind_eq_error behind with stops | ⟨_, _, _, _, ranRead, behind, -⟩
  · exact nomatch (Outcome.mk.inj stops).1
  obtain ⟨same, rfl, -⟩ := Outcome.mk.inj ranRead
  obtain rfl := Except.ok.inj same
  rcases Process.bind_eq_error behind with stops | ⟨_, left, late, _, ranLeave, stops, -⟩
  · exact nomatch undefined_leaveTo _ _ address _ _ (congrArg Outcome.result stops)
  obtain ⟨same, rfl, -⟩ := Outcome.mk.inj stops
  obtain ⟨rfl, rfl⟩ := Interruption.escape.inj (Except.error.inj same)
  exact ⟨rfl, middle, early, late, ranHome, ranLeave⟩

/-- An escape is the only way in which escaping ends other than undefined. -/
theorem escapeFrom_result {address : Nat} {value : Value Object}
    {result : Except (Interruption Object) (Value Object)} {after : Store World Object}
    {events : List Empty}
    (ran : (escapeFrom address value).run store = ⟨result, after, events⟩) :
    result = .error .undefined ∨ ∃ home value, result = .error (.escape home value) := by
  cases result with
  | ok answer =>
      obtain ⟨_, _, _, _, -, behind, -⟩ := Process.bind_eq_ok ran
      obtain ⟨_, _, _, _, -, behind, -⟩ := Process.bind_eq_ok behind
      obtain ⟨_, _, _, _, -, behind, -⟩ := Process.bind_eq_ok behind
      exact nomatch (Outcome.mk.inj behind).1
  | error reason =>
      rcases Process.bind_eq_error ran with stops | ⟨_, _, _, _, -, behind, -⟩
      · exact Or.inl (congrArg _ (undefined_homeOf address _ _ (congrArg Outcome.result stops)))
      rcases Process.bind_eq_error behind with stops | ⟨_, _, _, _, -, behind, -⟩
      · exact nomatch (Outcome.mk.inj stops).1
      rcases Process.bind_eq_error behind with stops | ⟨_, _, _, _, -, behind, -⟩
      · exact Or.inl
          (congrArg _ (undefined_leaveTo _ _ address _ _ (congrArg Outcome.result stops)))
      · exact Or.inr ⟨_, _, (Outcome.mk.inj behind).1.symm⟩

variable (image) in
/-- A block escapes: what it returns answers the sender of its home. -/
theorem Departing.escapes (departing : Departing compilations state store entry rest)
    {value result : Value Object} {home : Nat} {after : Store World Object} {events : List Empty}
    (ran : (escapeFrom entry.address value).run store =
      ⟨.error (.escape home result), after, events⟩) :
    ∃ next later, (do
        let context ← getOuterContext (← getFrame)
        if (← readFrame context).previousFrame = none then do
          let block ← getArgument (← getFrame) 0 0
          let prevFrame ← Process.demand .undefined (← readFrame (← getFrame)).previousFrame
          let outerContext ← getOuterContext prevFrame
          let sender ← getArgument outerContext 0 0
          let _ ← Interpreter.popFrame
          objectSend image (invoke image) sender "escapedBlock:" [block]
        else do
          let state ← Process.read
          popFramesTo context (state.frames.length + 1)
          popFrameAndPushResult compilations value).run state = ⟨.ok (), next, []⟩ ∧
      Escapes home result (entry :: rest) later ∧ Realizes compilations next after later := by
  obtain ⟨rfl, middle, _, _, ranHome, leaves⟩ := escapeFrom_eq_error ran
  obtain ⟨rfl, _, rfl, isHome⟩ := departing.getOuterContext entry.address _ _ _ ranHome
  obtain ⟨activation, caller, there, isCaller⟩ := leaveTo_home leaves
  obtain ⟨frame, found, keeps⟩ := departing.ofActivation there
  have called : frame.previousFrame ≠ none := by
    rw [keeps.previousFrame, isCaller]
    exact Option.some_ne_none caller
  obtain ⟨next, later, ranLater, escapes, realizesNext⟩ :=
    departing.leavesTo leaves
  refine ⟨next, later, ?_, escapes, realizesNext⟩
  rw [Process.bind_of_silent (getFrame_run departing.running), Process.bind_of_silent isHome,
    Process.bind_of_silent (readFrame_run found), if_neg called,
    Process.bind_of_silent (Process.run_read _), departing.length, ranLater]

end

end Somr.Interpreter
