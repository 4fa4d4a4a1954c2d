import Somr.Interpreter.Layout

/-!
Owns the proof that the interpreter only grows layouts the way `Grown` says, for
every image, and so that every reachable state has a grown layout.
-/

namespace Somr.Interpreter

open Foundation Compiler

section

variable {compilations : List Compilation} {World Object First Result : Type}

/-! ### Conditions on the layout -/

/-- The computation takes the first condition on the layout to the second. -/
def Changes (pre : Layout → Prop) (process : InterpreterM World Object Result)
    (post : Result → Layout → Prop) : Prop :=
  Process.Triple (.any Empty (State World Object)) (fun state => pre state.layout) process
    fun value state => post value state.layout

theorem KeepsLayout.changes {process : InterpreterM World Object Result}
    (keeps : KeepsLayout process) (condition : Layout → Prop) :
    Changes condition process fun _ => condition := by
  intro state holds allowed
  obtain ⟨same, -⟩ := keeps state trivial fun _ _ => trivial
  refine ⟨trivial, fun value ok => ?_⟩
  change condition (process.run state).state.layout
  rw [show (process.run state).state.layout = state.layout from same]
  exact holds

theorem Changes.bind {pre : Layout → Prop} {post : Result → Layout → Prop}
    {first : InterpreterM World Object First} {rest : First → InterpreterM World Object Result}
    (middle : First → Layout → Prop) (early : Changes pre first middle)
    (late : ∀ value, Changes (middle value) (rest value) post) :
    Changes pre (first >>= rest) post :=
  Process.Triple.bind _ early late

/-- A first part that leaves the layout alone. -/
theorem KeepsLayout.then {pre : Layout → Prop} {post : Result → Layout → Prop}
    {first : InterpreterM World Object First} {rest : First → InterpreterM World Object Result}
    (early : KeepsLayout first) (late : ∀ value, Changes pre (rest value) post) :
    Changes pre (first >>= rest) post :=
  (early.changes pre).bind _ late

theorem changes_pure {pre : Layout → Prop} {post : Result → Layout → Prop} {value : Result}
    (holds : ∀ layout, pre layout → post value layout) :
    Changes pre (pure value : InterpreterM World Object Result) post :=
  Process.triple_pure fun state => holds state.layout

theorem Changes.of_layouts {pre : Layout → Prop} {post : Result → Layout → Prop}
    {process : InterpreterM World Object Result}
    (each : ∀ old, pre old → Changes (· = old) process post) : Changes pre process post :=
  fun state holds => each state.layout holds state rfl

theorem Changes.weaken {pre : Layout → Prop} {post post' : Result → Layout → Prop}
    {process : InterpreterM World Object Result} (changes : Changes pre process post)
    (weaker : ∀ value layout, post value layout → post' value layout) :
    Changes pre process post' :=
  Process.Triple.weaken changes (fun _ holds => holds) fun value state => weaker value state.layout

/-- What reads the state first may use that it has the layout. -/
theorem changes_read {pre : Layout → Prop} {post : Result → Layout → Prop}
    {rest : State World Object → InterpreterM World Object Result}
    (late : ∀ state, pre state.layout → Changes (· = state.layout) (rest state) post) :
    Changes pre (Process.read >>= rest) post := by
  refine Process.Triple.bind _ Process.triple_read fun state => ?_
  rintro _ ⟨rfl, holds⟩
  exact late state holds state rfl

theorem changes_demand {pre : Layout → Prop} {post : Result → Layout → Prop} {reason : Halt}
    {option : Option First} {rest : First → InterpreterM World Object Result}
    (late : ∀ value, option = some value → Changes pre (rest value) post) :
    Changes pre (Process.demand reason option >>= rest) post :=
  Process.Triple.demand late

theorem getElem?_shapes {state : State World Object} {address : Nat} {frame : Frame Object}
    (found : state.frames[address]? = some frame) :
    state.layout.shapes[address]? = some frame.shape := by
  rw [State.layout, List.getElem?_map, found]
  rfl

/-- What reads a frame first may use its shape. -/
theorem changes_readFrame {pre : Layout → Prop} {post : Result → Layout → Prop} {address : Nat}
    {rest : Frame Object → InterpreterM World Object Result}
    (late : ∀ frame : Frame Object,
      Changes (fun layout => pre layout ∧ layout.shapes[address]? = some frame.shape)
        (rest frame) post) :
    Changes pre (readFrame address >>= rest) post := by
  rw [readFrame, Process.bind_assoc]
  refine changes_read fun state holds => changes_demand fun frame found => ?_
  refine Process.Triple.weaken (late frame) (fun other same => ?_) fun _ _ ends => ends
  rw [show other.layout = state.layout from same]
  exact ⟨holds, getElem?_shapes found⟩

/-- The computation takes grown layouts to grown layouts. -/
abbrev KeepsGrown (compilations : List Compilation)
    (process : InterpreterM World Object Result) : Prop :=
  Changes (Grown compilations) process fun _ => Grown compilations

theorem KeepsLayout.grown {process : InterpreterM World Object Result}
    (keeps : KeepsLayout process) : KeepsGrown compilations process :=
  keeps.changes _

theorem keepsGrown_stop (reason : Halt) :
    KeepsGrown compilations (Process.stop reason : InterpreterM World Object Result) :=
  Process.triple_stop reason

/-! ### New frames -/

variable (image : Image compilations World Object)

/-- The layout with one more frame, entered for the method. -/
def Pushed (compilations : List Compilation) (old : Layout) (method : MethodAddress)
    (layout : Layout) : Prop :=
  ∃ shape, Entered compilations method none shape ∧ layout = ⟨old.shapes ++ [shape], old.blocks⟩

theorem newFrame_changes (old : Layout) (previousFrame : Option Nat) (method : MethodAddress) :
    Changes (· = old) (newFrame image previousFrame method) fun address layout =>
      address = old.shapes.length ∧ Pushed compilations old method layout := by
  refine changes_demand fun code found => changes_demand fun stackElements _ => ?_
  refine changes_read fun state same => ?_
  have length : state.frames.length = old.shapes.length := by
    rw [← same, State.layout, List.length_map]
  refine Changes.bind (fun _ => Pushed compilations old method) ?_ fun _ => ?_
  · refine Process.triple_modify (fun _ _ => trivial) fun other layout => ?_
    have sized : numberOfArguments code + code.numberOfLocals ≤
        (List.replicate (numberOfArguments code + code.numberOfLocals + stackElements.toNat)
          (Value.object image.nilObject)).length := by
      rw [List.length_replicate]
      omega
    refine ⟨⟨method, none, numberOfArguments code, _⟩, ⟨rfl, rfl, code, found, rfl, sized⟩, ?_⟩
    rw [← same, ← layout, State.layout, State.layout, List.map_append]
    rfl
  · refine (keepsLayout_setWorld _).then fun _ => changes_pure fun layout pushed => ?_
    exact ⟨length, pushed⟩

theorem pushNewFrame_changes (old : Layout) (method : MethodAddress) :
    Changes (· = old) (pushNewFrame image method) fun address layout =>
      address = old.shapes.length ∧ Pushed compilations old method layout := by
  refine keepsLayout_read.then fun state => ?_
  refine (newFrame_changes image old state.frame method).bind _ fun address => ?_
  exact (keepsLayout_setFrame (some address)).then fun _ => changes_pure fun _ holds => holds

theorem pushNewFrame_grown {method : MethodAddress}
    (grows : ∀ {shapes blocks shape}, Grown compilations ⟨shapes, blocks⟩ →
      Entered compilations method none shape → Grown compilations ⟨shapes ++ [shape], blocks⟩) :
    KeepsGrown compilations (pushNewFrame image method) := by
  refine Changes.of_layouts fun old grown => ?_
  refine (pushNewFrame_changes image old method).weaken ?_
  rintro _ _ ⟨-, shape, entered, rfl⟩
  exact grows grown entered

theorem invokeMethod_grown (installed : InstalledMethod compilations) (frame : Nat) :
    KeepsGrown compilations (invokeMethod image installed.method frame) := by
  have pushed : KeepsGrown compilations (pushNewFrame image installed.method) :=
    pushNewFrame_grown image (.method installed)
  exact pushed.bind _ fun callee => (keepsLayout_copyArgumentsFrom callee frame).grown

/-- The context of a frame just pushed is set. -/
theorem changeFrame_context (old : Layout) (method : MethodAddress) (context : Nat) :
    Changes (Pushed compilations old method)
      (changeFrame old.shapes.length fun frame => { frame with context := some context } :
        InterpreterM World Object Unit)
      fun _ layout => ∃ shape, Entered compilations method (some context) shape ∧
        layout = ⟨old.shapes ++ [shape], old.blocks⟩ := by
  refine Process.triple_modify (fun _ _ => trivial) ?_
  rintro state ⟨shape, entered, same⟩
  obtain ⟨shapes, blocks⟩ := Layout.mk.inj same
  refine ⟨{ shape with context := some context }, ⟨entered.ofMethod, rfl, entered.sized⟩, ?_⟩
  have changed : (state.frames.modify old.shapes.length fun frame =>
      { frame with context := some context }).map Frame.shape =
        (state.frames.map Frame.shape).modify old.shapes.length fun shape =>
          { shape with context := some context } :=
    map_modify_shape fun frame _ => rfl
  rw [State.layout, changed, shapes, blocks, List.modify_eq_take_cons_drop (by simp)]
  simp

theorem evaluationRoutine_grown (numArgs frame : Nat) :
    KeepsGrown compilations (evaluationRoutine image numArgs frame) := by
  refine (keepsLayout_getStackElement _ _).then fun receiver => ?_
  cases receiver with
  | object object => exact keepsGrown_stop _
  | frame address => exact keepsGrown_stop _
  | block address =>
      refine changes_read fun state grown => changes_demand fun block found => ?_
      have member : block ∈ state.layout.blocks := List.mem_of_getElem? found
      refine (pushNewFrame_changes image state.layout block.method).bind _ fun callee => ?_
      refine Changes.of_layouts fun layout ⟨isLast, pushed⟩ => ?_
      subst isLast
      refine (keepsLayout_copyArgumentsFrom _ frame).then fun _ => ?_
      have entered : Changes (· = layout) (changeFrame state.layout.shapes.length fun frame =>
          { frame with context := some block.context } : InterpreterM World Object Unit)
          fun _ layout => ∃ shape, Entered compilations block.method (some block.context) shape ∧
            layout = ⟨state.layout.shapes ++ [shape], state.layout.blocks⟩ := by
        refine Process.Triple.weaken (changeFrame_context state.layout block.method block.context)
          ?_ fun _ _ ends => ends
        rintro other rfl
        exact pushed
      apply entered.weaken
      rintro _ _ ⟨shape, entered, rfl⟩
      exact .evaluation grown member entered

theorem emergencyFrameFrom_grown (address extraLength : Nat) :
    KeepsGrown compilations (emergencyFrameFrom image address extraLength) := by
  refine changes_readFrame fun frame => ?_
  refine changes_read fun state ⟨grown, found⟩ => ?_
  refine Changes.bind (fun _ => Grown compilations) ?_ fun _ =>
    changes_pure fun _ grown => grown
  refine Process.triple_modify (fun _ _ => trivial) fun other same => ?_
  have shapes : other.frames.map Frame.shape = state.layout.shapes := congrArg Layout.shapes same
  have blocks : other.blocks = state.layout.blocks := congrArg Layout.blocks same
  have larger : frame.shape.size ≤
      (frame.slots ++ List.replicate extraLength (Value.object image.nilObject)).length := by
    rw [List.length_append]
    exact Nat.le_add_right _ _
  rw [State.layout, List.map_append, shapes, blocks]
  exact .larger grown (List.mem_of_getElem? found) larger

theorem reserve_grown (free : Int) : KeepsGrown compilations (reserve image free) := by
  refine keepsLayout_getFrame.then fun address => ?_
  refine (keepsLayout_readFrame address).then fun frame => ?_
  change Changes _ (if free - frame.remainingStackSize > 0 then _ else _) _
  split
  · refine (emergencyFrameFrom_grown image _ _).bind _ fun larger => ?_
    exact (keepsLayout_setFrame _).grown
  · exact changes_pure fun _ grown => grown

/-! ### Invocation -/

theorem objectSend_grown
    {invoke : Invokable compilations World Object → Nat → InterpreterM World Object Unit}
    (invokes : ∀ invokable frame, KeepsGrown compilations (invoke invokable frame))
    (receiver : Value Object) (selector : String) (arguments : List (Value Object)) :
    KeepsGrown compilations (objectSend image invoke receiver selector arguments) := by
  refine keepsLayout_getFrame.then fun frame => ?_
  refine (keepsLayout_push frame receiver).then fun _ => ?_
  refine (keepsLayout_forM (fun _ => keepsLayout_push frame _) arguments).then fun _ => ?_
  refine keepsLayout_read.then fun state => ?_
  exact (keepsLayout_demand _ _).then fun invokable => invokes invokable frame

/-- Resetting the stack pointer leaves the offset of the locals as it was. -/
theorem resetStackPointer_grown (frame : Nat) :
    KeepsGrown compilations (do
      let method ← readMethod compilations (← readFrame frame).method
      changeFrame frame (Frame.resetStackPointer method) : InterpreterM World Object Unit) := by
  refine changes_readFrame fun before => changes_demand fun method found => ?_
  refine Process.triple_modify (fun _ _ => trivial) fun state ⟨grown, there⟩ => ?_
  have same : State.layout { state with
      frames := state.frames.modify frame (Frame.resetStackPointer method) } = state.layout := by
    apply layout_modify
    intro now isNow
    have shape : now.shape = before.shape := by
      rw [State.layout, List.getElem?_map, isNow] at there
      exact Option.some.inj there
    have methods : now.method = before.method := congrArg Shape.method shape
    have offset : now.shape.localOffset = numberOfArguments method := by
      apply grown.localOffset
      · rw [shape]
        exact List.mem_of_getElem? there
      · rw [← found, ← methods, Frame.shape]
    rw [Frame.shape] at offset
    rw [Frame.resetStackPointer, Frame.shape, Frame.shape, ← offset]
  change Grown compilations (State.layout { state with
    frames := state.frames.modify frame (Frame.resetStackPointer method) })
  rw [same]
  exact grown

theorem primitiveOperation_grown
    {invoke : Invokable compilations World Object → Nat → InterpreterM World Object Unit}
    (invokes : ∀ invokable frame, KeepsGrown compilations (invoke invokable frame))
    (operation : PrimitiveOperation World Object) :
    KeepsGrown compilations (primitiveOperation image invoke operation) := by
  cases operation with
  | read => exact keepsLayout_read.grown
  | pop frame => exact (keepsLayout_pop frame).grown
  | push frame value => exact (keepsLayout_push frame value).grown
  | setElement frame idx value => exact (keepsLayout_setElement frame idx value).grown
  | setBytecodeIndex frame index =>
      exact KeepsLayout.grown (keepsLayout_changeFrame frame fun _ => rfl)
  | resetStackPointer frame => exact resetStackPointer_grown frame
  | setWorld world => exact (keepsLayout_setWorld world).grown
  | send receiver selector arguments => exact objectSend_grown image invokes _ _ _
  | quit => exact keepsGrown_stop _

theorem invokeWithin_grown (depth : Nat) :
    ∀ (invokable : Invokable compilations World Object) (frame : Nat),
      KeepsGrown compilations (invokeWithin image depth invokable frame) := by
  induction depth with
  | zero => exact fun _ _ => keepsGrown_stop _
  | succ depth inductionHypothesis =>
      intro invokable frame
      cases invokable with
      | method installed => exact invokeMethod_grown image installed frame
      | evaluation argc => exact evaluationRoutine_grown image argc frame
      | primitive routine =>
          exact Program.keeps (primitiveOperation_grown image inductionHypothesis) (routine frame)

theorem invoke_grown (invokable : Invokable compilations World Object) (frame : Nat) :
    KeepsGrown compilations (invoke image invokable frame) :=
  invokeWithin_grown image _ invokable frame

theorem send_grown (signature : String) (receiver : Value Object) :
    KeepsGrown compilations (send image signature receiver) := by
  refine keepsLayout_read.then fun state => ?_
  cases image.lookupInvokable state receiver signature with
  | some invokable => exact keepsLayout_getFrame.then fun frame => invoke_grown image _ frame
  | none =>
      refine (keepsLayout_packArguments image signature).then fun packed => ?_
      refine (reserve_grown image 3).bind _ fun _ => ?_
      exact objectSend_grown image (invoke_grown image) _ _ _

/-! ### Bytecodes -/

/-- The block made from a literal of the method of the frame. -/
theorem newBlock_grown {shape : Shape} {compilation outer address context : Nat}
    {code inner : CompiledMethod} (ofMethod : shape.method = .compiled compilation outer)
    (isCode : methodAt compilations (.compiled compilation outer) = some code)
    (literal : .object address ∈ code.literals)
    (isInner : methodAt compilations (.compiled compilation address) = some inner)
    (arguments : Nat) :
    Changes (fun layout => Grown compilations layout ∧ layout.shapes[context]? = some shape)
      (newBlock image (.compiled compilation address) inner context arguments)
      fun _ => Grown compilations := by
  refine keepsLayout_read.then fun state => ?_
  refine Changes.bind (fun _ => Grown compilations) ?_ fun _ => ?_
  · refine Process.triple_modify (fun _ _ => trivial) fun other ⟨grown, there⟩ => ?_
    exact .block grown there ofMethod isCode literal isInner
  · refine (keepsLayout_demand _ _).then fun world => ?_
    exact (keepsLayout_setWorld _).then fun _ => changes_pure fun _ grown => grown

theorem doPushBlock_grown (bytecodeIndex : Nat) :
    KeepsGrown compilations (doPushBlock image bytecodeIndex) := by
  -- The frame does not change before the block is made, so both reads answer the same.
  refine Process.Triple.of_states fun state grown => ?_
  refine getFrame_triple fun context isFrame => ?_
  refine readFrame_triple fun frame found => ?_
  refine Process.Triple.demand fun code isCode => ?_
  refine Process.Triple.demand fun compilation same => ?_
  rw [getConstant, getBytecode, Process.bind_assoc, Process.bind_assoc]
  refine Process.Triple.demand fun byte _ => ?_
  refine Process.Triple.demand fun literal isLiteral => ?_
  cases literal with
  | symbol text => exact Process.triple_stop _
  | object address =>
      refine Process.Triple.demand fun inner isInner => ?_
      refine getFrame_triple fun context' isFrame' => ?_
      obtain rfl : context = context' := Option.some.inj (isFrame.symm.trans isFrame')
      cases method : frame.method with
      | bootstrap => rw [method] at same; exact nomatch same
      | compiled compilation' outer =>
          rw [method] at same isCode
          obtain rfl : compilation' = compilation := Option.some.inj same
          refine Process.Triple.bind (fun _ after => Grown compilations after.layout) ?_
            fun block => keepsLayout_getFrame.then fun frame => (keepsLayout_push frame _).grown
          have ofMethod : frame.shape.method = .compiled compilation' outer := method
          refine Process.Triple.weaken (newBlock_grown image ofMethod isCode
            (List.mem_of_getElem? isLiteral) isInner _) ?_ fun _ _ ends => ends
          rintro _ rfl
          exact ⟨grown, getElem?_shapes found⟩

theorem doPushGlobal_grown (bytecodeIndex : Nat) :
    KeepsGrown compilations (doPushGlobal image bytecodeIndex) := by
  refine keepsLayout_getMethod.then fun method => ?_
  refine (keepsLayout_getSymbol _ _).then fun globalName => ?_
  refine keepsLayout_read.then fun state => ?_
  cases image.getGlobal state globalName with
  | some value => exact keepsLayout_getFrame.then fun frame => (keepsLayout_push frame value).grown
  | none =>
      refine keepsLayout_getSelf.then fun self => ?_
      refine (reserve_grown image 2).bind _ fun _ => ?_
      exact objectSend_grown image (invoke_grown image) _ _ _

theorem doSend_grown (bytecodeIndex : Nat) :
    KeepsGrown compilations (doSend image bytecodeIndex) := by
  refine keepsLayout_getMethod.then fun method => ?_
  refine (keepsLayout_getSymbol _ _).then fun signature => ?_
  refine keepsLayout_getFrame.then fun frame => ?_
  exact (keepsLayout_getStackElement _ _).then fun receiver => send_grown image signature receiver

theorem doSuperSend_grown (bytecodeIndex : Nat) :
    KeepsGrown compilations (doSuperSend image bytecodeIndex) := by
  refine keepsLayout_getMethod.then fun method => ?_
  refine (keepsLayout_getSymbol _ _).then fun signature => ?_
  refine keepsLayout_getFrame.then fun frame => ?_
  refine (keepsLayout_getOuterContext frame).then fun context => ?_
  refine (keepsLayout_readFrame context).then fun ctxt => ?_
  refine keepsLayout_read.then fun state => ?_
  cases image.lookupSuper state ctxt.method signature with
  | some invokable => exact keepsLayout_getFrame.then fun frame => invoke_grown image _ frame
  | none =>
      refine (keepsLayout_packArguments image signature).then fun packed => ?_
      exact objectSend_grown image (invoke_grown image) _ _ _

theorem doReturnNonLocal_grown : KeepsGrown compilations (doReturnNonLocal image) := by
  refine keepsLayout_getFrame.then fun frame => ?_
  refine (keepsLayout_pop frame).then fun result => ?_
  refine keepsLayout_getFrame.then fun frame => ?_
  refine (keepsLayout_getOuterContext frame).then fun context => ?_
  refine (keepsLayout_readFrame context).then fun home => ?_
  split
  · refine keepsLayout_getFrame.then fun frame => ?_
    refine (keepsLayout_getArgument frame 0 0).then fun block => ?_
    refine keepsLayout_getFrame.then fun frame => ?_
    refine (keepsLayout_readFrame frame).then fun current => ?_
    refine (keepsLayout_demand _ _).then fun prevFrame => ?_
    refine (keepsLayout_getOuterContext prevFrame).then fun outerContext => ?_
    refine (keepsLayout_getArgument outerContext 0 0).then fun sender => ?_
    refine keepsLayout_popFrame.then fun _ => ?_
    exact objectSend_grown image (invoke_grown image) _ _ _
  · refine keepsLayout_read.then fun state => ?_
    refine (keepsLayout_popFramesTo context _).then fun _ => ?_
    exact (keepsLayout_popFrameAndPushResult result).grown

theorem dispatch_grown (bytecode : UInt8) (bytecodeIndex : Nat) :
    KeepsGrown compilations (dispatch image bytecode bytecodeIndex) := by
  unfold dispatch
  refine .ite (fun _ => keepsLayout_doDup.grown) fun _ => ?_
  refine .ite (fun _ => (keepsLayout_doPushLocal _).grown) fun _ => ?_
  refine .ite (fun _ => (keepsLayout_doPushArgument _).grown) fun _ => ?_
  refine .ite (fun _ => (keepsLayout_doPushField image _).grown) fun _ => ?_
  refine .ite (fun _ => doPushBlock_grown image _) fun _ => ?_
  refine .ite (fun _ => (keepsLayout_doPushConstant image _).grown) fun _ => ?_
  refine .ite (fun _ => doPushGlobal_grown image _) fun _ => ?_
  refine .ite (fun _ => keepsLayout_doPop.grown) fun _ => ?_
  refine .ite (fun _ => (keepsLayout_doPopLocal _).grown) fun _ => ?_
  refine .ite (fun _ => (keepsLayout_doPopArgument _).grown) fun _ => ?_
  refine .ite (fun _ => (keepsLayout_doPopField image _).grown) fun _ => ?_
  refine .ite (fun _ => doSend_grown image _) fun _ => ?_
  refine .ite (fun _ => doSuperSend_grown image _) fun _ => ?_
  refine .ite (fun _ => keepsLayout_doReturnLocal.grown) fun _ => ?_
  refine .ite (fun _ => doReturnNonLocal_grown image) fun _ => ?_
  exact keepsGrown_stop _

theorem round_grown : KeepsGrown compilations (round image) := by
  refine keepsLayout_getFrame.then fun address => ?_
  refine (keepsLayout_readFrame address).then fun frame => ?_
  refine (keepsLayout_readMethod frame.method).then fun method => ?_
  refine (keepsLayout_demand _ _).then fun bytecode => ?_
  refine (keepsLayout_demand _ _).then fun bytecodeLength => ?_
  refine KeepsLayout.then (keepsLayout_changeFrame address ?_) fun _ => ?_
  · exact fun _ => rfl
  · split
    · exact changes_pure fun _ grown => grown
    · exact dispatch_grown image bytecode frame.bytecodeIndex

/-! ### Runs -/

theorem enter_grown (frame : Nat) (receiver argument : Value Object) (selector : String) :
    KeepsGrown compilations (enter image frame receiver argument selector) := by
  refine (keepsLayout_push frame receiver).then fun _ => ?_
  refine (keepsLayout_push frame argument).then fun _ => ?_
  refine keepsLayout_read.then fun state => ?_
  exact (keepsLayout_demand _ _).then fun invokable => invoke_grown image invokable frame

theorem pushBootstrap_grown : KeepsGrown compilations (pushNewFrame image .bootstrap) :=
  pushNewFrame_grown image .bootstrap

theorem universeInitialize_grown (argumentsArray : Value Object) :
    KeepsGrown compilations (universeInitialize image argumentsArray) :=
  (pushBootstrap_grown image).bind _ fun frame => enter_grown image frame _ _ _

theorem shellStatement_grown (receiver it : Value Object) :
    KeepsGrown compilations (shellStatement image receiver it) := by
  refine keepsLayout_getFrame.then fun currentFrame => ?_
  refine KeepsLayout.then (keepsLayout_changeFrame currentFrame ?_) fun _ => ?_
  · exact fun _ => rfl
  · exact enter_grown image currentFrame receiver it _

variable {image}

theorem KeepsGrown.run {process : InterpreterM World Object Result}
    (keeps : KeepsGrown compilations process) {state : State World Object} {value : Result}
    (grown : Grown compilations state.layout) (ends : (process.run state).result = .ok value) :
    Grown compilations (process.run state).state.layout := by
  obtain ⟨-, holds⟩ := keeps state grown fun _ _ => trivial
  exact holds value ends

/-- Every reachable state has a grown layout. -/
theorem grown_of_reachable {world : World} {state : State World Object}
    (reachable : Reachable image world state) : Grown compilations state.layout := by
  induction reachable with
  | program argumentsArray ends => exact (universeInitialize_grown image _).run .empty ends
  | shell address ends => exact (pushBootstrap_grown image).run .empty ends
  | statement receiver it _ ends inductionHypothesis =>
      exact (shellStatement_grown image receiver it).run inductionHypothesis ends
  | result frame it _ ends inductionHypothesis =>
      exact (keepsLayout_pop frame).grown.run inductionHypothesis ends
  | round _ ends inductionHypothesis => exact (round_grown image).run inductionHypothesis ends

end

end Somr.Interpreter
