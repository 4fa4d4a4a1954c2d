import Somr.Interpreter.Machine

/-!
Owns the layout of the frames and blocks of a running program: of each frame its
method, its context, where its locals begin and how many slots it has, and the
blocks.

`Grown` says how layouts come about: a frame is entered for an installed method
or for a block, a frame is copied into a larger one, and a block is made from a
literal of the method of a frame. Every reachable state has a grown layout.
-/

namespace Somr.Interpreter

open Foundation Compiler

/-! ### Layouts -/

structure Shape where
  method : MethodAddress
  context : Option Nat
  localOffset : Nat
  size : Nat

structure Layout where
  shapes : List Shape
  blocks : List Block

section

variable {World Object : Type}

def Frame.shape (frame : Frame Object) : Shape :=
  ⟨frame.method, frame.context, frame.localOffset, frame.slots.length⟩

def State.layout (state : State World Object) : Layout :=
  ⟨state.frames.map Frame.shape, state.blocks⟩

end

/-- The shape of a frame pushed for a method. -/
structure Entered (compilations : List Compilation) (method : MethodAddress)
    (context : Option Nat) (shape : Shape) : Prop where
  ofMethod : shape.method = method
  ofContext : shape.context = context
  sized : ∃ code, methodAt compilations method = some code ∧
    shape.localOffset = numberOfArguments code ∧
      numberOfArguments code + code.numberOfLocals ≤ shape.size

/-- A layout that a program can bring about. -/
inductive Grown (compilations : List Compilation) : Layout → Prop where
  | empty : Grown compilations ⟨[], []⟩
  | bootstrap {shapes : List Shape} {blocks : List Block} {shape : Shape} :
      Grown compilations ⟨shapes, blocks⟩ → Entered compilations .bootstrap none shape →
      Grown compilations ⟨shapes ++ [shape], blocks⟩
  | method {shapes : List Shape} {blocks : List Block} {shape : Shape}
      (installed : InstalledMethod compilations) : Grown compilations ⟨shapes, blocks⟩ →
      Entered compilations installed.method none shape →
      Grown compilations ⟨shapes ++ [shape], blocks⟩
  | evaluation {shapes : List Shape} {blocks : List Block} {shape : Shape} {block : Block} :
      Grown compilations ⟨shapes, blocks⟩ → block ∈ blocks →
      Entered compilations block.method (some block.context) shape →
      Grown compilations ⟨shapes ++ [shape], blocks⟩
  | larger {shapes : List Shape} {blocks : List Block} {shape : Shape} {size : Nat} :
      Grown compilations ⟨shapes, blocks⟩ → shape ∈ shapes → shape.size ≤ size →
      Grown compilations ⟨shapes ++ [{ shape with size := size }], blocks⟩
  | block {shapes : List Shape} {blocks : List Block} {shape : Shape}
      {compilation outer address context : Nat} {code inner : CompiledMethod} :
      Grown compilations ⟨shapes, blocks⟩ → shapes[context]? = some shape →
      shape.method = .compiled compilation outer →
      methodAt compilations (.compiled compilation outer) = some code →
      .object address ∈ code.literals →
      methodAt compilations (.compiled compilation address) = some inner →
      Grown compilations ⟨shapes, blocks ++ [⟨.compiled compilation address, context⟩]⟩

/-- A frame begins its locals behind the arguments of its method. -/
theorem Grown.localOffset {compilations : List Compilation} {layout : Layout}
    (grown : Grown compilations layout) : ∀ shape ∈ layout.shapes, ∀ code,
      methodAt compilations shape.method = some code →
        shape.localOffset = numberOfArguments code := by
  have entered : ∀ {method context shape code}, Entered compilations method context shape →
      methodAt compilations shape.method = some code →
        shape.localOffset = numberOfArguments code := by
    intro method context shape code isEntered found
    obtain ⟨code', found', offset, -⟩ := isEntered.sized
    rw [isEntered.ofMethod, found'] at found
    exact Option.some.inj found ▸ offset
  induction grown with
  | empty => exact nofun
  | bootstrap _ isEntered inductionHypothesis =>
      intro shape there code found
      rcases List.mem_append.mp there with there | there
      · exact inductionHypothesis shape there code found
      · obtain rfl := List.mem_singleton.mp there
        exact entered isEntered found
  | method installed _ isEntered inductionHypothesis =>
      intro shape there code found
      rcases List.mem_append.mp there with there | there
      · exact inductionHypothesis shape there code found
      · obtain rfl := List.mem_singleton.mp there
        exact entered isEntered found
  | evaluation _ _ isEntered inductionHypothesis =>
      intro shape there code found
      rcases List.mem_append.mp there with there | there
      · exact inductionHypothesis shape there code found
      · obtain rfl := List.mem_singleton.mp there
        exact entered isEntered found
  | larger _ isShape _ inductionHypothesis =>
      intro shape there code found
      rcases List.mem_append.mp there with there | there
      · exact inductionHypothesis shape there code found
      · obtain rfl := List.mem_singleton.mp there
        exact inductionHypothesis _ isShape code found
  | block _ _ _ _ _ _ inductionHypothesis => exact inductionHypothesis

/-! ### What leaves the layout alone -/

section

variable {World Object Next : Type} {compilations : List Compilation}

/-- The layout of the last state is that of the first. -/
def sameLayout (World Object : Type) : RunRelation Empty (State World Object) where
  allowed _ := True
  holds first _ last := last.layout = first.layout
  refl _ := rfl
  trans first second := Eq.trans second first

/-- The computation leaves the layout alone. -/
abbrev KeepsLayout {Result : Type} (process : InterpreterM World Object Result) : Prop :=
  process.Obeys (sameLayout World Object)

theorem keepsLayout_pure {Result : Type} (value : Result) :
    KeepsLayout (pure value : InterpreterM World Object Result) :=
  Process.triple_pure fun _ _ => trivial

theorem keepsLayout_stop {Result : Type} (reason : Halt) :
    KeepsLayout (Process.stop reason : InterpreterM World Object Result) :=
  Process.triple_stop reason

theorem keepsLayout_read : KeepsLayout (Process.read : InterpreterM World Object _) :=
  Process.triple_read.weaken (fun _ holds => holds) fun _ _ _ => trivial

theorem keepsLayout_demand {Result : Type} (reason : Halt) (option : Option Result) :
    KeepsLayout (Process.demand reason option : InterpreterM World Object Result) :=
  (Process.triple_demand reason option).weaken (fun _ holds => holds) fun _ _ _ => trivial

theorem keepsLayout_modify {change : State World Object → State World Object}
    (same : ∀ state, (change state).layout = state.layout) :
    KeepsLayout (Process.modify change) :=
  Process.triple_modify (fun state _ => same state) fun _ _ => trivial

theorem KeepsLayout.bind {First Result : Type} {first : InterpreterM World Object First}
    {rest : First → InterpreterM World Object Result} (early : KeepsLayout first)
    (late : ∀ value, KeepsLayout (rest value)) : KeepsLayout (first >>= rest) :=
  Process.Obeys.bind early late

theorem keepsLayout_forM {Item : Type} {body : Item → InterpreterM World Object Unit}
    (keeps : ∀ item, KeepsLayout (body item)) (items : List Item) :
    KeepsLayout (items.forM body) := by
  induction items with
  | nil => exact keepsLayout_pure ()
  | cons item rest inductionHypothesis =>
      exact (keeps item).bind fun _ => inductionHypothesis

theorem keepsLayout_readFrame (address : Nat) :
    KeepsLayout (readFrame address : InterpreterM World Object _) :=
  keepsLayout_read.bind fun _ => keepsLayout_demand _ _

/-- A change of one frame changes its shape. -/
theorem map_modify_shape {frames : List (Frame Object)} {address : Nat}
    {change : Frame Object → Frame Object} {changeShape : Shape → Shape}
    (same : ∀ frame, frames[address]? = some frame →
      (change frame).shape = changeShape frame.shape) :
    (frames.modify address change).map Frame.shape =
      (frames.map Frame.shape).modify address changeShape := by
  refine List.ext_getElem? fun index => ?_
  rw [List.getElem?_map, List.getElem?_modify, List.getElem?_modify, List.getElem?_map]
  cases found : frames[index]? with
  | none => rfl
  | some frame =>
      by_cases here : address = index
      · simp [here, same frame (here ▸ found)]
      · simp [here]

theorem layout_modify {state : State World Object} {address : Nat}
    {change : Frame Object → Frame Object}
    (same : ∀ frame, state.frames[address]? = some frame → (change frame).shape = frame.shape) :
    State.layout { state with frames := state.frames.modify address change } = state.layout := by
  have unchanged : (state.frames.modify address change).map Frame.shape =
      (state.frames.map Frame.shape).modify address id := map_modify_shape same
  rw [List.modify_id] at unchanged
  rw [State.layout, State.layout, unchanged]

theorem keepsLayout_changeFrame (address : Nat) {change : Frame Object → Frame Object}
    (same : ∀ frame, (change frame).shape = frame.shape) :
    KeepsLayout (changeFrame address change : InterpreterM World Object Unit) :=
  keepsLayout_modify fun _ => layout_modify fun frame _ => same frame

theorem keepsLayout_getFrame : KeepsLayout (getFrame : InterpreterM World Object _) :=
  keepsLayout_read.bind fun _ => keepsLayout_demand _ _

theorem keepsLayout_setFrame (frame : Option Nat) :
    KeepsLayout (setFrame frame : InterpreterM World Object Unit) :=
  keepsLayout_modify fun _ => rfl

theorem keepsLayout_setWorld (world : World) :
    KeepsLayout (setWorld world : InterpreterM World Object Unit) :=
  keepsLayout_modify fun _ => rfl

theorem keepsLayout_element (address : Nat) (idx : Int) :
    KeepsLayout (element address idx : InterpreterM World Object _) :=
  (keepsLayout_readFrame address).bind fun _ => keepsLayout_demand _ _

theorem keepsLayout_setElement (address : Nat) (idx : Int) (value : Value Object) :
    KeepsLayout (setElement address idx value : InterpreterM World Object Unit) := by
  refine (keepsLayout_element address idx).bind fun _ => ?_
  apply keepsLayout_changeFrame
  intro frame
  rw [Frame.shape, Frame.shape, List.length_set]

theorem keepsLayout_pop (address : Nat) :
    KeepsLayout (pop address : InterpreterM World Object _) := by
  refine (keepsLayout_readFrame address).bind fun frame => ?_
  refine KeepsLayout.bind (keepsLayout_changeFrame address ?_) fun _ => keepsLayout_element _ _
  exact fun _ => rfl

theorem keepsLayout_push (address : Nat) (value : Value Object) :
    KeepsLayout (push address value : InterpreterM World Object Unit) := by
  refine (keepsLayout_readFrame address).bind fun frame => ?_
  refine KeepsLayout.bind (keepsLayout_changeFrame address ?_) fun _ =>
    keepsLayout_setElement _ _ _
  exact fun _ => rfl

theorem keepsLayout_getStackElement (address : Nat) (index : Int) :
    KeepsLayout (getStackElement address index : InterpreterM World Object _) :=
  (keepsLayout_readFrame address).bind fun _ => keepsLayout_element _ _

theorem keepsLayout_getContextLevel (lvl : Nat) : ∀ address : Nat,
    KeepsLayout (getContextLevel address lvl : InterpreterM World Object _) := by
  induction lvl with
  | zero => exact fun _ => keepsLayout_pure _
  | succ lvl inductionHypothesis =>
      intro address
      rw [getContextLevel]
      refine (keepsLayout_readFrame address).bind fun _ => ?_
      exact (keepsLayout_demand _ _).bind fun context => inductionHypothesis context

theorem keepsLayout_getOuterContextFrom (rounds : Nat) : ∀ address : Nat,
    KeepsLayout (getOuterContextFrom rounds address : InterpreterM World Object _) := by
  induction rounds with
  | zero => exact fun _ => keepsLayout_stop _
  | succ rounds inductionHypothesis =>
      intro address
      rw [getOuterContextFrom]
      refine (keepsLayout_readFrame address).bind fun frame => ?_
      cases frame.context with
      | none => exact keepsLayout_pure _
      | some context => exact inductionHypothesis context

theorem keepsLayout_getOuterContext (address : Nat) :
    KeepsLayout (getOuterContext address : InterpreterM World Object _) :=
  keepsLayout_read.bind fun _ => keepsLayout_getOuterContextFrom _ _

theorem keepsLayout_getLocal (address index contextLevel : Nat) :
    KeepsLayout (getLocal address index contextLevel : InterpreterM World Object _) :=
  (keepsLayout_getContextLevel contextLevel address).bind fun _ =>
    (keepsLayout_readFrame _).bind fun _ => keepsLayout_element _ _

theorem keepsLayout_setLocal (address index contextLevel : Nat) (value : Value Object) :
    KeepsLayout (setLocal address index contextLevel value : InterpreterM World Object Unit) :=
  (keepsLayout_getContextLevel contextLevel address).bind fun _ =>
    (keepsLayout_readFrame _).bind fun _ => keepsLayout_setElement _ _ _

theorem keepsLayout_getArgument (address index contextLevel : Nat) :
    KeepsLayout (getArgument address index contextLevel : InterpreterM World Object _) :=
  (keepsLayout_getContextLevel contextLevel address).bind fun _ => keepsLayout_element _ _

theorem keepsLayout_setArgument (address index contextLevel : Nat) (value : Value Object) :
    KeepsLayout (setArgument address index contextLevel value : InterpreterM World Object Unit) :=
  (keepsLayout_getContextLevel contextLevel address).bind fun _ => keepsLayout_setElement _ _ _

theorem keepsLayout_readMethod (method : MethodAddress) :
    KeepsLayout (readMethod compilations method : InterpreterM World Object _) :=
  keepsLayout_demand _ _

theorem keepsLayout_getMethod :
    KeepsLayout (getMethod compilations : InterpreterM World Object _) :=
  keepsLayout_getFrame.bind fun _ => (keepsLayout_readFrame _).bind fun _ =>
    keepsLayout_readMethod _

theorem keepsLayout_copyArgumentsFrom (address frame : Nat) :
    KeepsLayout (copyArgumentsFrom compilations address frame :
      InterpreterM World Object Unit) := by
  refine (keepsLayout_readFrame address).bind fun callee => ?_
  refine (keepsLayout_readMethod callee.method).bind fun method => ?_
  apply keepsLayout_forM
  intro i
  exact (keepsLayout_getStackElement _ _).bind fun _ => keepsLayout_setElement _ _ _

theorem keepsLayout_popArguments (frame count : Nat) :
    KeepsLayout (popArguments frame count : InterpreterM World Object _) := by
  induction count with
  | zero => exact keepsLayout_pure _
  | succ count inductionHypothesis =>
      rw [popArguments]
      refine (keepsLayout_pop frame).bind fun _ => ?_
      exact inductionHypothesis.bind fun _ => keepsLayout_pure _

theorem keepsLayout_packArguments (image : Image compilations World Object) (signature : String) :
    KeepsLayout (packArguments image signature) := by
  refine keepsLayout_getFrame.bind fun frame => ?_
  refine (keepsLayout_getStackElement _ _).bind fun receiver => ?_
  refine (keepsLayout_popArguments _ _).bind fun arguments => ?_
  refine keepsLayout_read.bind fun state => ?_
  exact (keepsLayout_setWorld _).bind fun _ => keepsLayout_pure _

theorem keepsLayout_popFrame : KeepsLayout (popFrame : InterpreterM World Object _) := by
  refine keepsLayout_getFrame.bind fun result => ?_
  refine (keepsLayout_readFrame result).bind fun frame => ?_
  refine (keepsLayout_setFrame _).bind fun _ => ?_
  refine KeepsLayout.bind (keepsLayout_changeFrame result ?_) fun _ => keepsLayout_pure _
  exact fun _ => rfl

theorem keepsLayout_popFrameAndPushResult (result : Value Object) :
    KeepsLayout (popFrameAndPushResult compilations result :
      InterpreterM World Object Unit) := by
  refine keepsLayout_popFrame.bind fun prevFrame => ?_
  refine (keepsLayout_readFrame prevFrame).bind fun frame => ?_
  refine (keepsLayout_readMethod frame.method).bind fun method => ?_
  refine (keepsLayout_forM (fun _ => ?_) _).bind fun _ => ?_
  · exact keepsLayout_getFrame.bind fun _ => (keepsLayout_pop _).bind fun _ => keepsLayout_pure _
  · exact keepsLayout_getFrame.bind fun _ => keepsLayout_push _ _

theorem keepsLayout_popFramesTo (context rounds : Nat) :
    KeepsLayout (popFramesTo context rounds : InterpreterM World Object Unit) := by
  induction rounds with
  | zero => exact keepsLayout_stop _
  | succ rounds inductionHypothesis =>
      rw [popFramesTo]
      refine keepsLayout_getFrame.bind fun frame => ?_
      split
      · exact keepsLayout_pure ()
      · exact keepsLayout_popFrame.bind fun _ => inductionHypothesis

theorem keepsLayout_getSelf : KeepsLayout (getSelf : InterpreterM World Object _) :=
  keepsLayout_getFrame.bind fun _ => (keepsLayout_getOuterContext _).bind fun _ =>
    keepsLayout_getArgument _ _ _

theorem keepsLayout_getBytecode (method : CompiledMethod) (index : Nat) :
    KeepsLayout (getBytecode method index : InterpreterM World Object _) :=
  (keepsLayout_demand _ _).bind fun _ => keepsLayout_pure _

theorem keepsLayout_getConstant (method : CompiledMethod) (bytecodeIndex : Nat) :
    KeepsLayout (getConstant method bytecodeIndex : InterpreterM World Object _) :=
  (keepsLayout_getBytecode _ _).bind fun _ => keepsLayout_demand _ _

theorem keepsLayout_getSymbol (method : CompiledMethod) (bytecodeIndex : Nat) :
    KeepsLayout (getSymbol method bytecodeIndex : InterpreterM World Object _) := by
  refine (keepsLayout_getConstant _ _).bind fun literal => ?_
  cases literal with
  | symbol text => exact keepsLayout_pure text
  | object address => exact keepsLayout_stop _

/-! ### Bytecodes that leave the layout alone -/

theorem keepsLayout_doDup : KeepsLayout (doDup : InterpreterM World Object Unit) := by
  refine keepsLayout_getFrame.bind fun frame => ?_
  refine (keepsLayout_getStackElement frame 0).bind fun elem => ?_
  exact keepsLayout_getFrame.bind fun frame => keepsLayout_push frame elem

/-- A bytecode with the operands of a variable. -/
theorem keepsLayout_variable {use : Nat → Nat → InterpreterM World Object Unit}
    (keeps : ∀ bc1 bc2, KeepsLayout (use bc1 bc2)) (bytecodeIndex : Nat) :
    KeepsLayout (do
      let method ← getMethod compilations
      let bc1 ← getBytecode method (bytecodeIndex + 1)
      let bc2 ← getBytecode method (bytecodeIndex + 2)
      use bc1 bc2) := by
  refine keepsLayout_getMethod.bind fun method => ?_
  refine (keepsLayout_getBytecode _ _).bind fun bc1 => ?_
  exact (keepsLayout_getBytecode _ _).bind fun bc2 => keeps bc1 bc2

theorem keepsLayout_doPushLocal (bytecodeIndex : Nat) :
    KeepsLayout (doPushLocal compilations bytecodeIndex : InterpreterM World Object Unit) := by
  refine keepsLayout_variable (fun bc1 bc2 => ?_) bytecodeIndex
  refine keepsLayout_getFrame.bind fun frame => ?_
  refine (keepsLayout_getLocal frame bc1 bc2).bind fun value => ?_
  exact keepsLayout_getFrame.bind fun frame => keepsLayout_push frame value

theorem keepsLayout_doPushArgument (bytecodeIndex : Nat) :
    KeepsLayout (doPushArgument compilations bytecodeIndex : InterpreterM World Object Unit) := by
  refine keepsLayout_variable (fun bc1 bc2 => ?_) bytecodeIndex
  refine keepsLayout_getFrame.bind fun frame => ?_
  refine (keepsLayout_getArgument frame bc1 bc2).bind fun value => ?_
  exact keepsLayout_getFrame.bind fun frame => keepsLayout_push frame value

theorem keepsLayout_doPopLocal (bytecodeIndex : Nat) :
    KeepsLayout (doPopLocal compilations bytecodeIndex : InterpreterM World Object Unit) := by
  refine keepsLayout_variable (fun bc1 bc2 => ?_) bytecodeIndex
  refine keepsLayout_getFrame.bind fun frame => ?_
  refine (keepsLayout_pop frame).bind fun o => ?_
  exact keepsLayout_getFrame.bind fun frame => keepsLayout_setLocal frame bc1 bc2 o

theorem keepsLayout_doPopArgument (bytecodeIndex : Nat) :
    KeepsLayout (doPopArgument compilations bytecodeIndex : InterpreterM World Object Unit) := by
  refine keepsLayout_variable (fun bc1 bc2 => ?_) bytecodeIndex
  refine keepsLayout_getFrame.bind fun frame => ?_
  refine (keepsLayout_pop frame).bind fun o => ?_
  exact keepsLayout_getFrame.bind fun frame => keepsLayout_setArgument frame bc1 bc2 o

theorem keepsLayout_doPop : KeepsLayout (doPop : InterpreterM World Object Unit) :=
  keepsLayout_getFrame.bind fun frame => (keepsLayout_pop frame).bind fun _ => keepsLayout_pure ()

theorem keepsLayout_doPushField (image : Image compilations World Object) (bytecodeIndex : Nat) :
    KeepsLayout (doPushField image bytecodeIndex) := by
  refine keepsLayout_getMethod.bind fun method => ?_
  refine (keepsLayout_getSymbol _ _).bind fun fieldName => ?_
  refine keepsLayout_getSelf.bind fun self => ?_
  refine keepsLayout_read.bind fun state => ?_
  refine (keepsLayout_demand _ _).bind fun value => ?_
  exact keepsLayout_getFrame.bind fun frame => keepsLayout_push frame value

theorem keepsLayout_doPopField (image : Image compilations World Object) (bytecodeIndex : Nat) :
    KeepsLayout (doPopField image bytecodeIndex) := by
  refine keepsLayout_getMethod.bind fun method => ?_
  refine (keepsLayout_getSymbol _ _).bind fun fieldName => ?_
  refine keepsLayout_getSelf.bind fun self => ?_
  cases self with
  | block address => exact keepsLayout_stop _
  | frame address => exact keepsLayout_stop _
  | object self =>
      refine keepsLayout_getFrame.bind fun frame => ?_
      refine (keepsLayout_pop frame).bind fun o => ?_
      refine keepsLayout_read.bind fun state => ?_
      exact (keepsLayout_demand _ _).bind fun world => keepsLayout_setWorld world

theorem keepsLayout_doPushConstant (image : Image compilations World Object)
    (bytecodeIndex : Nat) : KeepsLayout (doPushConstant image bytecodeIndex) := by
  refine keepsLayout_getFrame.bind fun address => ?_
  refine (keepsLayout_readFrame address).bind fun frame => ?_
  refine (keepsLayout_readMethod frame.method).bind fun method => ?_
  refine (keepsLayout_demand _ _).bind fun compilation => ?_
  refine (keepsLayout_getConstant _ _).bind fun constant => ?_
  exact keepsLayout_getFrame.bind fun frame => keepsLayout_push frame _

theorem keepsLayout_doReturnLocal :
    KeepsLayout (doReturnLocal compilations : InterpreterM World Object Unit) := by
  refine keepsLayout_getFrame.bind fun frame => ?_
  exact (keepsLayout_pop frame).bind fun result => keepsLayout_popFrameAndPushResult result

end

end Somr.Interpreter
