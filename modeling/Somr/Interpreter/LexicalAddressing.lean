import Somr.Interpreter.Growth
import Somr.Compiler.LiteralTable

/-!
Owns lexical addressing: that following the contexts of an activation passes
through activations of the enclosing blocks and of the method around them, and
that what `FindVar` computed for a variable names its slot there.

The invariant relates a layout to the units of one class definition. It is an
induction over how layouts grow; the interpreter enters through
`grown_of_reachable`.
-/

namespace Somr.Interpreter

open Foundation Compiler

/-! ### Enclosing units -/

/-- The unit so many steps outside of another one. -/
inductive EnclosingAt (definition : ClassDefinition) : Nat → CodeUnit → CodeUnit → Prop where
  | itself (unit : CodeUnit) : EnclosingAt definition 0 unit unit
  | outside {level : Nat} {unit outer far : CodeUnit} : outer ∈ definition.generate.units →
      outer.Encloses unit → EnclosingAt definition level outer far →
      EnclosingAt definition (level + 1) unit far

/-- The names visible in a unit, innermost first. -/
def visibleScopes (unit : CodeUnit) : List Scope := (unit.environment.enter unit.scope).scopes

/-- What `FindVar` computes: the level of the innermost scope that declares the
variable, and its index there, where a local hides an argument. -/
theorem findVar_spec {var : String} {slot : VariableSlot} : ∀ {scopes : List Scope} {first : Nat},
    findVar var scopes first = some slot →
      ∃ level scope, slot.context = first + level ∧ scopes[level]? = some scope ∧
        (∀ nearer < level, ∀ other, scopes[nearer]? = some other →
          var ∉ other.locals ∧ var ∉ other.arguments) ∧
        if slot.isArgument then var ∉ scope.locals ∧ scope.arguments.idxOf? var = some slot.index
        else scope.locals.idxOf? var = some slot.index := by
  intro scopes
  induction scopes with
  | nil => exact nofun
  | cons scope outer inductionHypothesis =>
      intro first found
      rw [findVar] at found
      cases isLocal : scope.locals.idxOf? var with
      | some index =>
          rw [isLocal] at found
          obtain rfl := Option.some.inj found
          exact ⟨0, scope, rfl, rfl, fun _ below => absurd below (Nat.not_lt_zero _), isLocal⟩
      | none =>
          have noLocal : var ∉ scope.locals := List.idxOf?_eq_none_iff.mp isLocal
          rw [isLocal] at found
          cases isArgument : scope.arguments.idxOf? var with
          | some index =>
              rw [isArgument] at found
              obtain rfl := Option.some.inj found
              exact ⟨0, scope, rfl, rfl, fun _ below => absurd below (Nat.not_lt_zero _), noLocal,
                isArgument⟩
          | none =>
              have noArgument : var ∉ scope.arguments := List.idxOf?_eq_none_iff.mp isArgument
              rw [isArgument] at found
              obtain ⟨level, declaring, context, there, hidden, index⟩ := inductionHypothesis found
              refine ⟨level + 1, declaring, by omega, there, fun nearer below other isOther => ?_,
                index⟩
              cases nearer with
              | zero =>
                  obtain rfl := Option.some.inj isOther
                  exact ⟨noLocal, noArgument⟩
              | succ nearer => exact hidden nearer (by omega) other isOther

/-! ### The invariant -/

section

variable {compilations : List Compilation} {definition : ClassDefinition} {source : Nat}

/-- The frame at an address is an activation of the unit. -/
def Activates (source : Nat) (shapes : List Shape) (address : Nat) (unit : CodeUnit) : Prop :=
  ∃ shape, shapes[address]? = some shape ∧ shape.method = .compiled source unit.address

/-- The context is an activation of the unit around, if there is one. -/
def ContextOf (definition : ClassDefinition) (source : Nat) (shapes : List Shape)
    (unit : CodeUnit) (context : Option Nat) : Prop :=
  unit.environment.scopes = [] ∨ ∃ address, context = some address ∧
    ∃ outer ∈ definition.generate.units, outer.Encloses unit ∧
      Activates source shapes address outer

/-- The shape is one of an activation of the unit. -/
structure Fits (definition : ClassDefinition) (source : Nat) (shapes : List Shape)
    (unit : CodeUnit) (shape : Shape) : Prop where
  isUnit : unit ∈ definition.generate.units
  localOffset : shape.localOffset = unit.scope.arguments.length
  room : unit.scope.arguments.length + unit.scope.locals.length ≤ shape.size
  context : ContextOf definition source shapes unit shape.context

/-- Every frame and block of the class definition is linked as it is nested. -/
structure Linked (definition : ClassDefinition) (source : Nat) (layout : Layout) : Prop where
  shapes : ∀ shape ∈ layout.shapes, ∀ address, shape.method = .compiled source address →
    ∃ unit, unit.address = address ∧ Fits definition source layout.shapes unit shape
  blocks : ∀ block ∈ layout.blocks, ∀ address, block.method = .compiled source address →
    ∃ unit ∈ definition.generate.units, unit.address = address ∧
      ContextOf definition source layout.shapes unit (some block.context)

theorem Activates.append {shapes : List Shape} {address : Nat} {unit : CodeUnit}
    (activates : Activates source shapes address unit) (more : List Shape) :
    Activates source (shapes ++ more) address unit := by
  obtain ⟨shape, found, method⟩ := activates
  obtain ⟨below, -⟩ := List.getElem?_eq_some_iff.mp found
  exact ⟨shape, (List.getElem?_append_left below).trans found, method⟩

theorem ContextOf.append {shapes : List Shape} {unit : CodeUnit} {context : Option Nat}
    (contextOf : ContextOf definition source shapes unit context) (more : List Shape) :
    ContextOf definition source (shapes ++ more) unit context := by
  refine contextOf.imp_right ?_
  rintro ⟨address, same, outer, isOuter, encloses, activates⟩
  exact ⟨address, same, outer, isOuter, encloses, activates.append more⟩

theorem Fits.append {shapes : List Shape} {unit : CodeUnit} {shape : Shape}
    (fits : Fits definition source shapes unit shape) (more : List Shape) :
    Fits definition source (shapes ++ more) unit shape :=
  { fits with context := fits.context.append more }

/-- One more frame. -/
theorem Linked.push {shapes : List Shape} {blocks : List Block} {shape : Shape}
    (linked : Linked definition source ⟨shapes, blocks⟩)
    (last : ∀ address, shape.method = .compiled source address →
      ∃ unit, unit.address = address ∧ Fits definition source shapes unit shape) :
    Linked definition source ⟨shapes ++ [shape], blocks⟩ := by
  constructor
  · intro other there address method
    rcases List.mem_append.mp there with there | there
    · obtain ⟨unit, atAddress, fits⟩ := linked.shapes other there address method
      exact ⟨unit, atAddress, fits.append _⟩
    · obtain rfl := List.mem_singleton.mp there
      obtain ⟨unit, atAddress, fits⟩ := last address method
      exact ⟨unit, atAddress, fits.append _⟩
  · intro block there address method
    obtain ⟨unit, isUnit, atAddress, context⟩ := linked.blocks block there address method
    exact ⟨unit, isUnit, atAddress, context.append _⟩

/-! ### The compiled class -/

/-- The compilation of the class definition is one of those of the program. -/
def Loaded (compilations : List Compilation) (definition : ClassDefinition) (source : Nat) :
    Prop :=
  compilations[source]? = some (.ofDefinition definition)

theorem ofDefinition_eq (definition : ClassDefinition) :
    Compilation.ofDefinition definition =
      ⟨definition.generate.objects, definition.generate.classContext⟩ := by
  rw [Compilation.ofDefinition, Parser.parse_tokens]

theorem methodAt_loaded (loaded : Loaded compilations definition source) {address : Nat}
    {method : CompiledMethod}
    (found : methodAt compilations (.compiled source address) = some method) :
    definition.generate.objects[address]? = some (.method method) := by
  have object := object_of_methodAt loaded found
  rw [ofDefinition_eq] at object
  exact object

/-- The method object at the address of a unit is the unit's. -/
theorem compiled_of_methodAt (loaded : Loaded compilations definition source) {unit : CodeUnit}
    (isUnit : unit ∈ definition.generate.units) {method : CompiledMethod}
    (found : methodAt compilations (.compiled source unit.address) = some method) :
    method = unit.mgenc.compiled := by
  have placed : definition.generate.objects[unit.address]? = some (.method unit.mgenc.compiled) :=
    (located_units definition unit isUnit).placed
  rw [methodAt_loaded loaded found] at placed
  exact CompiledObject.method.inj (Option.some.inj placed)

/-- A frame entered for a unit has its arguments and locals. -/
theorem Entered.fits (loaded : Loaded compilations definition source) {unit : CodeUnit}
    (isUnit : unit ∈ definition.generate.units) {context : Option Nat} {shape : Shape}
    (entered : Entered compilations (.compiled source unit.address) context shape)
    {shapes : List Shape} (linked : ContextOf definition source shapes unit context) :
    Fits definition source shapes unit shape := by
  obtain ⟨code, found, offset, room⟩ := entered.sized
  obtain rfl := compiled_of_methodAt loaded isUnit found
  have arguments : numberOfArguments unit.mgenc.compiled = unit.scope.arguments.length := by
    rw [numberOfArguments, MethodGenerationContext.compiled, unit.mgenc_signature]
    exact (unitsNested_class definition).counts unit isUnit
  have locals : unit.mgenc.compiled.numberOfLocals = unit.scope.locals.length :=
    congrArg List.length unit.mgenc_locals
  rw [arguments] at offset room
  rw [locals] at room
  exact ⟨isUnit, offset, room, entered.ofContext ▸ linked⟩

/-- A frame for an installed method activates a unit that nothing encloses. -/
theorem InstalledMethod.fits (loaded : Loaded compilations definition source)
    (installed : InstalledMethod compilations) {shapes : List Shape} {shape : Shape}
    (entered : Entered compilations installed.method none shape) (address : Nat)
    (method : shape.method = .compiled source address) :
    ∃ unit, unit.address = address ∧ Fits definition source shapes unit shape := by
  obtain ⟨compilation, address', classSource, compiled, installs⟩ := installed
  have same : MethodAddress.compiled compilation address' = .compiled source address :=
    entered.ofMethod.symm.trans method
  obtain ⟨rfl, rfl⟩ := MethodAddress.compiled.inj same
  obtain rfl : classSource = .ofDefinition definition :=
    Option.some.inj (compiled.symm.trans loaded)
  rw [ofDefinition_eq] at installs
  rcases outermost_or_primitive_of_installed installs with
    ⟨unit, isUnit, rfl, outermost⟩ | ⟨signature, primitive⟩
  · exact ⟨unit, rfl, entered.fits loaded isUnit (Or.inl outermost)⟩
  · obtain ⟨code, found, -⟩ := entered.sized
    have isMethod := methodAt_loaded loaded found
    rw [primitive] at isMethod
    exact nomatch isMethod

/-- Every layout that a program can bring about links the frames and blocks of the
class definition as its methods and blocks are nested. -/
theorem Grown.linked (loaded : Loaded compilations definition source) {layout : Layout}
    (grown : Grown compilations layout) : Linked definition source layout := by
  induction grown with
  | empty => exact ⟨nofun, nofun⟩
  | bootstrap _ entered linked =>
      refine linked.push fun address method => ?_
      exact nomatch entered.ofMethod.symm.trans method
  | method installed _ entered linked => exact linked.push (installed.fits loaded entered)
  | evaluation _ member entered linked =>
      refine linked.push fun address method => ?_
      have ofBlock := entered.ofMethod.symm.trans method
      obtain ⟨unit, isUnit, rfl, context⟩ := linked.blocks _ member address ofBlock
      rw [ofBlock] at entered
      exact ⟨unit, rfl, entered.fits loaded isUnit context⟩
  | larger _ member larger linked =>
      refine linked.push fun address method => ?_
      obtain ⟨unit, atAddress, fits⟩ := linked.shapes _ member address method
      exact ⟨unit, atAddress, { fits with room := Nat.le_trans fits.room larger }⟩
  | block _ there method isCode literal isInner linked =>
      refine ⟨linked.shapes, fun block isBlock address' method' => ?_⟩
      rcases List.mem_append.mp isBlock with isBlock | isBlock
      · exact linked.blocks block isBlock address' method'
      · obtain rfl := List.mem_singleton.mp isBlock
        obtain ⟨rfl, rfl⟩ := MethodAddress.compiled.inj method'
        obtain ⟨outer, rfl, fits⟩ :=
          linked.shapes _ (List.mem_of_getElem? there) _ method
        obtain rfl := compiled_of_methodAt loaded fits.isUnit isCode
        obtain ⟨inner, isInner', atAddress, encloses⟩ :=
          encloses_of_literal fits.isUnit literal (methodAt_loaded loaded isInner)
        exact ⟨inner, isInner', atAddress, Or.inr ⟨_, rfl, outer, fits.isUnit, encloses, _, there,
          method⟩⟩

/-! ### Following contexts -/

variable {World Object : Type} {image : Image compilations World Object} {world : World}
  {state : State World Object}

/-- The frame at an address runs the code of the unit. -/
def IsActivation (source : Nat) (state : State World Object) (address : Nat) (unit : CodeUnit) :
    Prop :=
  ∃ frame, state.frames[address]? = some frame ∧ frame.method = .compiled source unit.address

theorem isActivation_iff {address : Nat} {unit : CodeUnit} :
    IsActivation source state address unit ↔
      Activates source state.layout.shapes address unit := by
  constructor
  · rintro ⟨frame, found, method⟩
    exact ⟨frame.shape, getElem?_shapes found, method⟩
  · rintro ⟨shape, found, method⟩
    rw [State.layout, List.getElem?_map, Option.map_eq_some_iff] at found
    obtain ⟨frame, found, rfl⟩ := found
    exact ⟨frame, found, method⟩

/-- An activation of a unit has its slots and its context. -/
theorem Linked.frame (linked : Linked definition source state.layout) {unit : CodeUnit}
    (isUnit : unit ∈ definition.generate.units) {address : Nat} {frame : Frame Object}
    (found : state.frames[address]? = some frame)
    (method : frame.method = .compiled source unit.address) :
    Fits definition source state.layout.shapes unit frame.shape := by
  have member : frame.shape ∈ state.layout.shapes := List.mem_of_getElem? (getElem?_shapes found)
  obtain ⟨unit', same, fits⟩ := linked.shapes frame.shape member unit.address method
  exact eq_of_address fits.isUnit isUnit same ▸ fits

/-- Following the contexts of an activation passes through activations of the
enclosing units. -/
theorem Linked.follow (linked : Linked definition source state.layout) (level : Nat) :
    ∀ {unit : CodeUnit} {address : Nat}, unit ∈ definition.generate.units →
      IsActivation source state address unit → level < (visibleScopes unit).length →
      ∃ far ∈ definition.generate.units, ∃ context, EnclosingAt definition level unit far ∧
        (visibleScopes unit)[level]? = some far.scope ∧
        (getContextLevel address level).run state = ⟨.ok context, state, []⟩ ∧
        IsActivation source state context far := by
  induction level with
  | zero =>
      intro unit address isUnit activation _
      exact ⟨unit, isUnit, address, .itself unit, rfl, getContextLevel_zero_run, activation⟩
  | succ level inductionHypothesis =>
      intro unit address isUnit ⟨frame, found, method⟩ inside
      have inner : level < unit.environment.scopes.length := Nat.lt_of_succ_lt_succ inside
      rcases (linked.frame isUnit found method).context with outermost | around
      · rw [outermost] at inner
        exact absurd inner (Nat.not_lt_zero _)
      · obtain ⟨next, isContext, outer, isOuter, encloses, activates⟩ := around
        have scopes : unit.environment.scopes = visibleScopes outer := by rw [encloses.2]; rfl
        rw [scopes] at inner
        obtain ⟨far, isFar, context, enclosing, scope, run, activation⟩ :=
          inductionHypothesis isOuter (isActivation_iff.mpr activates) inner
        refine ⟨far, isFar, context, .outside isOuter encloses enclosing, ?_, ?_, activation⟩
        · rw [← scope, ← scopes]
          rfl
        · rw [getContextLevel_succ_run found isContext, run]

/-! ### Variables -/

/-- An operand as the code carries it. -/
def operand (value : Nat) : Nat := (UInt8.ofNat value).toNat

/-- The slot of a frame that a variable found there has. -/
def position (slot : VariableSlot) (frame : Frame Object) : Nat :=
  if slot.isArgument then slot.index else frame.localOffset + slot.index

/-- How the bytecodes for a variable read it. -/
def readVariable (slot : VariableSlot) (address : Nat) : InterpreterM World Object (Value Object) :=
  if slot.isArgument then getArgument address (operand slot.index) (operand slot.context)
  else getLocal address (operand slot.index) (operand slot.context)

/-- How the bytecodes for a variable write it. -/
def writeVariable (slot : VariableSlot) (address : Nat) (value : Value Object) :
    InterpreterM World Object Unit :=
  if slot.isArgument then setArgument address (operand slot.index) (operand slot.context) value
  else setLocal address (operand slot.index) (operand slot.context) value

theorem operand_eq {value : Nat} (fits : value < 256) : operand value = value := by
  rw [operand, UInt8.toNat_ofNat']
  exact Nat.mod_eq_of_lt fits

/-- A variable's bytecodes use its slot of the frame that its level leads to. -/
theorem variable_run {slot : VariableSlot} {address context : Nat} {frame : Frame Object}
    (indexFits : slot.index < 256) (levelFits : slot.context < 256)
    (leads : (getContextLevel address slot.context).run state = ⟨.ok context, state, []⟩)
    (found : state.frames[context]? = some frame)
    (inside : position slot frame < frame.slots.length) :
    (∃ value, frame.slots[position slot frame]? = some value ∧
      (readVariable slot address).run state = ⟨.ok value, state, []⟩) ∧
      ∀ value, (writeVariable slot address value).run state =
        ⟨.ok (), { state with
          frames := state.frames.set context
            { frame with slots := frame.slots.set (position slot frame) value } }, []⟩ := by
  obtain ⟨old, there⟩ : ∃ old, frame.slots[position slot frame]? = some old :=
    ⟨_, List.getElem?_eq_getElem inside⟩
  rw [readVariable, operand_eq indexFits, operand_eq levelFits]
  refine ⟨⟨old, there, ?_⟩, fun value => ?_⟩
  · split
    · next isArgument =>
        rw [getArgument, Process.bind_of_silent leads]
        rw [position, if_pos isArgument] at there
        exact element_run found there
    · next isLocal =>
        rw [getLocal, Process.bind_of_silent leads, Process.bind_of_silent (readFrame_run found)]
        rw [position, if_neg isLocal] at there
        exact element_run found there
  · rw [writeVariable, operand_eq indexFits, operand_eq levelFits]
    split
    · next isArgument =>
        rw [setArgument, Process.bind_of_silent leads]
        rw [position, if_pos isArgument] at inside ⊢
        exact setElement_run value found inside
    · next isLocal =>
        rw [setLocal, Process.bind_of_silent leads, Process.bind_of_silent (readFrame_run found)]
        rw [position, if_neg isLocal] at inside ⊢
        exact setElement_run value found inside

/-- The scope declares the variable at the index, and no scope before it declares it. -/
def DeclaredInnermost (var : String) (scopes : List Scope) (slot : VariableSlot) (scope : Scope) :
    Prop :=
  (∀ nearer < slot.context, ∀ other, scopes[nearer]? = some other →
    var ∉ other.locals ∧ var ∉ other.arguments) ∧
    if slot.isArgument then var ∉ scope.locals ∧ scope.arguments.idxOf? var = some slot.index
    else scope.locals.idxOf? var = some slot.index

/-- In every reachable state, the contexts of an activation lead through activations
of the enclosing blocks to one of the method, and the index and level that
`FindVar` computed name the slot of the innermost declaration of the variable. -/
theorem lexicalAddressing (loaded : Loaded compilations definition source)
    (reachable : Reachable image world state) {unit : CodeUnit}
    (isUnit : unit ∈ definition.generate.units) {address : Nat}
    (activation : IsActivation source state address unit) :
    (∀ level < (visibleScopes unit).length, ∃ far context, EnclosingAt definition level unit far ∧
      (getContextLevel address level).run state = ⟨.ok context, state, []⟩ ∧
      IsActivation source state context far) ∧
    ∀ var slot, findVar var (visibleScopes unit) 0 = some slot → slot.index < 256 →
      slot.context < 256 → ∃ far context frame, EnclosingAt definition slot.context unit far ∧
        DeclaredInnermost var (visibleScopes unit) slot far.scope ∧
        (getContextLevel address slot.context).run state = ⟨.ok context, state, []⟩ ∧
        state.frames[context]? = some frame ∧ frame.method = .compiled source far.address ∧
        (∃ value, frame.slots[position slot frame]? = some value ∧
          (readVariable slot address).run state = ⟨.ok value, state, []⟩) ∧
        ∀ value, (writeVariable slot address value).run state =
          ⟨.ok (), { state with
            frames := state.frames.set context
              { frame with slots := frame.slots.set (position slot frame) value } }, []⟩ := by
  have linked : Linked definition source state.layout := (grown_of_reachable reachable).linked loaded
  refine ⟨fun level inside => ?_, fun var slot isSlot indexFits levelFits => ?_⟩
  · obtain ⟨far, -, context, enclosing, -, run, activates⟩ :=
      linked.follow level isUnit activation inside
    exact ⟨far, context, enclosing, run, activates⟩
  · obtain ⟨level, scope, isLevel, there, hidden, index⟩ := findVar_spec isSlot
    obtain rfl : slot.context = level := isLevel.trans (Nat.zero_add level)
    obtain ⟨inside, -⟩ := List.getElem?_eq_some_iff.mp there
    obtain ⟨far, isFar, context, enclosing, isScope, run, frame, found, method⟩ :=
      linked.follow slot.context isUnit activation inside
    obtain rfl : scope = far.scope := Option.some.inj (there.symm.trans isScope)
    have fits := linked.frame isFar found method
    have room : position slot frame < frame.slots.length := by
      have offset : frame.localOffset = far.scope.arguments.length := fits.localOffset
      have size : far.scope.arguments.length + far.scope.locals.length ≤ frame.slots.length :=
        fits.room
      rw [position]
      split at index
      · next isArgument =>
          obtain ⟨below, -⟩ := List.idxOf?_eq_some_iff.mp index.2
          rw [if_pos isArgument]
          omega
      · next isLocal =>
          obtain ⟨below, -⟩ := List.idxOf?_eq_some_iff.mp index
          rw [if_neg isLocal]
          omega
    obtain ⟨reads, writes⟩ := variable_run indexFits levelFits run found room
    exact ⟨far, context, frame, enclosing, ⟨hidden, index⟩, run, found, method, reads, writes⟩

end

/-! ### A block that uses an argument of its method -/

/-- `[ self ] value`. -/
def selfBlock : Body :=
  .last (.mk [] (.block [] none (.last (.mk [] (.name ⟨"self", by decide⟩) [] .done .done)))
    [⟨"value", by decide⟩] .done .done)

/-- The block in it. -/
def selfBlockUnit : CodeUnit :=
  ⟨true, (runUnit selfBlock).environment.enter (runUnit selfBlock).scope, blockScope [] none,
    blockSignature 1, 0, .last (.mk [] (.name ⟨"self", by decide⟩) [] .done .done)⟩

theorem selfBlockUnit_compiled : selfBlockUnit ∈ (runClass selfBlock).generate.units := by
  rw [units_runClass]
  exact List.mem_append_left _ (List.mem_singleton_self _)

def selfCompilations : List Compilation :=
  [⟨(runClass selfBlock).generate.objects, (runClass selfBlock).generate.classContext⟩]

theorem selfCompilations_loaded : Loaded selfCompilations (runClass selfBlock) 0 := by
  rw [Loaded, ofDefinition_eq]
  rfl

/-- Every object answers every message with the method, and every block with its value. -/
def selfImage : Image selfCompilations Unit Unit where
  nilObject := ()
  system := ()
  stackDepth := 1
  constant _ _ := .object ()
  symbol _ := .object ()
  lookupInvokable _ receiver _ :=
    match receiver with
    | .object _ => some (.method ⟨0, 1, _, rfl, Or.inl (by decide)⟩)
    | .block _ => some (.evaluation 1)
    | .frame _ => none
  lookupSuper _ _ _ := none
  getField _ _ _ := none
  setField world _ _ _ := some world
  getGlobal _ _ := none
  setGlobal world _ _ := world
  newArray world _ := (world, .object ())
  setBlockClass state _ _ := some state.world

/-- The state in which the block has just been entered. -/
def selfState : State Unit Unit := ((round selfImage).run ((round selfImage).run
  ((universeInitialize selfImage (.object ())).run { world := () }).state).state).state

theorem selfState_reachable : Reachable selfImage () selfState :=
  .round (.round (.program _ (by decide +kernel)) (by decide +kernel)) (by decide +kernel)

theorem selfState_activation : IsActivation 0 selfState 2 selfBlockUnit := by
  refine ⟨_, Option.some_get (by decide +kernel) |>.symm, ?_⟩
  decide +kernel

/-- In the block, `self` is the first argument of the frame one context outside. -/
theorem lexicalAddressing_self : ∃ far context frame,
    EnclosingAt (runClass selfBlock) 1 selfBlockUnit far ∧
      (getContextLevel 2 1).run selfState = ⟨.ok context, selfState, []⟩ ∧
      selfState.frames[context]? = some frame ∧ frame.method = .compiled 0 far.address ∧
      ∃ value, frame.slots[0]? = some value ∧
        (readVariable ⟨0, 1, true⟩ 2).run selfState = ⟨.ok value, selfState, []⟩ := by
  obtain ⟨far, context, frame, enclosing, -, run, found, method, read, -⟩ :=
    (lexicalAddressing selfCompilations_loaded selfState_reachable selfBlockUnit_compiled
      selfState_activation).2 "self" ⟨0, 1, true⟩ (by decide) (by decide) (by decide)
  exact ⟨far, context, frame, enclosing, run, found, method, read⟩

end Somr.Interpreter
