import Somr.Compiler.ArgumentCounts
import Somr.Compiler.LexerCalls
import Somr.Interpreter.LexicalAddressing
import Somr.Interpreter.Rounds

/-!
Owns the three ranges of a frame: the arguments that its method declares, the
locals behind them, and the operand stack behind the locals.

The ranges follow from the argument counts of the compiler. The accesses that
`FindVar` has computed stay out of the operand stack as long as the frame their
level operand leads to is the one of the variable, or has as many slots.
-/

namespace Somr.Interpreter

open Foundation Compiler

section

variable {compilations : List Compilation} {definition : ClassDefinition} {source : Nat}
  {World Object : Type} {image : Image compilations World Object} {world : World}
  {state : State World Object}

/-! ### Ranges -/

/-- The first slot of the operand stack, where the method resets the stack pointer to. -/
def Frame.stackBegin (method : CompiledMethod) (frame : Frame Object) : Int :=
  (frame.resetStackPointer method).stackPointer + 1

/-- The arguments end where the locals begin, the locals where the operand stack
begins, and all of them are slots of the frame. -/
structure Frame.HasRanges (frame : Frame Object) (method : CompiledMethod) (scope : Scope) :
    Prop where
  arguments : numberOfArguments method = scope.arguments.length
  localsBegin : frame.localOffset = scope.arguments.length
  stackBegin : frame.stackBegin method = frame.localOffset + scope.locals.length
  room : frame.localOffset + scope.locals.length ≤ frame.slots.length

/-- The slot that the bytecodes for a variable access in the frame they reach. -/
def accessedSlot (slot : VariableSlot) (frame : Frame Object) : Nat :=
  if slot.isArgument then operand slot.index else frame.localOffset + operand slot.index

/-- From an activation, the bytecodes for a variable access the operand stack. -/
def TouchesStack (compilations : List Compilation) (state : State World Object) (address : Nat)
    (slot : VariableSlot) : Prop :=
  ∃ context frame method, (getContextLevel address (operand slot.context)).run state =
      ⟨.ok context, state, []⟩ ∧ state.frames[context]? = some frame ∧
    methodAt compilations frame.method = some method ∧
    frame.stackBegin method ≤ accessedSlot slot frame

/-- The scope has a slot at the index operand. -/
def HasSlot (slot : VariableSlot) (scope : Scope) : Prop :=
  if slot.isArgument then operand slot.index < scope.arguments.length + scope.locals.length
  else operand slot.index < scope.locals.length

/-- The scope that the level operand leads to has a slot at the index operand. -/
def LeadsToSlot (slot : VariableSlot) (scopes : List Scope) : Prop :=
  ∃ scope, scopes[operand slot.context]? = some scope ∧ HasSlot slot scope

theorem operand_le (value : Nat) : operand value ≤ value := by
  rw [operand, UInt8.toNat_ofNat']
  exact Nat.mod_le _ _

/-- A level below 256 leads to the scope that declares the variable. -/
theorem leadsToSlot_of_level {var : String} {scopes : List Scope} {slot : VariableSlot}
    (found : findVar var scopes 0 = some slot) (levelFits : slot.context < 256) :
    LeadsToSlot slot scopes := by
  obtain ⟨level, scope, isLevel, there, -, index⟩ := findVar_spec found
  have sameLevel : operand slot.context = level := by
    rw [operand_eq levelFits, isLevel, Nat.zero_add]
  refine ⟨scope, sameLevel ▸ there, ?_⟩
  have smaller := operand_le slot.index
  unfold HasSlot
  split at index
  · next isArgument =>
      obtain ⟨below, -⟩ := List.idxOf?_eq_some_iff.mp index.2
      rw [if_pos isArgument]
      omega
  · next isLocal =>
      obtain ⟨below, -⟩ := List.idxOf?_eq_some_iff.mp index
      rw [if_neg isLocal]
      omega

/-! ### Activations -/

/-- The method object of a unit. -/
theorem methodAt_unit (loaded : Loaded compilations definition source)
    {unit : CodeUnit}
    (isUnit : unit ∈ definition.generate.units) :
    methodAt compilations (.compiled source unit.address) = some unit.mgenc.compiled := by
  have placed : definition.generate.objects[unit.address]? =
      some (.method unit.mgenc.compiled) := (located_units definition unit isUnit).placed
  rw [methodAt, loaded, ofDefinition_eq, Option.bind_some]
  dsimp only
  rw [placed]

/-- Every activation of a unit has the ranges of its scope. -/
theorem Linked.hasRanges (linked : Linked definition source state.layout)
    (loaded : Loaded compilations definition source) {unit : CodeUnit}
    (isUnit : unit ∈ definition.generate.units) {address : Nat} {frame : Frame Object}
    (found : state.frames[address]? = some frame)
    (ofUnit : frame.method = .compiled source unit.address) :
    ∃ method, methodAt compilations frame.method = some method ∧
      frame.HasRanges method unit.scope := by
  have fits := linked.frame isUnit found ofUnit
  have offset : frame.localOffset = unit.scope.arguments.length := fits.localOffset
  have room : unit.scope.arguments.length + unit.scope.locals.length ≤ frame.slots.length :=
    fits.room
  have code : methodAt compilations frame.method = some unit.mgenc.compiled := by
    rw [ofUnit]
    exact methodAt_unit loaded isUnit
  have arguments : numberOfArguments unit.mgenc.compiled = unit.scope.arguments.length := by
    rw [numberOfArguments, MethodGenerationContext.compiled, unit.mgenc_signature]
    exact (unitsNested_class definition).counts unit isUnit
  have locals : unit.mgenc.compiled.numberOfLocals = unit.scope.locals.length :=
    congrArg List.length unit.mgenc_locals
  refine ⟨unit.mgenc.compiled, code, arguments, offset, ?_, by omega⟩
  rw [Frame.stackBegin, Frame.resetStackPointer]
  dsimp only
  omega

/-- The accesses from an activation stay out of the operand stack exactly where the
scope that their level operand leads to has the slot. -/
theorem Linked.touchesStack_iff (linked : Linked definition source state.layout)
    (loaded : Loaded compilations definition source) {unit : CodeUnit}
    (isUnit : unit ∈ definition.generate.units) {address : Nat}
    (activation : IsActivation source state address unit) {var : String} {slot : VariableSlot}
    (found : findVar var (visibleScopes unit) 0 = some slot) :
    ¬ TouchesStack compilations state address slot ↔ LeadsToSlot slot (visibleScopes unit) := by
  have inside : operand slot.context < (visibleScopes unit).length := by
    obtain ⟨level, scope, isLevel, there, -⟩ := findVar_spec found
    obtain ⟨below, -⟩ := List.getElem?_eq_some_iff.mp there
    have smaller := operand_le slot.context
    omega
  obtain ⟨far, isFar, context, -, scope, run, frame, isFrame, ofFar⟩ :=
    linked.follow (operand slot.context) isUnit activation inside
  obtain ⟨method, code, ranges⟩ := linked.hasRanges loaded isFar isFrame ofFar
  have begins := ranges.stackBegin
  have localsBegin := ranges.localsBegin
  have accesses : accessedSlot slot frame < frame.stackBegin method ↔ HasSlot slot far.scope := by
    unfold accessedSlot HasSlot
    split <;> omega
  have leads : LeadsToSlot slot (visibleScopes unit) ↔ HasSlot slot far.scope := by
    constructor
    · intro ⟨scope', there, has⟩
      rw [scope] at there
      exact Option.some.inj there ▸ has
    · exact fun has => ⟨far.scope, scope, has⟩
  rw [leads, ← accesses]
  constructor
  · intro avoids
    by_contra reaches
    exact avoids ⟨context, frame, method, run, isFrame, code, Int.not_lt.mp reaches⟩
  · intro below ⟨context', frame', method', run', isFrame', code', reaches⟩
    rw [run, Outcome.mk.injEq] at run'
    obtain rfl := Except.ok.inj run'.1
    obtain rfl := Option.some.inj (isFrame.symm.trans isFrame')
    obtain rfl := Option.some.inj (code.symm.trans code')
    exact absurd below (Int.not_lt.mpr reaches)

end

/-- Patterns and block headers that are accepted declare as many arguments as their
signature counts. In every activation the arguments, the locals and the operand stack
are three ranges of the frame, one behind the other, and the access of a variable stays
out of the operand stack if and only if the scope that its level operand leads to has a
slot at its index operand. -/
theorem frameRanges_iff {compilations : List Compilation} {World Object : Type}
    {image : Image compilations World Object} {world : World} {state : State World Object}
    (reachable : Reachable image world state) {definition : ClassDefinition} {source : Nat}
    (loaded : Loaded compilations definition source) :
    (∀ (parser after : Parser) (calls : Nat), parser.ReadsDelivered →
      parser.current.sym.startsMessage = true →
      parser.contexts = [{ toScope := { arguments := ["self"] } }] →
      (Parser.pattern calls).run parser = ⟨.ok (), after, []⟩ →
      Signature.getNumberOfArguments after.mgenc.signature = after.mgenc.arguments.length) ∧
    (∀ (parser after : Parser) (calls : Nat) (outer : List MethodGenerationContext),
      parser.contexts = { blockMethod := true } :: outer →
      (Parser.blockHeader calls).run parser = ⟨.ok (), after, []⟩ →
      Signature.getNumberOfArguments after.mgenc.signature = after.mgenc.arguments.length) ∧
    ∀ unit ∈ definition.generate.units, ∀ (address : Nat) (frame : Frame Object),
      state.frames[address]? = some frame → frame.method = .compiled source unit.address →
      (∃ method, methodAt compilations frame.method = some method ∧
        frame.HasRanges method unit.scope) ∧
      ∀ var slot, findVar var (visibleScopes unit) 0 = some slot →
        (¬ TouchesStack compilations state address slot ↔
          LeadsToSlot slot (visibleScopes unit)) := by
  refine ⟨fun parser after calls reads starts isNew ran => ?_,
    fun parser after calls outer isNew ran => ?_,
    fun unit isUnit address frame found ofUnit => ?_⟩
  · exact Parser.pattern_counts reads starts isNew ran
  · exact Parser.blockHeader_counts isNew ran
  · have linked : Linked definition source state.layout :=
      (grown_of_reachable reachable).linked loaded
    refine ⟨linked.hasRanges loaded isUnit found ofUnit, fun var slot isSlot => ?_⟩
    exact linked.touchesStack_iff loaded isUnit ⟨frame, found, ofUnit⟩ isSlot

/-- The lexer delivers the first token of every text. -/
theorem delivered_of_nextToken {text behind : List Char} {token : Token}
    (called : nextToken text = .ok (token, behind)) : token.Delivered := by
  have call := (Lexer.remaining_new text Lexer.zeroed).getSym
  rw [nextToken_blank text (by decide), called] at call
  obtain ⟨after, same, shown, -⟩ := call
  exact ⟨_, after, rfl, same, shown⟩

/-- The parser at `foo: a bar: a`. -/
def patternParser : Parser where
  contexts := [{ toScope := { arguments := ["self"] } }]
  tokens := [⟨.keyword, "foo:"⟩, ⟨.identifier, "a"⟩, ⟨.keyword, "bar:"⟩, ⟨.identifier, "a"⟩]

theorem patternParser_readsDelivered : patternParser.ReadsDelivered := by
  have foo : Token.Delivered ⟨.keyword, "foo:"⟩ :=
    delivered_of_nextToken (nextToken_begins (.other 'f' ['o', 'o', ':'] rfl (by decide)))
  have bar : Token.Delivered ⟨.keyword, "bar:"⟩ :=
    delivered_of_nextToken (nextToken_begins (.other 'b' ['a', 'r', ':'] rfl (by decide)))
  have a : Token.Delivered ⟨.identifier, "a"⟩ := delivered_of_nextToken nextToken_a
  simp [patternParser, Parser.ReadsDelivered, foo, bar, a]

/-- The parser in front of `:x |`. -/
def headerParser : Parser where
  contexts := [{ blockMethod := true }]
  tokens := [⟨.newBlock, "["⟩, ⟨.colon, ":"⟩, ⟨.identifier, "x"⟩, ⟨.or, "|"⟩]

theorem frameRanges_self :
    Signature.getNumberOfArguments "foo:bar:" = 3 ∧
      Signature.getNumberOfArguments (blockSignature 2) = 2 ∧
      ∃ frame, selfState.frames[2]? = some frame ∧
        (∃ method, methodAt selfCompilations frame.method = some method ∧
          frame.HasRanges method selfBlockUnit.scope) ∧
        ¬ TouchesStack selfCompilations selfState 2 ⟨0, 1, true⟩ := by
  have ⟨ofPattern, ofHeader, ofActivation⟩ :=
    frameRanges_iff selfState_reachable selfCompilations_loaded
  have pattern := ofPattern patternParser
    ((Parser.pattern 2).run patternParser).state 2 patternParser_readsDelivered rfl rfl rfl
  have header := ofHeader headerParser
    ((Parser.blockHeader 2).run headerParser).state 2 [] rfl rfl
  obtain ⟨frame, found, ofUnit⟩ := selfState_activation
  obtain ⟨ranges, accesses⟩ :=
    ofActivation selfBlockUnit selfBlockUnit_compiled 2 frame found ofUnit
  have isSelf : findVar "self" (visibleScopes selfBlockUnit) 0 = some ⟨0, 1, true⟩ := by decide
  refine ⟨pattern, header, frame, found, ranges, ?_⟩
  exact (accesses "self" ⟨0, 1, true⟩ isSelf).mpr (leadsToSlot_of_level isSelf (by decide))

/-! ### Blocks that are evaluated where they stand -/

theorem lexical_value :
    Signature.isBinary "value" = false ∧ "value".toList.count ':' = 0 := by decide

/-- `[ locals inner ] value`. -/
def evaluated (locals : Option (List Identifier)) (inner : Body) : Body :=
  .last (.mk [] (.block [] locals inner) [⟨"value", lexical_value⟩] .done .done)

/-- The block in such a body, when no object is compiled before the body. -/
def evaluatedUnit (unit : CodeUnit) (locals : Option (List Identifier)) (inner : Body) :
    CodeUnit :=
  ⟨true, unit.environment.enter unit.scope, blockScope [] locals, blockSignature 1, 0, inner⟩

section

variable {unit : CodeUnit} {locals : Option (List Identifier)} {inner : Body}

theorem generated_evaluated (isBody : unit.body = evaluated locals inner) (atStart : unit.base = 0) :
    unit.generated = ⟨[.addLiteral (.object (evaluatedUnit unit locals inner).address),
        .emit (.pushBlock (.object (evaluatedUnit unit locals inner).address)),
        .addLiteralIfAbsent (.symbol "value"), .emit (.send (.symbol "value"))] ++
          unit.body.closing unit.block,
      (evaluatedUnit unit locals inner).generated.objects ++
        [.method (evaluatedUnit unit locals inner).mgenc.compiled],
      (evaluatedUnit unit locals inner).generated.blocks ++
        [evaluatedUnit unit locals inner]⟩ := by
  obtain ⟨block, environment, scope, signature, base, body⟩ := unit
  obtain rfl : body = evaluated locals inner := isBody
  obtain rfl : base = 0 := atStart
  simp only [CodeUnit.generated, evaluated, Body.generate, Expression.generate, Generator.andThen,
    Primary.generate, Generator.actions, unaryActions, Binaries.generate, Keywords.generate,
    Keywords.sendActions, assignActions, List.map_nil, List.flatMap_nil, List.append_nil,
    List.nil_append, sendInstruction, Primary.isSuper, evaluatedUnit, CodeUnit.address,
    CodeUnit.mgenc, List.length_nil, Nat.zero_add, Nat.add_zero, Bool.false_eq_true, if_false,
    List.cons_append]

/-- The code of such a body begins with the block and the send. -/
theorem code_evaluated (isBody : unit.body = evaluated locals inner) (atStart : unit.base = 0) :
    unit.mgenc.literals = [.object (evaluatedUnit unit locals inner).address, .symbol "value"] ∧
      unit.mgenc.bytecode = [Bytecode.pushBlock, 0, Bytecode.send, 1] ++
        (if unit.block then [Bytecode.returnLocal]
          else [Bytecode.pop, Bytecode.pushArgument, 0, 0, Bytecode.returnLocal]) := by
  rw [CodeUnit.mgenc, generated_evaluated isBody atStart, isBody]
  generalize (evaluatedUnit unit locals inner).address = address
  cases unit.block with
  | true =>
      simp [MethodGenerationContext.perform, Action.apply, MethodGenerationContext.addLiteral,
        MethodGenerationContext.addLiteralIfAbsent, MethodGenerationContext.opened,
        Instruction.emit, BytecodeGenerator.emitPUSHBLOCK, BytecodeGenerator.emitSEND,
        BytecodeGenerator.emitLiteral, BytecodeGenerator.emitRETURNLOCAL, BytecodeGenerator.emit1,
        BytecodeGenerator.emit2, MethodGenerationContext.addBytecode, Body.closing, evaluated,
        Body.endsOpen, MethodGenerationContext.findLiteralIndex,
        MethodGenerationContext.indexOfLiteral, List.idxOf?, List.findIdx?, List.findIdx?.go]
      decide
  | false =>
      simp [MethodGenerationContext.perform, Action.apply, MethodGenerationContext.addLiteral,
        MethodGenerationContext.addLiteralIfAbsent, MethodGenerationContext.opened,
        Instruction.emit, BytecodeGenerator.emitPUSHBLOCK, BytecodeGenerator.emitSEND,
        BytecodeGenerator.emitLiteral, BytecodeGenerator.emitRETURNLOCAL, BytecodeGenerator.emit1,
        BytecodeGenerator.emit2, BytecodeGenerator.emit3, BytecodeGenerator.emitPOP,
        BytecodeGenerator.emitPUSHARGUMENT, MethodGenerationContext.addBytecode, Body.closing,
        evaluated, Body.endsOpen, MethodGenerationContext.findLiteralIndex,
        MethodGenerationContext.indexOfLiteral, List.idxOf?, List.findIdx?, List.findIdx?.go]
      decide

/-- Such a body needs one stack element. -/
theorem reserves_evaluated (isBody : unit.body = evaluated locals inner) (atStart : unit.base = 0) :
    unit.mgenc.compiled.maximumNumberOfStackElements = some 1 := by
  obtain ⟨literals, bytecode⟩ := code_evaluated isBody atStart
  rw [MethodGenerationContext.compiled, MethodGenerationContext.computeStackDepth, literals,
    bytecode]
  cases unit.block <;> rfl

end

section

variable {compilations : List Compilation} {definition : ClassDefinition} {source : Nat}
  {World Object : Type} {image : Image compilations World Object} {state : State World Object}
  {unit : CodeUnit} {address : Nat}

/-- The interpreter is at the beginning of an activation of the unit, and its operand
stack has room. -/
structure Starts (compilations : List Compilation) (source : Nat) (state : State World Object)
    (address : Nat) (unit : CodeUnit) : Prop where
  executes : ∃ view, Executes compilations state address view unit.mgenc.compiled ∧
    view.method = .compiled source unit.address ∧ view.bytecodeIndex = 0 ∧
    view.values.length < view.size

theorem Starts.isActivation (starts : Starts compilations source state address unit) :
    IsActivation source state address unit := by
  obtain ⟨view, ⟨-, ⟨frame, found, shown⟩, -⟩, ofUnit, -⟩ := starts.executes
  exact ⟨frame, found, shown.method.trans ofUnit⟩

/-- Blocks understand `value`, and a class is found for every new block. -/
structure EvaluatesBlocks (image : Image compilations World Object) : Prop where
  deep : 0 < image.stackDepth
  value : ∀ later address, image.lookupInvokable later (.block address) "value" =
    some (.evaluation 1)
  makes : ∀ later : State World Object,
    ∃ world, image.setBlockClass later later.blocks.length 1 = some world

/-- From the beginning of a body that evaluates a block, the interpreter gets to the
beginning of the block. -/
theorem Starts.evaluated (starts : Starts compilations source state address unit)
    (evaluates : EvaluatesBlocks image) (loaded : Loaded compilations definition source)
    (isUnit : unit ∈ definition.generate.units) {locals : Option (List Identifier)} {inner : Body}
    (isBody : unit.body = Interpreter.evaluated locals inner) (atStart : unit.base = 0)
    (reserves : (evaluatedUnit unit locals inner).mgenc.compiled.maximumNumberOfStackElements =
      some 1) :
    evaluatedUnit unit locals inner ∈ definition.generate.units ∧
      ∃ next callee, Run image state next ∧
        Starts compilations source next callee (evaluatedUnit unit locals inner) := by
  have isInner : evaluatedUnit unit locals inner ∈ definition.generate.units := by
    apply (unitsNested_class definition).closed unit isUnit
    rw [generated_evaluated isBody atStart]
    exact List.mem_append_right _ (List.mem_singleton_self _)
  refine ⟨isInner, ?_⟩
  obtain ⟨view, executes, ofUnit, first, room⟩ := starts.executes
  obtain ⟨literals, bytecode⟩ := code_evaluated isBody atStart
  have isCode := methodAt_unit loaded isInner
  have counts : numberOfArguments (evaluatedUnit unit locals inner).mgenc.compiled = 1 := by
    rw [numberOfArguments, MethodGenerationContext.compiled, CodeUnit.mgenc_signature]
    exact getNumberOfArguments_blockSignature 0
  have block : Reads unit.mgenc.compiled view.bytecodeIndex [Bytecode.pushBlock, 0] := by
    rw [first, Reads, MethodGenerationContext.compiled, bytecode]
    exact List.prefix_append _ _
  obtain ⟨frame, world, shown, pushed⟩ := executes.atPushBlock image block ofUnit
    (by rw [MethodGenerationContext.compiled, literals]; rfl) isCode
    (by rw [counts]; exact evaluates.makes) room
  let pushedState := (state.put address frame).withBlock
    ⟨.compiled source (evaluatedUnit unit locals inner).address, address⟩ world
  have sending : Executes compilations pushedState address
      ((view.goOn 2).push (.block state.blocks.length)) unit.mgenc.compiled :=
    ⟨executes.running, executes.shows.put shown, executes.code⟩
  have message : Reads unit.mgenc.compiled
      ((view.goOn 2).push (.block state.blocks.length)).bytecodeIndex [Bytecode.send, 1] := by
    have index : ((view.goOn 2).push (Value.block state.blocks.length)).bytecodeIndex = 2 :=
      congrArg (· + 2) first
    rw [index, Reads, MethodGenerationContext.compiled, bytecode]
    exact List.prefix_append _ _
  obtain ⟨sent, shownSent, invokes⟩ := sending.atSend image message
    (by rw [MethodGenerationContext.compiled, literals]; rfl) rfl
    (show Signature.getNumberOfArguments "value" = 1 by decide) rfl fun later => evaluates.value later _
  have shows : (pushedState.put address sent).Shows address
      (((view.goOn 2).push (.block state.blocks.length)).goOn 2) := sending.shows.put shownSent
  have isBlock : (pushedState.put address sent).blocks[state.blocks.length]? =
      some ⟨.compiled source (evaluatedUnit unit locals inner).address, address⟩ :=
    List.getElem?_concat_length
  obtain ⟨callee, worldLater, entered, shownCallee⟩ :=
    evaluationRoutine_run image shows rfl rfl rfl isBlock isCode
      (by rw [reserves]; rfl) counts
  refine ⟨(pushedState.put address sent).enter callee worldLater,
    (pushedState.put address sent).frames.length, ?_, ?_⟩
  · refine .round pushed (.one ?_)
    rw [invokes, invoke_evaluation evaluates.deep]
    exact entered
  · refine ⟨_, ⟨rfl, ⟨callee, State.enter_found _ _ _, shownCallee⟩, isCode⟩, rfl, rfl, ?_⟩
    rw [enteredView, reserves]
    simp

end

/-! ### A variable 256 blocks away -/

theorem lexical_a : Signature.isBinary "a" = false ∧ "a".toList.count ':' = 0 := by decide

/-- Blocks nested so deep around a variable. -/
def nestedBlocks : Nat → Body
  | 0 => .last (.mk [] (.name ⟨"a", lexical_a⟩) [] .done .done)
  | depth + 1 => evaluated none (nestedBlocks depth)

/-- The innermost block in a unit whose body nests so many. -/
def innermostUnit : CodeUnit → Nat → CodeUnit
  | unit, 0 => unit
  | unit, depth + 1 => innermostUnit (evaluatedUnit unit none (nestedBlocks depth)) depth

theorem findVar_nested (scopes : List Scope) (depth first : Nat) :
    findVar "a" (List.replicate depth (blockScope [] none) ++ scopes) first =
      findVar "a" scopes (first + depth) := by
  induction depth generalizing first with
  | zero => rfl
  | succ depth inductionHypothesis =>
      have further : first + (depth + 1) = first + 1 + depth := by omega
      rw [further, ← inductionHypothesis (first + 1)]
      rfl

theorem visibleScopes_innermostUnit (unit : CodeUnit) (depth : Nat) :
    visibleScopes (innermostUnit unit depth) =
      List.replicate depth (blockScope [] none) ++ visibleScopes unit := by
  induction depth generalizing unit with
  | zero => rfl
  | succ depth inductionHypothesis =>
      rw [innermostUnit, inductionHypothesis, List.replicate_succ', List.append_assoc]
      rfl

theorem body_innermostUnit {unit : CodeUnit} {depth : Nat}
    (isBody : unit.body = nestedBlocks depth) :
    (innermostUnit unit depth).body = nestedBlocks 0 := by
  induction depth generalizing unit with
  | zero => exact isBody
  | succ depth inductionHypothesis => exact inductionHypothesis rfl

theorem block_innermostUnit {unit : CodeUnit} (isBlock : unit.block = true) (depth : Nat) :
    (innermostUnit unit depth).block = true := by
  induction depth generalizing unit with
  | zero => exact isBlock
  | succ depth inductionHypothesis => exact inductionHypothesis rfl

/-- What is compiled for a body that consists of a local variable. -/
theorem reserves_variable {unit : CodeUnit} (isBody : unit.body = nestedBlocks 0)
    (isBlock : unit.block = true) {context : Nat}
    (found : findVar "a" (visibleScopes unit) 0 = some ⟨0, context, false⟩) :
    unit.mgenc.compiled.maximumNumberOfStackElements = some 1 := by
  have actions : unit.generated.actions =
      [.emit (.pushLocal 0 context), .emit .returnLocal] := by
    have pushed : pushVariable (unit.environment.enter unit.scope) "a" =
        [.emit (.pushLocal 0 context)] := by
      rw [pushVariable, show (unit.environment.enter unit.scope).scopes = visibleScopes unit from rfl,
        found]
    rw [CodeUnit.generated, isBody, isBlock]
    simp only [nestedBlocks, Body.generate, Expression.generate, Generator.andThen,
      Primary.generate, Generator.actions, unaryActions, Binaries.generate, Keywords.generate,
      Keywords.sendActions, assignActions, List.map_nil, List.flatMap_nil, List.append_nil,
      List.nil_append, Body.closing, Body.endsOpen, if_true]
    rw [if_neg (by decide), pushed]
    rfl
  rw [MethodGenerationContext.compiled, CodeUnit.mgenc, actions]
  rfl

section

variable {compilations : List Compilation} {definition : ClassDefinition} {source : Nat}
  {World Object : Type} {image : Image compilations World Object} {state : State World Object}

/-- The interpreter enters blocks nested to any depth. -/
theorem Starts.innermost (evaluates : EvaluatesBlocks image)
    (loaded : Loaded compilations definition source) (depth : Nat) :
    ∀ {state : State World Object} {address : Nat} {unit : CodeUnit},
      Starts compilations source state address unit → unit ∈ definition.generate.units →
      unit.body = nestedBlocks depth → unit.base = 0 → unit.block = true →
      (innermostUnit unit depth).mgenc.compiled.maximumNumberOfStackElements = some 1 →
      innermostUnit unit depth ∈ definition.generate.units ∧
        ∃ next callee, Run image state next ∧
          Starts compilations source next callee (innermostUnit unit depth) := by
  induction depth with
  | zero =>
      intro state address unit starts isUnit _ _ _ _
      exact ⟨isUnit, state, address, .done state, starts⟩
  | succ depth inductionHypothesis =>
      intro state address unit starts isUnit isBody atStart _ reserves
      have reservesInner : (evaluatedUnit unit none
          (nestedBlocks depth)).mgenc.compiled.maximumNumberOfStackElements = some 1 := by
        cases depth with
        | zero => exact reserves
        | succ depth => exact reserves_evaluated rfl rfl
      obtain ⟨isInner, next, callee, run, startsInner⟩ :=
        starts.evaluated evaluates loaded isUnit isBody atStart reservesInner
      obtain ⟨isInnermost, last, innermost, runLater, startsInnermost⟩ :=
        inductionHypothesis startsInner isInner rfl rfl rfl reserves
      exact ⟨isInnermost, last, innermost, run.trans runLater, startsInnermost⟩

end

/-- `[ | a | inner ] value`. -/
def declaringBody (inner : Body) : Body := evaluated (some [⟨"a", lexical_a⟩]) inner

def declaringCompilation (inner : Body) : Compilation :=
  ⟨(runClass (declaringBody inner)).generate.objects,
    (runClass (declaringBody inner)).generate.classContext⟩

theorem declaringCompilation_loaded (inner : Body) :
    Loaded [declaringCompilation inner] (runClass (declaringBody inner)) 0 := by
  rw [Loaded, ofDefinition_eq]
  rfl

def declaringMethod (inner : Body) : InstalledMethod [declaringCompilation inner] where
  compilation := 0
  address := (runUnit (declaringBody inner)).address
  source := declaringCompilation inner
  compiled := rfl
  installed := Or.inl (List.mem_singleton_self _)

/-- Every object answers every message with the method, and every block with its value. -/
def declaringImage (inner : Body) : Image [declaringCompilation inner] Unit Unit where
  nilObject := ()
  system := ()
  stackDepth := 1
  constant _ _ := .object ()
  symbol _ := .object ()
  lookupInvokable _ receiver _ :=
    match receiver with
    | .object _ => some (.method (declaringMethod inner))
    | .block _ => some (.evaluation 1)
    | .frame _ => none
  lookupSuper _ _ _ := none
  getField _ _ _ := none
  setField world _ _ _ := some world
  getGlobal _ _ := none
  setGlobal world _ _ := world
  newArray world _ := (world, .object ())
  setBlockClass state _ _ := some state.world

theorem declaringImage_evaluates (inner : Body) : EvaluatesBlocks (declaringImage inner) :=
  ⟨Nat.one_pos, fun _ _ => rfl, fun later => ⟨later.world, rfl⟩⟩

/-- The program begins with the method. -/
theorem declaringImage_starts (inner : Body) :
    ∃ state address, Reachable (declaringImage inner) () state ∧
      Starts [declaringCompilation inner] 0 state address (runUnit (declaringBody inner)) := by
  obtain ⟨start, isStart⟩ : ∃ start : State Unit Unit, start = { world := () } := ⟨_, rfl⟩
  obtain ⟨frame, world, entered, shown⟩ := pushNewFrame_run (declaringImage inner)
    (show methodAt [declaringCompilation inner] .bootstrap = some bootstrapMethod from rfl) rfl
  have bootstrapped : Executes [declaringCompilation inner] (start.enter frame world)
      start.frames.length _ bootstrapMethod :=
    ⟨rfl, ⟨frame, State.enter_found _ _ _, shown⟩, rfl⟩
  obtain ⟨first, shownFirst, pushedFirst⟩ :=
    bootstrapped.pushes (.object (declaringImage inner).system) (show 1 < 3 by decide)
  have withSystem := bootstrapped.put shownFirst rfl
  obtain ⟨second, shownSecond, pushedSecond⟩ :=
    withSystem.pushes (.object ()) (show 2 < 3 by decide)
  have withArguments := withSystem.put shownSecond rfl
  have isCode := methodAt_unit (declaringCompilation_loaded inner)
    (runUnit_compiled (declaringBody inner))
  have reserves :
      (runUnit (declaringBody inner)).mgenc.compiled.maximumNumberOfStackElements = some 1 :=
    reserves_evaluated rfl rfl
  have counts : numberOfArguments (runUnit (declaringBody inner)).mgenc.compiled = 1 := by
    rw [numberOfArguments, MethodGenerationContext.compiled, CodeUnit.mgenc_signature]
    exact (show Signature.getNumberOfArguments "run" = 1 by decide)
  obtain ⟨callee, worldLater, invoked, shownCallee⟩ := invokeMethod_run (declaringImage inner)
    withArguments.shows rfl isCode (by rw [reserves]; rfl) counts
  have understands : ∀ later, (declaringImage inner).lookupInvokable later
      (.object (declaringImage inner).system) "initialize:" =
        some (.method (declaringMethod inner)) := fun _ => rfl
  have initialized : (universeInitialize (declaringImage inner) (.object ())).run start =
      ⟨.ok (), (((start.enter frame world).put start.frames.length first).put start.frames.length
        second).enter callee worldLater, []⟩ := by
    rw [universeInitialize, Process.bind_of_silent entered, enter,
      Process.bind_of_silent pushedFirst, Process.bind_of_silent pushedSecond,
      Process.bind_of_silent (Process.run_read _), understands, Process.demand_some,
      Process.pure_bind, invoke_method (declaringImage_evaluates inner).deep]
    exact invoked
  have ended : ((universeInitialize (declaringImage inner) (.object ())).run start).result =
      .ok () := congrArg Outcome.result initialized
  have reachable : Reachable (declaringImage inner) ()
      ((universeInitialize (declaringImage inner) (.object ())).run start).state := by
    subst isStart
    exact .program (.object ()) ended
  rw [initialized] at reachable
  refine ⟨_, _, reachable, _, ⟨rfl, ⟨callee, State.enter_found _ _ _, shownCallee⟩, isCode⟩, rfl,
    rfl, ?_⟩
  rw [enteredView, reserves]
  simp

/-- The level 256 becomes 0, and the access of a local of another frame is one of the
operand stack of the frame itself. -/
theorem level_touches_stack : ¬ ∀ (compilations : List Compilation) (World Object : Type)
    (image : Image compilations World Object) (world : World) (state : State World Object),
    Reachable image world state → ∀ (definition : ClassDefinition) (source : Nat),
    Loaded compilations definition source → ∀ unit ∈ definition.generate.units,
    ∀ address, IsActivation source state address unit →
    ∀ var slot, findVar var (visibleScopes unit) 0 = some slot →
      ¬ TouchesStack compilations state address slot := by
  intro avoids
  have loaded := declaringCompilation_loaded (nestedBlocks 256)
  have evaluates := declaringImage_evaluates (nestedBlocks 256)
  have isRun := runUnit_compiled (declaringBody (nestedBlocks 256))
  obtain ⟨state, address, reachable, starts⟩ := declaringImage_starts (nestedBlocks 256)
  let outermost := evaluatedUnit (runUnit (declaringBody (nestedBlocks 256)))
    (some [⟨"a", lexical_a⟩]) (nestedBlocks 256)
  have scopes : visibleScopes (innermostUnit outermost 256) =
      List.replicate 256 (blockScope [] none) ++ visibleScopes outermost :=
    visibleScopes_innermostUnit outermost 256
  have found : findVar "a" (visibleScopes (innermostUnit outermost 256)) 0 =
      some ⟨0, 256, false⟩ := by
    rw [scopes, findVar_nested]
    rfl
  have reserves : (innermostUnit outermost 256).mgenc.compiled.maximumNumberOfStackElements =
      some 1 := reserves_variable (body_innermostUnit rfl) (block_innermostUnit rfl 256) found
  obtain ⟨isOutermost, first, callee, run, startsOutermost⟩ :=
    starts.evaluated evaluates loaded isRun rfl rfl (reserves_evaluated rfl rfl)
  obtain ⟨isInnermost, last, innermost, runLater, startsInnermost⟩ :=
    startsOutermost.innermost evaluates loaded 256 isOutermost rfl rfl rfl reserves
  have reachableLast := (run.trans runLater).reachable reachable
  have linked : Linked (runClass (declaringBody (nestedBlocks 256))) 0 last.layout :=
    (grown_of_reachable reachableLast).linked loaded
  have activation := startsInnermost.isActivation
  have leads := (linked.touchesStack_iff loaded isInnermost activation found).mp
    (avoids _ _ _ _ _ _ reachableLast _ _ loaded _ isInnermost _ activation _ _ found)
  obtain ⟨scope, there, has⟩ := leads
  rw [scopes] at there
  obtain rfl : blockScope [] none = scope := Option.some.inj there
  exact absurd has (Nat.not_lt_zero _)

end Somr.Interpreter
