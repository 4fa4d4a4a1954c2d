import Somr.Compiler.ParseTrees

/-!
Owns the proof that the parser emits the post-order code of parse trees, and that
this code computes what the parse tree says on any stack machine with the effects
of the interpreter.

The code the parser emits can differ from that of the tree in two ways only: an
operand byte is too small for its operand, or a message to an operand that is
`super` is not the only one and is sent to super all the same.
-/

namespace Somr.Compiler

open Somr.Foundation

/-! ### Generation and the code of a forest -/

def Instruction.isSend : Instruction → Bool
  | .send _ | .superSend _ => true
  | _ => false

/-- A super send as the send it would be otherwise. -/
def Instruction.plain : Instruction → Instruction
  | .superSend msg => .send msg
  | instruction => instruction

/-- Emitted code agrees with prescribed code up to which sends are super sends;
the two are equal exactly under a condition. -/
structure SameCode (emitted prescribed : List Instruction) (once : Prop) : Prop where
  samePlain : emitted.map Instruction.plain = prescribed.map Instruction.plain
  same : once → emitted = prescribed
  ofOpcodes : emitted.map Instruction.opcode = prescribed.map Instruction.opcode → once

theorem SameCode.sameLength {emitted prescribed : List Instruction} {once : Prop}
    (code : SameCode emitted prescribed once) : emitted.length = prescribed.length := by
  have lengths := congrArg List.length code.samePlain
  rwa [List.length_map, List.length_map] at lengths

theorem SameCode.refl (code : List Instruction) : SameCode code code True :=
  ⟨rfl, fun _ => rfl, fun _ => trivial⟩

theorem SameCode.change {emitted prescribed : List Instruction} {p q : Prop}
    (code : SameCode emitted prescribed p) (same : p ↔ q) : SameCode emitted prescribed q := by
  rw [← same]
  exact code

theorem SameCode.append {early late early' late' : List Instruction} {p q : Prop}
    (first : SameCode early early' p) (second : SameCode late late' q) :
    SameCode (early ++ late) (early' ++ late') (p ∧ q) := by
  refine ⟨?_, fun both => ?_, fun sameOpcodes => ?_⟩
  · rw [List.map_append, List.map_append, first.samePlain, second.samePlain]
  · rw [first.same both.1, second.same both.2]
  · rw [List.map_append, List.map_append] at sameOpcodes
    obtain ⟨sameEarly, sameLate⟩ := List.append_inj sameOpcodes (by
      rw [List.length_map, List.length_map, first.sameLength])
    exact ⟨first.ofOpcodes sameEarly, second.ofOpcodes sameLate⟩

/-- A generator emits the code of a forest and allocates its objects. -/
structure Compiles (environment : Environment) (generator : Generator)
    (forest : Nat → List ParseTree) (once : Prop) : Prop where
  placed : ∀ objects : List CompiledObject, ∀ leaf ∈ Tree.forestLeaves (forest objects.length),
    leaf.Placed (objects ++ (generator objects.length).objects)
  ranked : ∀ base, Tree.ForestRanked Operation.rank (forest base)
  code : ∀ base, SameCode (instructions (generator base).actions)
    (forestCode environment (forest base)) once

theorem Leaf.Placed.append {objects : List CompiledObject} {leaf : Leaf}
    (placed : leaf.Placed objects) (more : List CompiledObject) :
    leaf.Placed (objects ++ more) := by
  cases leaf with
  | name text => exact trivial
  | block unit => exact CodeUnit.Placed.append placed more
  | literal source base =>
      intro object allocated
      have found := placed object allocated
      obtain ⟨below, -⟩ := List.getElem?_eq_some_iff.mp found
      rw [List.getElem?_append_left below, found]

theorem forestCode_append (environment : Environment) (early late : List ParseTree) :
    forestCode environment (early ++ late) =
      forestCode environment early ++ forestCode environment late :=
  Tree.forestCode_append _ _ early late

theorem instructions_andThen (first second : Generator) (base : Nat) :
    instructions ((first.andThen second) base).actions =
      instructions (first base).actions ++
        instructions (second (base + (first base).objects.length)).actions :=
  instructions_append _ _

theorem objects_andThen (first second : Generator) (base : Nat) :
    ((first.andThen second) base).objects =
      (first base).objects ++ (second (base + (first base).objects.length)).objects := rfl

theorem objects_actions (actions : List Action) (base : Nat) :
    (Generator.actions actions base).objects = [] := rfl

theorem objects_andThen_actions (generator : Generator) (actions : List Action) (base : Nat) :
    ((generator.andThen (.actions actions)) base).objects = (generator base).objects :=
  List.append_nil _

theorem instructions_andThen_actions (generator : Generator) (actions : List Action)
    (base : Nat) :
    instructions ((generator.andThen (.actions actions)) base).actions =
      instructions (generator base).actions ++ instructions actions :=
  instructions_append _ _

namespace Compiles

variable {environment : Environment} {first second generator : Generator}
  {early late forest : Nat → List ParseTree} {p q once : Prop}

theorem change (compiles : Compiles environment generator forest once)
    (sameGenerator : generator = first) (sameForest : ∀ base, forest base = early base)
    (same : once ↔ p) : Compiles environment first early p := by
  obtain rfl := sameGenerator
  obtain rfl := funext sameForest
  rw [← same]
  exact compiles

theorem andThen (earlyCompiles : Compiles environment first early p)
    (lateCompiles : Compiles environment second late q) :
    Compiles environment (first.andThen second)
      (fun base => early base ++ late (base + (first base).objects.length)) (p ∧ q) := by
  refine ⟨fun objects leaf member => ?_, fun base => ?_, fun base => ?_⟩
  · rw [objects_andThen, ← List.append_assoc]
    rw [Tree.forestLeaves_append, List.mem_append] at member
    rcases member with member | member
    · exact (earlyCompiles.placed objects leaf member).append _
    · have later := lateCompiles.placed (objects ++ (first objects.length).objects) leaf
      rw [List.length_append] at later
      exact later member
  · rw [Tree.forestRanked_append]
    exact ⟨earlyCompiles.ranked _, lateCompiles.ranked _⟩
  · rw [instructions_andThen, forestCode_append]
    exact (earlyCompiles.code _).append (lateCompiles.code _)

/-- Literals that are only added leave the code alone. -/
theorem adds (compiles : Compiles environment generator forest once) (actions : List Action)
    (silent : instructions actions = []) :
    Compiles environment (generator.andThen (.actions actions)) forest once := by
  refine ⟨fun objects => ?_, compiles.ranked, fun base => ?_⟩
  · rw [objects_andThen_actions]
    exact compiles.placed objects
  · rw [instructions_andThen_actions, silent, List.append_nil]
    exact compiles.code base

theorem addsFirst (compiles : Compiles environment generator forest once) (actions : List Action)
    (silent : instructions actions = []) :
    Compiles environment ((Generator.actions actions).andThen generator) forest once := by
  refine ⟨compiles.placed, compiles.ranked, fun base => ?_⟩
  rw [instructions_andThen]
  show SameCode (instructions actions ++ _) _ _
  rw [silent]
  exact compiles.code base

/-- The steps of an operation behind its operands. -/
theorem apply (compiles : Compiles environment generator forest once) (operation : Operation)
    (actions : List Action) (ranked : ∀ base, (forest base).length = operation.rank)
    (code : SameCode (instructions actions) (operation.instructions environment) p) :
    Compiles environment (generator.andThen (.actions actions))
      (fun base => [.node operation (forest base)]) (once ∧ p) := by
  refine ⟨fun objects leaf member => ?_, fun base => ⟨⟨ranked base, compiles.ranked base⟩, trivial⟩,
    fun base => ?_⟩
  · rw [Tree.forestLeaves, Tree.forestLeaves, List.append_nil] at member
    rw [objects_andThen_actions]
    exact compiles.placed objects leaf member
  · rw [instructions_andThen_actions, show forestCode environment
      [.node operation (forest base)] = forestCode environment (forest base) ++
        operation.instructions environment from List.append_nil _]
    exact (compiles.code base).append code

end Compiles

/-! ### Operands -/

theorem instructions_pushVariable (environment : Environment) (var : String) :
    instructions (pushVariable environment var) = [readInstruction environment var] := by
  rw [pushVariable, readInstruction]
  rcases findVar var environment.scopes 0 with _ | ⟨index, context, _ | _⟩
  · dsimp only
    split <;> rfl
  · rfl
  · rfl

theorem instructions_popVariable (environment : Environment) (var : String) :
    instructions (popVariable environment var) = [writeInstruction environment var] := by
  rw [popVariable, writeInstruction]
  rcases findVar var environment.scopes 0 with _ | ⟨index, context, _ | _⟩ <;> rfl

theorem instructions_assignActions (environment : Environment) (targets : List Identifier) :
    instructions (assignActions environment targets) =
      (Operation.assign (targets.map Identifier.text)).instructions environment := by
  rw [assignActions, instructions_append, Operation.instructions]
  congr 1
  · rw [instructions, List.filterMap_map, List.map_map]
    exact congrFun List.filterMap_eq_map targets
  · induction targets with
    | nil => rfl
    | cons target rest inductionHypothesis =>
        rw [List.flatMap_cons, instructions_append, instructions_popVariable, inductionHypothesis]
        rfl

theorem compiles_leaf {environment : Environment} {generator : Generator} (leaf : Nat → Leaf)
    (code : ∀ base, instructions (generator base).actions =
      [(leaf base).instruction environment])
    (placed : ∀ objects : List CompiledObject,
      (leaf objects.length).Placed (objects ++ (generator objects.length).objects)) :
    Compiles environment generator (fun base => [.leaf (leaf base)]) True := by
  refine ⟨fun objects found member => ?_, fun _ => ⟨trivial, trivial⟩, fun base => ?_⟩
  · obtain rfl := List.mem_singleton.mp member
    exact placed objects
  · rw [code]
    exact SameCode.refl _

theorem compiles_nil (environment : Environment) :
    Compiles environment (.actions []) (fun _ => []) True :=
  ⟨fun _ _ member => absurd member List.not_mem_nil, fun _ => trivial, fun _ => SameCode.refl []⟩

/-- A send and a super send have different bytecodes. -/
theorem sameCode_send (super toSuper : Bool) (selector : String) :
    SameCode [sendInstruction super selector] [sendInstruction toSuper selector]
      (super = toSuper) := by
  have different : Bytecode.send ≠ Bytecode.superSend := by decide
  refine ⟨?_, fun same => by rw [same], fun sameOpcodes => ?_⟩
  · cases super <;> cases toSuper <;> rfl
  have sameOpcode := (List.cons.inj sameOpcodes).1
  cases super <;> cases toSuper
  · rfl
  · exact absurd sameOpcode different
  · exact absurd sameOpcode different.symm
  · rfl

/-- A send behind its receiver and its arguments. -/
theorem Compiles.send {environment : Environment} {generator : Generator}
    {forest : Nat → List ParseTree} {once : Prop}
    (compiles : Compiles environment generator forest once) (super toSuper : Bool)
    (selector : String) (actions : List Action)
    (sends : instructions actions = [sendInstruction super selector])
    (ranked : ∀ base, (forest base).length = Signature.getNumberOfArguments selector) :
    Compiles environment (generator.andThen (.actions actions))
      (fun base => [.node (.send toSuper selector) (forest base)]) (once ∧ super = toSuper) := by
  refine compiles.apply (.send toSuper selector) actions ranked ?_
  rw [sends]
  exact sameCode_send super toSuper selector

theorem Identifier.numberOfArguments (identifier : Identifier) :
    Signature.getNumberOfArguments identifier.text = 1 := by
  rw [Signature.getNumberOfArguments, identifier.lexical.1, identifier.lexical.2]
  rfl

theorem Operator.numberOfArguments (operator : Operator) :
    Signature.getNumberOfArguments operator.token.text = 2 := by
  rw [Signature.getNumberOfArguments, operator.lexical, if_pos rfl]

/-- When the unary messages to an operand are sent where the tree says. -/
def UnariesAgree (keepSuper super toSuper : Bool) (unaries : List Identifier) : Prop :=
  unaries = [] ∨ super = toSuper ∧ (unaries.length ≤ 1 ∨ (super && keepSuper) = false)

theorem compiles_unaries {environment : Environment} (keepSuper super toSuper : Bool)
    (unaries : List Identifier) {generator : Generator} {receiver : Nat → ParseTree} {once : Prop}
    (compiles : Compiles environment generator (fun base => [receiver base]) once) :
    Compiles environment (generator.andThen (.actions (unaryActions keepSuper super unaries)))
      (fun base => [unaryTree toSuper (receiver base) unaries])
      (once ∧ UnariesAgree keepSuper super toSuper unaries) := by
  induction unaries generalizing super toSuper generator receiver once with
  | nil =>
      exact (compiles.adds [] rfl).change rfl (fun _ => rfl) (by simp [UnariesAgree])
  | cons selector rest inductionHypothesis =>
      have first := compiles.send super toSuper selector.text
        [.addLiteralIfAbsent (.symbol selector.text), .emit (sendInstruction super selector.text)]
        rfl (fun _ => selector.numberOfArguments.symm)
      refine (inductionHypothesis (super && keepSuper) false first).change ?_ (fun _ => rfl) ?_
      · rw [Generator.andThen_assoc, ← Generator.actions_append]
        rfl
      · cases rest with
        | nil => simp [UnariesAgree]
        | cons next more =>
            simp [UnariesAgree]
            tauto

/-- The unary messages to an operand agree when there is at most one to `super`. -/
theorem unariesAgree_operand (primary : Primary) (unaries : List Identifier) :
    UnariesAgree true primary.isSuper primary.isSuper unaries ↔
      operandOnce primary unaries = true := by
  rw [UnariesAgree, operandOnce]
  cases unaries <;> cases primary.isSuper <;> simp

/-- The unary messages to the receiver of an expression always agree. -/
theorem unariesAgree_receiver (super : Bool) (unaries : List Identifier) :
    UnariesAgree false super super unaries :=
  Or.inr ⟨rfl, Or.inr (Bool.and_false _)⟩

/-! ### Expressions -/

theorem objects_binaries (environment : Environment) (super : Bool) (binaries : Binaries)
    (base : Nat) : (binaries.generate environment super base).objects =
      (binaries.generate environment false base).objects := by
  cases binaries <;> rfl

theorem count_selector (environment : Environment) : (keywords : Keywords) → (base : Nat) →
    keywords.selector.toList.count ':' = (keywords.trees environment base).length
  | .done, _ => rfl
  | .message keyword primary unaries binaries rest, base => by
      rw [Keywords.selector, String.toList_append, List.count_append, keyword.lexical.2,
        count_selector environment rest, Keywords.trees, List.length_cons, Nat.add_comm]

theorem isBinary_selector {keywords : Keywords} (isMessage : keywords.isDone = false) :
    Signature.isBinary keywords.selector = false := by
  cases keywords with
  | done => exact Bool.noConfusion isMessage
  | message keyword primary unaries binaries rest =>
      obtain ⟨text, noOperator, oneColon⟩ := keyword
      have colon : 0 < text.toList.count ':' := by omega
      rw [Keywords.selector, Signature.isBinary_append colon, noOperator]

theorem numberOfArguments_selector (environment : Environment) {keywords : Keywords}
    (isMessage : keywords.isDone = false) (base : Nat) :
    Signature.getNumberOfArguments keywords.selector =
      (keywords.trees environment base).length + 1 := by
  rw [Signature.getNumberOfArguments, isBinary_selector isMessage, count_selector environment]
  rfl

theorem instructions_sendActions {keywords : Keywords} (isMessage : keywords.isDone = false)
    (super : Bool) : instructions (keywords.sendActions super) =
      [sendInstruction super keywords.selector] := by
  cases keywords with
  | done => exact Bool.noConfusion isMessage
  | message keyword primary unaries binaries rest => rfl

/-- The keyword message of an expression behind its receiver. -/
theorem compiles_keywordTree {environment : Environment} (super : Bool) (keywords : Keywords)
    {generator : Generator} {receiver : Nat → ParseTree} {once : Prop}
    (compiles : Compiles environment generator (fun base => [receiver base]) once)
    (arguments : Compiles environment (keywords.generate environment)
      (keywords.trees environment) (keywords.superOnce = true)) :
    Compiles environment ((generator.andThen (keywords.generate environment)).andThen
        (.actions (keywords.sendActions super)))
      (fun base => [keywordTree super (receiver base)
        (keywords.trees environment (base + (generator base).objects.length)) keywords])
      (once ∧ keywords.superOnce = true) := by
  cases isMessage : keywords.isDone with
  | true =>
      cases keywords with
      | message => exact Bool.noConfusion isMessage
      | done => exact (compiles.andThen arguments).adds [] rfl
  | false =>
      refine ((compiles.andThen arguments).send super super keywords.selector
        (keywords.sendActions super) (instructions_sendActions isMessage super)
        fun base => ?_).change rfl (fun base => ?_) (by simp)
      · rw [numberOfArguments_selector environment isMessage]
        rfl
      · cases keywords with
        | done => exact Bool.noConfusion isMessage
        | message keyword primary unaries binaries rest => rfl

/-- The assignment of an expression behind its value. -/
theorem compiles_assignTree {environment : Environment} (targets : List Identifier)
    {generator : Generator} {value : Nat → ParseTree} {once : Prop}
    (compiles : Compiles environment generator (fun base => [value base]) once) :
    Compiles environment (generator.andThen (.actions (assignActions environment targets)))
      (fun base => [assignTree (value base) targets]) once := by
  cases targets with
  | nil => exact compiles.adds [] rfl
  | cons target rest =>
      have stores := instructions_assignActions environment (target :: rest)
      have assigned : Compiles environment _ _ (once ∧ True) :=
        compiles.apply (.assign ((target :: rest).map Identifier.text)) _ (fun _ => rfl)
          (by rw [stores]; exact SameCode.refl _)
      exact assigned.change rfl (fun _ => rfl) (iff_of_eq (and_true once))

mutual

theorem compiles_primary (environment : Environment) : (tree : Primary) →
    Compiles environment (tree.generate environment) (fun base => [tree.tree environment base])
      (tree.superOnce = true)
  | .name identifier => by
      rw [Primary.generate]
      refine (compiles_leaf (fun _ => .name identifier.text) (fun _ => ?_)
        fun _ => trivial).change rfl (fun _ => rfl) (by simp [Primary.superOnce])
      exact instructions_pushVariable environment _
  | .term expression => compiles_expression environment expression
  | .block parameters locals body => by
      refine (compiles_leaf (fun base => .block ⟨true, environment, blockScope parameters locals,
        blockSignature (parameters.length + 1), base, body⟩) (fun _ => rfl) fun objects => ?_).change
          rfl (fun _ => rfl) (by simp [Primary.superOnce])
      exact CodeUnit.placed_last ⟨true, environment, blockScope parameters locals,
        blockSignature (parameters.length + 1), objects.length, body⟩ objects rfl
  | .literal source => by
      refine (compiles_leaf (fun base => .literal source base) (fun _ => rfl)
        fun objects object allocated => ?_).change rfl (fun _ => rfl) (by simp [Primary.superOnce])
      have same : (source.generate objects.length).objects = [object] := by
        rw [LiteralSource.generate, Option.mem_def.mp allocated]
        rfl
      rw [Primary.generate, same, List.getElem?_concat_length]

theorem compiles_expression (environment : Environment) : (tree : Expression) →
    Compiles environment (tree.generate environment) (fun base => [tree.tree environment base])
      (tree.superOnce = true)
  | .mk targets primary unaries binaries keywords => by
      have operand := compiles_unaries false primary.isSuper primary.isSuper unaries
        (compiles_primary environment primary)
      have formula := compiles_binaries environment binaries (primary.isSuper && unaries.isEmpty)
        (primary.isSuper && unaries.isEmpty) operand
      have message := compiles_keywordTree (primary.isSuper && unaries.isEmpty && binaries.isDone)
        keywords formula (compiles_keywords environment keywords)
      refine ((compiles_assignTree targets message).addsFirst
        (targets.map fun target => .addLiteralIfAbsent (.symbol target.text)) ?_).change ?_
          (fun base => ?_) ?_
      · rw [instructions, List.filterMap_map]
        exact List.filterMap_eq_nil_iff.mpr fun _ _ => rfl
      · simp only [Expression.generate, Generator.andThen_assoc, Generator.actions_append]
      · simp only [Expression.tree, objects_andThen, objects_actions, List.append_nil,
          List.length_append, Nat.add_assoc, objects_binaries environment (primary.isSuper && unaries.isEmpty)]
      · simp [unariesAgree_receiver, Expression.superOnce, and_assoc]

theorem compiles_binaries (environment : Environment) : (tree : Binaries) →
    (super toSuper : Bool) → {generator : Generator} → {receiver : Nat → ParseTree} →
    {once : Prop} → Compiles environment generator (fun base => [receiver base]) once →
    Compiles environment (generator.andThen (tree.generate environment super))
      (fun base => [tree.tree environment (base + (generator base).objects.length) toSuper
        (receiver base)])
      (once ∧ (tree.isDone = true ∨ super = toSuper) ∧ tree.superOnce = true)
  | .done, super, toSuper, generator, receiver, once, compiles => by
      refine (compiles.adds [] rfl).change rfl (fun _ => rfl) ?_
      simp [Binaries.isDone, Binaries.superOnce]
  | .message operator primary unaries rest, super, toSuper, generator, receiver, once, compiles => by
      have operand := compiles_unaries true primary.isSuper primary.isSuper unaries
        (compiles_primary environment primary)
      have sent := ((compiles.adds [.addLiteralIfAbsent (.symbol operator.token.text)] rfl).andThen
        operand).send super toSuper operator.token.text
          [.emit (sendInstruction super operator.token.text)] rfl
          (fun _ => operator.numberOfArguments.symm)
      refine (compiles_binaries environment rest false false sent).change ?_ (fun base => ?_) ?_
      · simp only [Binaries.generate, Generator.andThen_assoc, Generator.actions_append]
      · simp only [Binaries.tree, objects_andThen, objects_actions, List.append_nil,
          List.length_append, Nat.add_assoc]
        rfl
      · rw [unariesAgree_operand, Binaries.superOnce]
        simp [Binaries.isDone]
        tauto

theorem compiles_keywords (environment : Environment) : (tree : Keywords) →
    Compiles environment (tree.generate environment) (tree.trees environment)
      (tree.superOnce = true)
  | .done => (compiles_nil environment).change rfl (fun _ => rfl) (by simp [Keywords.superOnce])
  | .message keyword primary unaries binaries rest => by
      have operand := compiles_unaries true primary.isSuper primary.isSuper unaries
        (compiles_primary environment primary)
      have argument := compiles_binaries environment binaries primary.isSuper
        (primary.isSuper && unaries.isEmpty) operand
      refine (argument.andThen (compiles_keywords environment rest)).change ?_ (fun base => ?_) ?_
      · simp only [Keywords.generate, Generator.andThen_assoc]
      · simp only [Keywords.trees, objects_andThen, objects_actions, List.append_nil,
          List.length_append, Nat.add_assoc, objects_binaries environment primary.isSuper]
        rfl
      · rw [unariesAgree_operand, Keywords.superOnce]
        cases primary.isSuper with
        | false => simp
        | true =>
            simp
            tauto

end

/-! ### Bodies -/

/-- The code of a generator of one tree. -/
theorem Compiles.treeCode {environment : Environment} {generator : Generator}
    {tree : Nat → ParseTree} {once : Prop}
    (compiles : Compiles environment generator (fun base => [tree base]) once) (base : Nat) :
    SameCode (instructions (generator base).actions) (treeCode environment (tree base)) once := by
  have code := compiles.code base
  rwa [show forestCode environment [tree base] = Somr.Compiler.treeCode environment (tree base)
    from List.append_nil _] at code

theorem sameCode_body (environment : Environment) (block : Bool) : (body : Body) → (base : Nat) →
    SameCode
      (instructions (((body.generate environment block).andThen
        (.actions (body.closing block))) base).actions)
      (body.code environment block base) (body.superOnce = true)
  | .empty, base => by
      refine ⟨?_, fun _ => ?_, fun _ => rfl⟩ <;> cases block <;> rfl
  | .result value _, base => by
      have code := (compiles_expression environment value).treeCode base
      rw [instructions_andThen_actions, Body.generate, instructions_andThen_actions,
        List.append_assoc, Body.code]
      exact (code.append (SameCode.refl _)).change (by simp [Body.superOnce])
  | .last value, base => by
      have code := (compiles_expression environment value).treeCode base
      have closing : instructions ((Body.last value).closing block) =
          if block then [.returnLocal] else [.pop, .pushArgument 0 0, .returnLocal] := by
        cases block <;> rfl
      rw [instructions_andThen_actions, Body.generate, closing, Body.code]
      exact (code.append (SameCode.refl _)).change (by simp [Body.superOnce])
  | .statement value rest, base => by
      have code := (compiles_expression environment value).treeCode base
      have later := sameCode_body environment block rest
        (base + (value.generate environment base).objects.length)
      have popped : instructions (if block && rest.isEmpty then [] else [.emit .pop]) =
          if block && rest.isEmpty then [] else [.pop] := by
        split <;> rfl
      rw [Body.generate, Generator.andThen_assoc, Generator.andThen_assoc,
        show (Body.statement value rest).closing block = rest.closing block from rfl,
        instructions_andThen, instructions_andThen, objects_actions, List.length_nil,
        Nat.add_zero, Body.code, Generator.actions, popped]
      exact (code.append ((SameCode.refl _).append later)).change (by simp [Body.superOnce])

/-- The code emitted for a unit and the code of its statements. -/
theorem CodeUnit.sameCode (unit : CodeUnit) :
    SameCode (instructions unit.generated.actions) unit.code (unit.body.superOnce = true) :=
  sameCode_body (unit.environment.enter unit.scope) unit.block unit.body unit.base

/-! ### The bytes of the code -/

/-- Emitted code is read back as the prescribed code exactly when its operands are
bytes and no later message to a `super` operand is sent to super. -/
theorem decode_eq_some_iff {literals : List Literal} (distinct : literals.Nodup)
    {emitted prescribed : List Instruction} {once : Prop}
    (known : ∀ instruction ∈ emitted, ∀ literal ∈ instruction.literal?, literal ∈ literals)
    (agrees : SameCode emitted prescribed once) :
    decode literals (emitted.flatMap (Instruction.encode literals)) = some prescribed ↔
      (∀ instruction ∈ prescribed, instruction.Fits literals) ∧ once := by
  rw [decode_encode]
  constructor
  · intro readBack
    have holds := agrees.ofOpcodes (opcodes_truncate readBack).symm
    obtain rfl := agrees.same holds
    exact ⟨(mapM_truncate_eq_some_iff distinct known).mp readBack, holds⟩
  · rintro ⟨fits, holds⟩
    obtain rfl := agrees.same holds
    exact (mapM_truncate_eq_some_iff distinct known).mpr fits

/-- The operands of the code of a tree in a method with these literals are bytes. -/
def FitsBytes (literals : List Literal) (code : List Instruction) : Prop :=
  ∀ instruction ∈ code, instruction.Fits literals

instance (literals : List Literal) (code : List Instruction) :
    Decidable (FitsBytes literals code) :=
  inferInstanceAs (Decidable (∀ instruction ∈ code, instruction.Fits literals))

/-- The bytes of a unit are the code of its statements. -/
theorem CodeUnit.decode_iff (unit : CodeUnit) :
    decode unit.mgenc.literals unit.mgenc.bytecode = some unit.code ↔
      FitsBytes unit.mgenc.literals unit.code ∧ unit.body.superOnce = true := by
  have emitted := bytecode_perform unit.admissible
  rw [show ((MethodGenerationContext.opened unit.block unit.signature
    unit.scope).perform unit.generated.actions).bytecode = unit.mgenc.bytecode from rfl] at emitted
  rw [emitted]
  exact decode_eq_some_iff (nodup_perform List.nodup_nil unit.admissible)
    (literal_of_instruction unit.admissible)
    (sameCode_body (unit.environment.enter unit.scope) unit.block unit.body unit.base)

/-! ### What the code computes -/

/-- The effects of the interpreter on values: what a push reads, what a store and
a message do, and what happens where a value is missing on the stack. -/
structure Semantics (m : Type → Type) (Value : Type) where
  push : Instruction → m Value
  store : Instruction → Value → m Unit
  send : (toSuper : Bool) → (selector : String) → (values : List Value) → m Value
  stuck : (Result : Type) → m Result

namespace Semantics

variable {m : Type → Type} {Value : Type} [Monad m] (semantics : Semantics m Value)
  (environment : Environment)

/-- A send takes its receiver and arguments off the stack. -/
def sendStep (toSuper : Bool) (selector : String) (stack : List Value) : m (List Value) :=
  let number := Signature.getNumberOfArguments selector
  if stack.length < number then semantics.stuck _
  else (· :: stack.drop number) <$> semantics.send toSuper selector (stack.take number).reverse

def step : Instruction → List Value → m (List Value)
  | .dup, value :: stack => pure (value :: value :: stack)
  | .pop, _ :: stack => pure stack
  | .popLocal idx ctx, value :: stack => (fun _ => stack) <$> semantics.store (.popLocal idx ctx) value
  | .popArgument idx ctx, value :: stack =>
      (fun _ => stack) <$> semantics.store (.popArgument idx ctx) value
  | .popField field, value :: stack => (fun _ => stack) <$> semantics.store (.popField field) value
  | .send (.symbol selector), stack => semantics.sendStep false selector stack
  | .superSend (.symbol selector), stack => semantics.sendStep true selector stack
  | .pushLocal idx ctx, stack => (· :: stack) <$> semantics.push (.pushLocal idx ctx)
  | .pushArgument idx ctx, stack => (· :: stack) <$> semantics.push (.pushArgument idx ctx)
  | .pushField field, stack => (· :: stack) <$> semantics.push (.pushField field)
  | .pushBlock block, stack => (· :: stack) <$> semantics.push (.pushBlock block)
  | .pushConstant cst, stack => (· :: stack) <$> semantics.push (.pushConstant cst)
  | .pushGlobal global, stack => (· :: stack) <$> semantics.push (.pushGlobal global)
  | _, _ => semantics.stuck _

def leafValue (leaf : Leaf) : m Value := semantics.push (leaf.instruction environment)

/-- A send computes its message; an assignment stores its value in every target
and has it as its own value. -/
def operationValue : Operation → List Value → m Value
  | .send toSuper selector, values => semantics.send toSuper selector values
  | .assign targets, [value] => do
      targets.forM fun target => semantics.store (writeInstruction environment target) value
      return value
  | .assign _, _ => semantics.stuck _

/-- What a parse tree says. -/
def value : ParseTree → m Value :=
  Tree.eval (semantics.leafValue environment) (semantics.operationValue environment)

theorem step_leaf (leaf : Leaf) (stack : List Value) :
    semantics.step (leaf.instruction environment) stack =
      (· :: stack) <$> semantics.leafValue environment leaf := by
  rw [leafValue]
  cases leaf with
  | literal source base => rfl
  | block unit => rfl
  | name text =>
      rw [Leaf.instruction, readInstruction]
      generalize (if text = "super" then "self" else text) = var
      rcases findVar var environment.scopes 0 with _ | ⟨index, context, _ | _⟩
      · dsimp only
        split <;> rfl
      · rfl
      · rfl

theorem step_write (target : String) (value : Value) (stack : List Value) :
    semantics.step (writeInstruction environment target) (value :: stack) =
      (fun _ => stack) <$> semantics.store (writeInstruction environment target) value := by
  rw [writeInstruction]
  rcases findVar target environment.scopes 0 with _ | ⟨index, context, _ | _⟩ <;> rfl

variable [LawfulMonad m]

theorem runSteps_dups (targets : List String) (value : Value) (stack : List Value) :
    runSteps semantics.step (targets.map fun _ => .dup) (value :: stack) =
      pure (List.replicate targets.length value ++ value :: stack) := by
  induction targets generalizing stack with
  | nil => rfl
  | cons target rest inductionHypothesis =>
      rw [List.map_cons, runSteps]
      show (pure (value :: value :: stack) : m (List Value)) >>= _ = _
      rw [pure_bind, inductionHypothesis, List.length_cons, List.replicate_succ',
        List.append_assoc]
      rfl

theorem runSteps_writes (targets : List String) (value : Value) (stack : List Value) :
    runSteps semantics.step (targets.map (writeInstruction environment))
        (List.replicate targets.length value ++ stack) =
      (fun _ => stack) <$> targets.forM fun target =>
        semantics.store (writeInstruction environment target) value := by
  induction targets with
  | nil =>
      show pure stack = (fun _ => stack) <$> (pure () : m Unit)
      rw [map_pure]
  | cons target rest inductionHypothesis =>
      rw [List.map_cons, runSteps, List.length_cons, List.replicate_succ, List.cons_append,
        step_write, map_eq_pure_bind, bind_assoc]
      show _ = _ <$> (semantics.store (writeInstruction environment target) value >>= fun _ =>
        rest.forM fun target => semantics.store (writeInstruction environment target) value)
      rw [map_bind]
      refine bind_congr fun _ => ?_
      rw [pure_bind, inductionHypothesis]

/-- The instructions of a tree do what the tree says. -/
theorem realizes : Tree.Realizes semantics.step Operation.rank (Leaf.instruction environment)
    (Operation.instructions environment) (semantics.leafValue environment)
    (semantics.operationValue environment) := by
  refine ⟨semantics.step_leaf environment, ?_⟩
  intro operation values stack ranked
  cases operation with
  | send toSuper selector =>
      have enough : ¬ (values.reverse ++ stack).length < Signature.getNumberOfArguments selector := by
        rw [List.length_append, List.length_reverse, ranked]
        exact Nat.not_lt.mpr (Nat.le_add_right _ _)
      have reversed : values.reverse.length = Signature.getNumberOfArguments selector := by
        rw [List.length_reverse, ranked]
        rfl
      have sent : semantics.step (sendInstruction toSuper selector) (values.reverse ++ stack) =
          semantics.sendStep toSuper selector (values.reverse ++ stack) := by
        cases toSuper <;> rfl
      rw [Operation.instructions, runSteps, sent, sendStep, if_neg enough,
        List.take_left' reversed, List.drop_left' reversed, List.reverse_reverse]
      exact bind_pure _
  | assign targets =>
      obtain ⟨value, rfl⟩ := List.length_eq_one_iff.mp ranked
      rw [Operation.instructions, runSteps_append, List.reverse_singleton, List.singleton_append,
        runSteps_dups, pure_bind, runSteps_writes, operationValue, map_bind]
      rw [map_eq_pure_bind]
      refine bind_congr fun _ => ?_
      rw [map_pure]

end Semantics

/-! ### Expressions in a compilation -/

/-- A compilation in the middle of a method or block: its literal table lists
every literal once and only objects that exist. -/
structure Parser.WellFormed (parser : Parser) : Prop where
  opened : parser.Opened
  distinct : parser.mgenc.literals.Nodup
  allocated : Allocated parser.objects.length parser.mgenc

/-- A method or block starts in a well-formed compilation. -/
theorem Parser.wellFormed_opened (parser : Parser) (block : Bool) (signature : String)
    (scope : Scope) :
    Parser.WellFormed { parser with
      contexts := MethodGenerationContext.opened block signature scope :: parser.contexts } :=
  ⟨List.cons_ne_nil _ _, List.nodup_nil, fun _ member => absurd member List.not_mem_nil⟩

/-- The method object of a unit holds the code of its statements. -/
def CodeUnit.ReadAs (objects : List CompiledObject) (unit : CodeUnit) : Prop :=
  ∃ method, objects[unit.address]? = some (.method method) ∧
    decode method.literals method.bytecode = some unit.code

theorem CodeUnit.readAs_iff {objects : List CompiledObject} {unit : CodeUnit}
    (placed : unit.Placed objects) :
    unit.ReadAs objects ↔
      FitsBytes unit.mgenc.literals unit.code ∧ unit.body.superOnce = true := by
  rw [← unit.decode_iff, ReadAs, placed]
  constructor
  · rintro ⟨method, same, readBack⟩
    injection same with same
    injection same with same
    subst same
    exact readBack
  · exact fun readBack => ⟨_, rfl, readBack⟩

/-- The parser accepts every expression. The code it emits, with the code of the
blocks in the expression, is the post-order code of the parse tree exactly when
every operand is a byte and no operand that is `super` gets a second message of
its own; and that code computes what the parse tree says. -/
theorem expression_code_iff (expression : Expression) (parser : Parser)
    (wellFormed : parser.WellFormed) (calls : Nat) (tokens : List Token)
    (enough : 8 * expression.tokens.length + 3 ≤ calls) (ends : Parser.EndsExpression tokens) :
    let environment := parser.environment
    let generated := expression.generate environment parser.objects.length
    let table := (parser.mgenc.perform generated.actions).literals
    let tree := expression.tree environment parser.objects.length
    ∃ final : Parser,
      (Parser.expression calls).run (parser.reading (expression.tokens ++ tokens)) =
        ⟨.ok (), final.reading tokens, []⟩ ∧
      (∀ leaf ∈ tree.leaves, leaf.Placed final.objects) ∧
      (∀ (m : Type → Type) (Value : Type) [Monad m] [LawfulMonad m]
        (semantics : Semantics m Value) (stack : List Value),
        runSteps semantics.step (treeCode environment tree) stack =
          (· :: stack) <$> semantics.value environment tree) ∧
      ((decode final.mgenc.literals
            (final.mgenc.bytecode.drop parser.mgenc.bytecode.length) =
              some (treeCode environment tree) ∧
          ∀ unit ∈ generated.blocks, unit.ReadAs final.objects) ↔
        (FitsBytes table (treeCode environment tree) ∧ expression.superOnce = true) ∧
          ∀ unit ∈ generated.blocks,
            FitsBytes unit.mgenc.literals unit.code ∧ unit.body.superOnce = true) := by
  intro environment generated table tree
  have compiles := compiles_expression environment expression
  obtain ⟨admissible, -⟩ := keepsTable_expression environment expression []
    parser.objects.length parser.mgenc wellFormed.allocated
    (fun _ member => absurd member List.not_mem_nil)
  refine ⟨parser.extend (expression.generate environment),
    Parser.expression_recognized expression parser calls tokens wellFormed.opened enough ends,
    fun leaf member => ?_, fun m Value _ _ semantics stack => ?_, and_congr ?_ ?_⟩
  · refine compiles.placed parser.objects leaf ?_
    rw [Tree.forestLeaves, Tree.forestLeaves, List.append_nil]
    exact member
  · exact Tree.runSteps_code (semantics.realizes environment) tree (compiles.ranked _).1 stack
  · have emitted := bytecode_perform admissible
    rw [show (parser.extend (expression.generate environment)).mgenc =
      parser.mgenc.perform generated.actions from rfl, emitted, List.drop_left]
    exact decode_eq_some_iff (nodup_perform wellFormed.distinct admissible)
      (literal_of_instruction admissible) (compiles.treeCode _)
  · refine forall₂_congr fun unit member => CodeUnit.readAs_iff ?_
    exact (locatesBlocks_rule.holds_expression environment expression parser.objects unit
      member).placed

/-- A compilation at the start of a method `run` with a local `x`. -/
def startParser : Parser :=
  { tokens := [], contexts := [.opened false "run" ⟨["self"], ["x"]⟩] }

theorem startParser_wellFormed : startParser.WellFormed :=
  Parser.wellFormed_opened { tokens := [] } false "run" ⟨["self"], ["x"]⟩

/-- `x := 1 + 2 foo`. -/
def assignedSum : Expression :=
  .mk [⟨"x", by decide⟩] (.literal (.integer "1")) []
    (.message .plus (.literal (.integer "2")) [⟨"foo", by decide⟩] .done)
    .done

theorem assignedSum_code : ∃ final : Parser,
    (Parser.expression 100).run (startParser.reading (assignedSum.tokens ++ [Token.period])) =
      ⟨.ok (), final.reading [Token.period], []⟩ ∧
    decode final.mgenc.literals (final.mgenc.bytecode.drop 0) =
      some [.pushConstant (.object 0), .pushConstant (.object 1), .send (.symbol "foo"),
        .send (.symbol "+"), .dup, .popLocal 0 0] := by
  obtain ⟨final, runs, -, -, same⟩ := expression_code_iff assignedSum startParser
    startParser_wellFormed 100 [Token.period] (by decide) ⟨rfl, Symbol.noConfusion⟩
  have noBlock : ∀ unit ∈ (assignedSum.generate startParser.environment 0).blocks,
      FitsBytes unit.mgenc.literals unit.code ∧ unit.body.superOnce = true :=
    fun _ member => absurd member List.not_mem_nil
  exact ⟨final, runs, (same.mpr ⟨⟨by decide, rfl⟩, noBlock⟩).1⟩

/-- `1 + super foo bar`. -/
def superOperand : Expression :=
  .mk [] (.literal (.integer "1")) []
    (.message .plus (.name ⟨"super", by decide⟩)
      [⟨"foo", by decide⟩, ⟨"bar", by decide⟩] .done)
    .done

/-- The message `bar` to the value of `super foo` is sent to super. -/
theorem super_carried : ¬ ∀ (expression : Expression) (parser : Parser), parser.WellFormed →
    ∀ (calls : Nat) (tokens : List Token), 8 * expression.tokens.length + 3 ≤ calls →
      Parser.EndsExpression tokens →
      ∃ final : Parser,
        (Parser.expression calls).run (parser.reading (expression.tokens ++ tokens)) =
          ⟨.ok (), final.reading tokens, []⟩ ∧
        decode final.mgenc.literals
          (final.mgenc.bytecode.drop parser.mgenc.bytecode.length) =
            some (treeCode parser.environment
              (expression.tree parser.environment parser.objects.length)) := by
  intro postOrder
  obtain ⟨final, runs, code⟩ := postOrder superOperand startParser startParser_wellFormed 100
    [Token.period] (by decide) ⟨rfl, Symbol.noConfusion⟩
  rw [Parser.expression_recognized superOperand startParser 100 [Token.period]
    startParser_wellFormed.opened (by decide) ⟨rfl, Symbol.noConfusion⟩] at runs
  injection runs with _ sameState _
  have sameContext := congrArg Parser.mgenc sameState
  rw [Parser.reading_mgenc, Parser.reading_mgenc] at sameContext
  rw [← sameContext] at code
  exact absurd code (by decide)

end Somr.Compiler
