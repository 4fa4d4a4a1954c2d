import Somr.Compiler.ClassDefinitions
import Mathlib.Data.List.Nodup

/-!
Owns the nesting of methods and blocks in a compiled class: which block a literal
of a method refers to, and that its code was generated in the scopes of the unit
around it.

What holds of every piece of a syntax tree is proved once, by `GeneratorRule`.
-/

namespace Somr.Compiler

/-! ### Induction on the generation -/

/-- No literal of the actions is an object. -/
def SymbolsOnly (actions : List Action) : Prop :=
  ∀ address, .addLiteral (.object address) ∉ actions ∧
    .addLiteralIfAbsent (.object address) ∉ actions

/-- A property of what a piece of syntax generates in an environment, proved from
its pieces. -/
structure GeneratorRule (Holds : Environment → Generator → Prop) : Prop where
  actions : ∀ environment actions, SymbolsOnly actions → Holds environment (.actions actions)
  andThen : ∀ {environment first second}, Holds environment first → Holds environment second →
    Holds environment (first.andThen second)
  literal : ∀ environment (source : LiteralSource), Holds environment source.generate
  block : ∀ environment parameters locals body,
    Holds (environment.enter (blockScope parameters locals))
      ((body.generate (environment.enter (blockScope parameters locals)) true).andThen
        (.actions (body.closing true))) →
      Holds environment ((Primary.block parameters locals body).generate environment)

theorem symbolsOnly_emits (instructions : List Instruction) :
    SymbolsOnly (instructions.map .emit) := by
  intro address
  simp

theorem SymbolsOnly.append {early late : List Action} (first : SymbolsOnly early)
    (second : SymbolsOnly late) : SymbolsOnly (early ++ late) := by
  intro address
  simp [first address, second address]

theorem symbolsOnly_pushVariable (environment : Environment) (var : String) :
    SymbolsOnly (pushVariable environment var) := by
  intro address
  unfold pushVariable
  split <;> try simp
  split <;> simp

theorem symbolsOnly_popVariable (environment : Environment) (var : String) :
    SymbolsOnly (popVariable environment var) := by
  intro address
  unfold popVariable
  split <;> simp

theorem symbolsOnly_unaryActions (keepSuper : Bool) (unaries : List Identifier) :
    ∀ super, SymbolsOnly (unaryActions keepSuper super unaries) := by
  induction unaries with
  | nil => exact fun _ _ => ⟨List.not_mem_nil, List.not_mem_nil⟩
  | cons selector rest inductionHypothesis =>
      intro super address
      have later := inductionHypothesis (super && keepSuper) address
      simp [unaryActions, later]

theorem symbolsOnly_sendActions (super : Bool) (keywords : Keywords) :
    SymbolsOnly (keywords.sendActions super) := by
  intro address
  cases keywords <;> simp [Keywords.sendActions]

theorem symbolsOnly_assignActions (environment : Environment) (targets : List Identifier) :
    SymbolsOnly (assignActions environment targets) := by
  intro address
  have stores : ∀ target ∈ targets, .addLiteral (.object address) ∉
      popVariable environment target.text ∧
        .addLiteralIfAbsent (.object address) ∉ popVariable environment target.text :=
    fun target _ => symbolsOnly_popVariable environment target.text address
  simp only [assignActions, List.mem_append, List.mem_map, List.mem_flatMap]
  grind

theorem symbolsOnly_targets (targets : List Identifier) :
    SymbolsOnly (targets.map fun target => .addLiteralIfAbsent (.symbol target.text)) := by
  intro address
  simp

theorem symbolsOnly_closing (block : Bool) (body : Body) : SymbolsOnly (body.closing block) := by
  intro address
  unfold Body.closing
  split
  · split <;> simp
  · simp

namespace GeneratorRule

variable {Holds : Environment → Generator → Prop} (rule : GeneratorRule Holds)

include rule

mutual

theorem holds_primary (environment : Environment) :
    (tree : Primary) → Holds environment (tree.generate environment)
  | .name _ => rule.actions _ _ (symbolsOnly_pushVariable _ _)
  | .term expression => holds_expression environment expression
  | .block parameters locals body =>
      rule.block environment parameters locals body
        (rule.andThen (holds_body (environment.enter (blockScope parameters locals)) true body)
          (rule.actions _ _ (symbolsOnly_closing true body)))
  | .literal source => rule.literal environment source

theorem holds_expression (environment : Environment) :
    (tree : Expression) → Holds environment (tree.generate environment)
  | .mk targets primary unaries binaries keywords => by
      rw [Expression.generate]
      refine rule.andThen (rule.actions _ _ (symbolsOnly_targets targets)) ?_
      refine rule.andThen (holds_primary environment primary) ?_
      refine rule.andThen (rule.actions _ _ (symbolsOnly_unaryActions _ _ _)) ?_
      refine rule.andThen (holds_binaries environment _ binaries) ?_
      refine rule.andThen (holds_keywords environment keywords) ?_
      exact rule.actions _ _ ((symbolsOnly_sendActions _ _).append
        (symbolsOnly_assignActions environment targets))

theorem holds_binaries (environment : Environment) (super : Bool) :
    (tree : Binaries) → Holds environment (tree.generate environment super)
  | .done => rule.actions _ _ (symbolsOnly_emits [])
  | .message operator primary unaries rest => by
      rw [Binaries.generate]
      refine rule.andThen (rule.actions _ _ fun address => by simp) ?_
      refine rule.andThen (holds_primary environment primary) ?_
      refine rule.andThen (rule.actions _ _ ?_) (holds_binaries environment false rest)
      exact (symbolsOnly_unaryActions _ _ _).append (symbolsOnly_emits [_])

theorem holds_keywords (environment : Environment) :
    (tree : Keywords) → Holds environment (tree.generate environment)
  | .done => rule.actions _ _ (symbolsOnly_emits [])
  | .message _ primary unaries binaries rest => by
      rw [Keywords.generate]
      refine rule.andThen (holds_primary environment primary) ?_
      refine rule.andThen (rule.actions _ _ (symbolsOnly_unaryActions _ _ _)) ?_
      exact rule.andThen (holds_binaries environment _ binaries) (holds_keywords environment rest)

theorem holds_body (environment : Environment) (block : Bool) :
    (tree : Body) → Holds environment (tree.generate environment block)
  | .empty => by
      rw [Body.generate]
      refine rule.actions _ _ ?_
      split
      · exact symbolsOnly_emits [_]
      · exact symbolsOnly_emits [_, _]
  | .result value _ => by
      rw [Body.generate]
      exact rule.andThen (holds_expression environment value)
        (rule.actions _ _ (symbolsOnly_emits [_]))
  | .last value => holds_expression environment value
  | .statement value rest => by
      rw [Body.generate]
      refine rule.andThen (holds_expression environment value) ?_
      refine rule.andThen (rule.actions _ _ ?_) (holds_body environment block rest)
      split
      · exact symbolsOnly_emits []
      · exact symbolsOnly_emits [_]

end

/-- What a unit generates in its own scope. -/
theorem unit (unit : CodeUnit) : Holds (unit.environment.enter unit.scope)
    ((unit.body.generate (unit.environment.enter unit.scope) unit.block).andThen
      (.actions (unit.body.closing unit.block))) :=
  rule.andThen (rule.holds_body _ _ _) (rule.actions _ _ (symbolsOnly_closing _ _))

end GeneratorRule

/-! ### Where the methods are -/

/-- The method object of a unit is where its address says. -/
def CodeUnit.Placed (objects : List CompiledObject) (unit : CodeUnit) : Prop :=
  objects[unit.address]? = some (.method unit.mgenc.compiled)

theorem CodeUnit.Placed.append {objects : List CompiledObject} {unit : CodeUnit}
    (placed : unit.Placed objects) (more : List CompiledObject) :
    unit.Placed (objects ++ more) := by
  obtain ⟨below, found⟩ := List.getElem?_eq_some_iff.mp placed
  rw [Placed, List.getElem?_append_left below]
  exact placed

theorem CodeUnit.placed_last (unit : CodeUnit) (objects : List CompiledObject)
    (based : unit.base = objects.length) :
    unit.Placed (objects ++ (unit.generated.objects ++ [.method unit.mgenc.compiled])) := by
  rw [Placed, address, based, ← List.append_assoc, ← List.length_append,
    List.getElem?_concat_length]

/-- The objects of a unit lie behind its base, and its method object behind them. -/
def CodeUnit.Located (objects : List CompiledObject) (unit : CodeUnit) : Prop :=
  ∃ before behind, unit.base = before.length ∧
    objects = before ++ (unit.generated.objects ++ [.method unit.mgenc.compiled]) ++ behind

theorem CodeUnit.Located.append {objects : List CompiledObject} {unit : CodeUnit}
    (located : unit.Located objects) (more : List CompiledObject) :
    unit.Located (objects ++ more) := by
  obtain ⟨before, behind, based, rfl⟩ := located
  exact ⟨before, behind ++ more, based, List.append_assoc _ _ _⟩

theorem CodeUnit.located_last (unit : CodeUnit) (objects : List CompiledObject)
    (based : unit.base = objects.length) :
    unit.Located (objects ++ (unit.generated.objects ++ [.method unit.mgenc.compiled])) :=
  ⟨objects, [], based, (List.append_nil _).symm⟩

theorem CodeUnit.Located.placed {objects : List CompiledObject} {unit : CodeUnit}
    (located : unit.Located objects) : unit.Placed objects := by
  obtain ⟨before, behind, based, rfl⟩ := located
  exact (unit.placed_last before based).append behind

theorem CodeUnit.Located.object {objects : List CompiledObject} {unit : CodeUnit}
    (located : unit.Located objects) {index : Nat}
    (inside : index < unit.generated.objects.length) :
    objects[unit.base + index]? = unit.generated.objects[index]? := by
  obtain ⟨before, behind, based, rfl⟩ := located
  rw [based, List.append_assoc, List.getElem?_append_right (by omega), Nat.add_sub_cancel_left,
    List.append_assoc, List.getElem?_append_left inside]

theorem locatesBlocks_rule : GeneratorRule fun _ generator =>
    ∀ objects : List CompiledObject, ∀ unit ∈ (generator objects.length).blocks,
      unit.Located (objects ++ (generator objects.length).objects) where
  actions _ _ _ _ := nofun
  literal _ _ _ := nofun
  andThen := by
    intro _ first second early late objects unit member
    rw [Generator.andThen] at *
    rw [← List.append_assoc]
    rcases List.mem_append.mp member with member | member
    · exact (early objects unit member).append _
    · have later := late (objects ++ (first objects.length).objects) unit
      rw [List.length_append] at later
      exact later member
  block := by
    intro environment parameters locals body inner objects unit member
    rw [Primary.generate] at *
    rcases List.mem_append.mp member with member | member
    · rw [← List.append_assoc]
      exact (inner objects unit member).append _
    · obtain rfl := List.mem_singleton.mp member
      exact CodeUnit.located_last ⟨true, environment, blockScope parameters locals,
        blockSignature (parameters.length + 1), objects.length, body⟩ objects rfl

theorem located_method (add : Literal → ClassGenerationContext → ClassGenerationContext)
    (objects : List CompiledObject) (cgenc : ClassGenerationContext)
    (definition : MethodDefinition) :
    ∀ unit ∈ (definition.generate add objects.length cgenc).units,
      unit.Located (objects ++ (definition.generate add objects.length cgenc).objects) := by
  intro unit member
  cases definition with
  | primitive pattern => exact absurd member List.not_mem_nil
  | code pattern locals body =>
      rw [MethodDefinition.generate, MethodDefinition.unit?] at *
      rcases List.mem_append.mp member with member | member
      · rw [← List.append_assoc]
        exact (locatesBlocks_rule.unit ⟨false, ⟨[], cgenc⟩,
          ⟨"self" :: pattern.arguments, declaredLocals locals⟩, pattern.signature, objects.length,
            body⟩ objects unit member).append _
      · obtain rfl := List.mem_singleton.mp member
        exact CodeUnit.located_last _ objects rfl

/-- Every method and block of a class side lies among its objects. -/
theorem located_methods (add : Literal → ClassGenerationContext → ClassGenerationContext)
    (definitions : List MethodDefinition) :
    ∀ (objects : List CompiledObject) (cgenc : ClassGenerationContext),
      ∀ unit ∈ (generateMethods add objects.length cgenc definitions).units,
        unit.Located
          (objects ++ (generateMethods add objects.length cgenc definitions).objects) := by
  induction definitions with
  | nil => exact fun _ _ _ member => absurd member List.not_mem_nil
  | cons definition rest inductionHypothesis =>
      intro objects cgenc unit member
      have first := located_method add objects cgenc definition
      have later := inductionHypothesis
        (objects ++ (definition.generate add objects.length cgenc).objects)
        (definition.generate add objects.length cgenc).classContext
      rw [List.length_append] at later
      rw [generateMethods] at *
      rw [← List.append_assoc]
      rcases List.mem_append.mp member with member | member
      · exact (first unit member).append _
      · exact later unit member

theorem located_units (definition : ClassDefinition) :
    ∀ unit ∈ definition.generate.units, unit.Located definition.generate.objects := by
  intro unit member
  have early := located_methods (fun invokable cgenc =>
    { cgenc with instanceMethods := cgenc.instanceMethods ++ [invokable] })
    definition.instanceSide.methods [] definition.instanceContext
  rw [ClassDefinition.generate] at *
  rcases List.mem_append.mp member with member | member
  · exact (early unit member).append _
  · cases side : definition.classSide with
    | none =>
        rw [side] at member
        exact absurd member List.not_mem_nil
    | some side' =>
        rw [side] at member
        exact located_methods _ side'.methods _ _ unit member

/-- Parsing a class places every method and block of it. -/
theorem placed_units (definition : ClassDefinition) :
    ∀ unit ∈ definition.generate.units,
      unit.Placed (Parser.parse definition.tokens).state.objects := by
  intro unit member
  rw [Parser.parse_tokens]
  exact (located_units definition unit member).placed

/-! ### Addresses -/

/-- The blocks of a piece of syntax lie among its objects, in order. -/
def OrdersBlocks (generator : Generator) : Prop :=
  ∀ base, ((generator base).blocks.map CodeUnit.address).Pairwise (· < ·) ∧
    ∀ block ∈ (generator base).blocks,
      base ≤ block.address ∧ block.address < base + (generator base).objects.length

theorem ordersBlocks_rule : GeneratorRule fun _ => OrdersBlocks where
  actions _ _ _ _ := ⟨List.Pairwise.nil, nofun⟩
  literal _ _ _ := ⟨List.Pairwise.nil, nofun⟩
  andThen := by
    intro _ first second early late base
    obtain ⟨earlyOrder, earlyInside⟩ := early base
    obtain ⟨lateOrder, lateInside⟩ := late (base + (first base).objects.length)
    simp only [Generator.andThen, List.map_append, List.length_append, List.mem_append]
    refine ⟨List.pairwise_append.mpr ⟨earlyOrder, lateOrder, ?_⟩, ?_⟩
    · intro address there address' there'
      obtain ⟨block, isBlock, rfl⟩ := List.mem_map.mp there
      obtain ⟨block', isBlock', rfl⟩ := List.mem_map.mp there'
      have below := (earlyInside block isBlock).2
      have above := (lateInside block' isBlock').1
      omega
    · rintro block (isBlock | isBlock)
      · have inside := earlyInside block isBlock
        omega
      · have inside := lateInside block isBlock
        omega
  block := by
    intro environment parameters locals body inner base
    obtain ⟨order, inside⟩ := inner base
    rw [Primary.generate]
    simp only [List.map_append, List.length_append, List.mem_append, List.mem_singleton]
    refine ⟨List.pairwise_append.mpr ⟨order, List.pairwise_singleton _ _, ?_⟩, ?_⟩
    · intro address there address' there'
      obtain ⟨block, isBlock, rfl⟩ := List.mem_map.mp there
      obtain rfl := List.mem_singleton.mp there'
      exact (inside block isBlock).2
    · rintro block (isBlock | rfl)
      · have inside := inside block isBlock
        omega
      · simp only [CodeUnit.address, CodeUnit.generated, List.length_singleton]
        omega

/-! ### Enclosing units -/

/-- The inner unit is a block written directly in the body of the outer one. -/
def CodeUnit.Encloses (outer inner : CodeUnit) : Prop :=
  inner ∈ outer.generated.blocks ∧ inner.environment = outer.environment.enter outer.scope

/-- The blocks inside a block come with it. -/
def ClosesBlocks (generator : Generator) : Prop :=
  ∀ base, ∀ block ∈ (generator base).blocks, block.generated.blocks ⊆ (generator base).blocks

theorem closesBlocks_rule : GeneratorRule fun _ => ClosesBlocks where
  actions _ _ _ _ := nofun
  literal _ _ _ := nofun
  andThen := by
    intro _ first second early late base block isBlock
    rcases List.mem_append.mp isBlock with isBlock | isBlock
    · exact fun inner there => List.mem_append_left _ (early base block isBlock there)
    · exact fun inner there => List.mem_append_right _ (late _ block isBlock there)
  block := by
    intro environment parameters locals body inner base block isBlock
    rw [Primary.generate] at isBlock ⊢
    rcases List.mem_append.mp isBlock with isBlock | isBlock
    · exact fun nested there => List.mem_append_left _ (inner base block isBlock there)
    · obtain rfl := List.mem_singleton.mp isBlock
      exact fun nested there => List.mem_append_left _ there

/-- An object among the literals is a block written here, or no method. -/
def RefersDirectly (environment : Environment) (generator : Generator) : Prop :=
  ∀ base address, .addLiteral (.object address) ∈ (generator base).actions ∨
      .addLiteralIfAbsent (.object address) ∈ (generator base).actions →
    ∃ index, address = base + index ∧ index < (generator base).objects.length ∧
      ((∃ block ∈ (generator base).blocks, block.address = address ∧
          block.environment = environment) ∨
        ∀ method, (generator base).objects[index]? ≠ some (.method method))

theorem refersDirectly_rule : GeneratorRule RefersDirectly where
  actions _ _ symbols _ address there :=
    (there.elim (symbols address).1 (symbols address).2).elim
  literal := by
    intro _ source base address there
    cases source <;> simp_all [LiteralSource.generate, LiteralSource.literal,
      LiteralSource.object?]
  andThen := by
    intro environment first second early late base address there
    simp only [Generator.andThen, List.mem_append, List.length_append] at there ⊢
    have cases : (.addLiteral (.object address) ∈ (first base).actions ∨
        .addLiteralIfAbsent (.object address) ∈ (first base).actions) ∨
        (.addLiteral (.object address) ∈ (second (base + (first base).objects.length)).actions ∨
        .addLiteralIfAbsent (.object address) ∈
          (second (base + (first base).objects.length)).actions) := by
      grind
    rcases cases with there | there
    · obtain ⟨index, rfl, inside, refers⟩ := early base address there
      refine ⟨index, rfl, by omega, refers.imp ?_ fun none method => ?_⟩
      · rintro ⟨block, isBlock, same⟩
        exact ⟨block, Or.inl isBlock, same⟩
      · rw [List.getElem?_append_left inside]
        exact none method
    · obtain ⟨index, rfl, inside, refers⟩ := late _ address there
      refine ⟨(first base).objects.length + index, by omega, by omega,
        refers.imp ?_ fun none method => ?_⟩
      · rintro ⟨block, isBlock, same⟩
        exact ⟨block, Or.inr isBlock, same⟩
      · rw [List.getElem?_append_right (by omega), Nat.add_sub_cancel_left]
        exact none method
  block := by
    intro environment parameters locals body inner base address there
    rw [Primary.generate] at there ⊢
    simp only [List.mem_cons, Action.addLiteral.injEq, Literal.object.injEq, reduceCtorEq,
      List.not_mem_nil, or_false] at there
    subst there
    refine ⟨_, rfl, by simp, Or.inl ⟨_, List.mem_append_right _ List.mem_cons_self, rfl, rfl⟩⟩

/-- A block has the arguments its signature counts. -/
def CountsArguments (unit : CodeUnit) : Prop :=
  Signature.getNumberOfArguments unit.signature = unit.scope.arguments.length

theorem getNumberOfArguments_blockSignature (count : Nat) :
    Signature.getNumberOfArguments (blockSignature (count + 1)) = count + 1 := by
  have letters : (blockSignature (count + 1)).toList =
      "$block method".toList ++ List.replicate count ':' := by
    simp [blockSignature]
  have noOperator : Signature.isBinary (blockSignature (count + 1)) = false := by
    unfold Signature.isBinary
    rw [letters]
    rfl
  rw [Signature.getNumberOfArguments, noOperator, letters, List.count_append,
    List.count_replicate_self]
  simp

theorem countsArguments_rule : GeneratorRule fun _ generator =>
    ∀ base, ∀ block ∈ (generator base).blocks, CountsArguments block where
  actions _ _ _ _ := nofun
  literal _ _ _ := nofun
  andThen early late base block isBlock :=
    (List.mem_append.mp isBlock).elim (early base block) (late _ block)
  block := by
    intro environment parameters locals body inner base block isBlock
    rw [Primary.generate] at isBlock
    rcases List.mem_append.mp isBlock with isBlock | isBlock
    · exact inner base block isBlock
    · obtain rfl := List.mem_singleton.mp isBlock
      simp [CountsArguments, blockScope, getNumberOfArguments_blockSignature]

theorem countsArguments_pattern (pattern : MethodPattern) :
    Signature.getNumberOfArguments pattern.signature = pattern.arguments.length + 1 := by
  have keywords : ∀ (rest : List (Keyword × Parameter)) (first : Keyword × Parameter),
      Signature.isBinary (keywordSignature first rest) = false ∧
        (keywordSignature first rest).toList.count ':' = rest.length + 1 := by
    intro rest
    induction rest with
    | nil => exact fun first => first.1.lexical
    | cons next rest inductionHypothesis =>
        intro first
        obtain ⟨noOperator, colons⟩ := first.1.lexical
        have later := (inductionHypothesis next).2
        rw [keywordSignature]
        refine ⟨?_, ?_⟩
        · rw [Signature.isBinary_append (by omega), noOperator]
        · rw [String.toList_append, List.count_append, colons, later, List.length_cons]
          omega
  cases pattern with
  | unary selector =>
      rw [MethodPattern.signature, Signature.getNumberOfArguments, selector.lexical.1,
        selector.lexical.2]
      rfl
  | binary operator argument =>
      rw [MethodPattern.signature, Signature.getNumberOfArguments, operator.lexical]
      rfl
  | keyword first rest =>
      obtain ⟨noOperator, colons⟩ := keywords rest first
      rw [MethodPattern.signature, Signature.getNumberOfArguments, noOperator, colons]
      simp [MethodPattern.arguments]

/-! ### The units of a class -/

/-- What holds of the units that a part of a class adds from a base on. -/
structure UnitsNested (base : Nat) (generated : ClassGenerated) : Prop where
  order : (generated.units.map CodeUnit.address).Pairwise (· < ·)
  inside : ∀ unit ∈ generated.units,
    base ≤ unit.address ∧ unit.address < base + generated.objects.length
  closed : ∀ unit ∈ generated.units, unit.generated.blocks ⊆ generated.units
  counts : ∀ unit ∈ generated.units, CountsArguments unit

theorem UnitsNested.append {base : Nat} {early late : ClassGenerated}
    (first : UnitsNested base early) (second : UnitsNested (base + early.objects.length) late)
    (context : ClassGenerationContext) :
    UnitsNested base ⟨early.objects ++ late.objects, early.units ++ late.units, context⟩ := by
  refine ⟨?_, fun unit there => ?_, fun unit there => ?_, fun unit there => ?_⟩
  · rw [List.map_append]
    refine List.pairwise_append.mpr ⟨first.order, second.order, ?_⟩
    intro address there address' there'
    obtain ⟨unit, isUnit, rfl⟩ := List.mem_map.mp there
    obtain ⟨unit', isUnit', rfl⟩ := List.mem_map.mp there'
    have below := (first.inside unit isUnit).2
    have above := (second.inside unit' isUnit').1
    omega
  · rw [List.length_append]
    rcases List.mem_append.mp there with there | there
    · have inside := first.inside unit there
      omega
    · have inside := second.inside unit there
      omega
  · rcases List.mem_append.mp there with there | there
    · exact fun block isBlock => List.mem_append_left _ (first.closed unit there isBlock)
    · exact fun block isBlock => List.mem_append_right _ (second.closed unit there isBlock)
  · exact (List.mem_append.mp there).elim (first.counts unit) (second.counts unit)

theorem unitsNested_nil (base : Nat) (context : ClassGenerationContext) :
    UnitsNested base ⟨[], [], context⟩ := ⟨List.Pairwise.nil, nofun, nofun, nofun⟩

theorem unitsNested_method
    (add : Literal → ClassGenerationContext → ClassGenerationContext) (base : Nat)
    (cgenc : ClassGenerationContext) (definition : MethodDefinition) :
    UnitsNested base (definition.generate add base cgenc) := by
  cases definition with
  | primitive pattern => exact ⟨List.Pairwise.nil, nofun, nofun, nofun⟩
  | code pattern locals body =>
      rw [MethodDefinition.generate, MethodDefinition.unit?]
      simp only
      generalize isUnit : (CodeUnit.mk false ⟨[], cgenc⟩
        ⟨"self" :: pattern.arguments, declaredLocals locals⟩ pattern.signature base body) = unit
      have atBase : unit.base = base := by rw [← isUnit]
      obtain ⟨order, inside⟩ := ordersBlocks_rule.unit unit unit.base
      have closed := closesBlocks_rule.unit unit unit.base
      have counts := countsArguments_rule.unit unit unit.base
      have own : CountsArguments unit := by
        rw [← isUnit]
        exact countsArguments_pattern pattern
      refine ⟨?_, fun other there => ?_, fun other there => ?_, fun other there => ?_⟩
      · rw [List.map_append]
        refine List.pairwise_append.mpr ⟨order, List.pairwise_singleton _ _, ?_⟩
        intro address there address' there'
        obtain ⟨block, isBlock, rfl⟩ := List.mem_map.mp there
        obtain rfl := List.mem_singleton.mp there'
        exact (inside block isBlock).2
      · rw [List.length_append, List.length_singleton]
        rcases List.mem_append.mp there with there | there
        · have inside := inside other there
          simp only [CodeUnit.generated]
          omega
        · obtain rfl := List.mem_singleton.mp there
          simp only [CodeUnit.address]
          omega
      · rcases List.mem_append.mp there with there | there
        · exact fun block isBlock => List.mem_append_left _ (closed other there isBlock)
        · obtain rfl := List.mem_singleton.mp there
          exact fun block isBlock => List.mem_append_left _ isBlock
      · rcases List.mem_append.mp there with there | there
        · exact counts other there
        · exact List.mem_singleton.mp there ▸ own

theorem unitsNested_methods
    (add : Literal → ClassGenerationContext → ClassGenerationContext)
    (definitions : List MethodDefinition) : ∀ (base : Nat) (cgenc : ClassGenerationContext),
      UnitsNested base (generateMethods add base cgenc definitions) := by
  induction definitions with
  | nil => exact fun base cgenc => unitsNested_nil base cgenc
  | cons definition rest inductionHypothesis =>
      intro base cgenc
      exact (unitsNested_method add base cgenc definition).append (inductionHypothesis _ _) _

theorem unitsNested_class (definition : ClassDefinition) :
    UnitsNested 0 definition.generate := by
  have early := unitsNested_methods (fun invokable cgenc =>
    { cgenc with instanceMethods := cgenc.instanceMethods ++ [invokable] })
    definition.instanceSide.methods 0 definition.instanceContext
  refine early.append ?_ _
  rw [Nat.zero_add]
  cases definition.classSide with
  | none => exact unitsNested_nil _ _
  | some side => exact unitsNested_methods _ side.methods _ _

theorem mem_literals_apply {mgenc : MethodGenerationContext} {action : Action} {literal : Literal}
    (there : literal ∈ (action.apply mgenc).literals) :
    literal ∈ mgenc.literals ∨ action = .addLiteral literal ∨
      action = .addLiteralIfAbsent literal := by
  cases action with
  | addLiteral added =>
      rcases List.mem_append.mp there with there | there
      · exact Or.inl there
      · exact Or.inr (Or.inl (List.mem_singleton.mp there ▸ rfl))
  | addLiteralIfAbsent added =>
      rw [Action.apply, MethodGenerationContext.addLiteralIfAbsent] at there
      split at there
      · exact Or.inl there
      · rcases List.mem_append.mp there with there | there
        · exact Or.inl there
        · exact Or.inr (Or.inr (List.mem_singleton.mp there ▸ rfl))
  | emit instruction => cases instruction <;> exact Or.inl there

/-- A literal was there before or has been added. -/
theorem mem_literals_perform {actions : List Action} {literal : Literal} :
    ∀ {mgenc : MethodGenerationContext}, literal ∈ (mgenc.perform actions).literals →
      literal ∈ mgenc.literals ∨ .addLiteral literal ∈ actions ∨
        .addLiteralIfAbsent literal ∈ actions := by
  induction actions with
  | nil => exact fun there => Or.inl there
  | cons action rest inductionHypothesis =>
      intro mgenc there
      rcases inductionHypothesis there with there | added | added
      · rcases mem_literals_apply there with there | rfl | rfl
        · exact Or.inl there
        · exact Or.inr (Or.inl List.mem_cons_self)
        · exact Or.inr (Or.inr List.mem_cons_self)
      · exact Or.inr (Or.inl (List.mem_cons_of_mem _ added))
      · exact Or.inr (Or.inr (List.mem_cons_of_mem _ added))

/-- A method among the literals of a unit is a block written directly in it. -/
theorem encloses_of_literal {definition : ClassDefinition} {unit : CodeUnit} {address : Nat}
    {method : CompiledMethod} (isUnit : unit ∈ definition.generate.units)
    (literal : .object address ∈ unit.mgenc.literals)
    (isMethod : definition.generate.objects[address]? = some (.method method)) :
    ∃ block ∈ definition.generate.units, block.address = address ∧ unit.Encloses block := by
  have added := (mem_literals_perform literal).resolve_left List.not_mem_nil
  obtain ⟨index, rfl, inside, direct | noMethod⟩ :=
    refersDirectly_rule.unit unit unit.base address added
  · obtain ⟨block, isBlock, atAddress, environment⟩ := direct
    exact ⟨block, (unitsNested_class definition).closed unit isUnit isBlock, atAddress, isBlock,
      environment⟩
  · have found := (located_units definition unit isUnit).object inside
    rw [isMethod] at found
    exact absurd found.symm (noMethod method)

/-- A method or block of a class is known by its address. -/
theorem eq_of_address {definition : ClassDefinition} {first second : CodeUnit}
    (isFirst : first ∈ definition.generate.units) (isSecond : second ∈ definition.generate.units)
    (same : first.address = second.address) : first = second := by
  have order := (unitsNested_class definition).order
  have distinct : (definition.generate.units.map CodeUnit.address).Nodup :=
    order.imp fun less => Nat.ne_of_lt less
  exact List.inj_on_of_nodup_map distinct isFirst isSecond same

/-! ### Installed methods -/

/-- Is the object among the invokables of the class or of its metaclass? -/
def ClassGenerationContext.Installs (cgenc : ClassGenerationContext) (address : Nat) : Prop :=
  .object address ∈ cgenc.instanceMethods ∨ .object address ∈ cgenc.classMethods

instance (cgenc : ClassGenerationContext) (address : Nat) : Decidable (cgenc.Installs address) :=
  inferInstanceAs (Decidable (_ ∨ _))

/-- The function adds the literal it is given to the invokables, and nothing else. -/
def AddsInvokable (add : Literal → ClassGenerationContext → ClassGenerationContext) : Prop :=
  ∀ literal cgenc address, (add literal cgenc).Installs address →
    cgenc.Installs address ∨ literal = .object address

/-- An object that a part of a class installs is a primitive or a method that is no block. -/
def InstallsMethods (base : Nat) (cgenc : ClassGenerationContext) (generated : ClassGenerated) :
    Prop :=
  ∀ address, generated.classContext.Installs address → cgenc.Installs address ∨
    ∃ index, address = base + index ∧ index < generated.objects.length ∧
      ((∃ unit ∈ generated.units, unit.address = address ∧ unit.environment.scopes = []) ∨
        ∃ signature, generated.objects[index]? = some (.primitive signature))

theorem InstallsMethods.append {base : Nat} {cgenc : ClassGenerationContext}
    {early late : ClassGenerated} (first : InstallsMethods base cgenc early)
    (second : InstallsMethods (base + early.objects.length) early.classContext late) :
    InstallsMethods base cgenc
      ⟨early.objects ++ late.objects, early.units ++ late.units, late.classContext⟩ := by
  intro address installed
  simp only [List.mem_append, List.length_append]
  rcases second address installed with installed | ⟨index, rfl, inside, which⟩
  · refine (first address installed).imp_right ?_
    rintro ⟨index, rfl, inside, which⟩
    refine ⟨index, rfl, by omega, which.imp ?_ ?_⟩
    · rintro ⟨unit, isUnit, there⟩
      exact ⟨unit, Or.inl isUnit, there⟩
    · rintro ⟨signature, found⟩
      exact ⟨signature, by rw [List.getElem?_append_left inside, found]⟩
  · refine Or.inr ⟨early.objects.length + index, by omega, by omega, which.imp ?_ ?_⟩
    · rintro ⟨unit, isUnit, there⟩
      exact ⟨unit, Or.inr isUnit, there⟩
    · rintro ⟨signature, found⟩
      exact ⟨signature, by rw [List.getElem?_append_right (by omega), Nat.add_sub_cancel_left,
        found]⟩

theorem installsMethods_method
    {add : Literal → ClassGenerationContext → ClassGenerationContext} (adds : AddsInvokable add)
    (base : Nat) (cgenc : ClassGenerationContext) (definition : MethodDefinition) :
    InstallsMethods base cgenc (definition.generate add base cgenc) := by
  intro address installed
  cases definition with
  | primitive pattern =>
      refine (adds _ _ _ installed).imp_right fun same => ?_
      exact ⟨0, (Literal.object.inj same).symm, Nat.zero_lt_one, Or.inr ⟨_, rfl⟩⟩
  | code pattern locals body =>
      refine (adds _ _ _ installed).imp_right fun same => ?_
      obtain rfl := Literal.object.inj same
      refine ⟨_, rfl, ?_, Or.inl ⟨_, List.mem_append_right _ List.mem_cons_self, rfl, rfl⟩⟩
      simp [MethodDefinition.generate, MethodDefinition.unit?]

theorem installsMethods_methods
    {add : Literal → ClassGenerationContext → ClassGenerationContext} (adds : AddsInvokable add)
    (definitions : List MethodDefinition) : ∀ (base : Nat) (cgenc : ClassGenerationContext),
      InstallsMethods base cgenc (generateMethods add base cgenc definitions) := by
  induction definitions with
  | nil => exact fun _ _ _ installed => Or.inl installed
  | cons definition rest inductionHypothesis =>
      intro base cgenc
      exact (installsMethods_method adds base cgenc definition).append (inductionHypothesis _ _)

theorem addsInvokable_instance : AddsInvokable fun invokable cgenc =>
    { cgenc with instanceMethods := cgenc.instanceMethods ++ [invokable] } := by
  rintro literal cgenc address (installed | installed)
  · rcases List.mem_append.mp installed with old | new
    · exact Or.inl (Or.inl old)
    · exact Or.inr (List.mem_singleton.mp new).symm
  · exact Or.inl (Or.inr installed)

theorem addsInvokable_class : AddsInvokable fun invokable cgenc =>
    { cgenc with classMethods := cgenc.classMethods ++ [invokable] } := by
  rintro literal cgenc address (installed | installed)
  · exact Or.inl (Or.inl installed)
  · rcases List.mem_append.mp installed with old | new
    · exact Or.inl (Or.inr old)
    · exact Or.inr (List.mem_singleton.mp new).symm

/-- What a class installs is a method compiled outside of every scope, or a primitive. -/
theorem outermost_or_primitive_of_installed {definition : ClassDefinition} {address : Nat}
    (installed : definition.generate.classContext.Installs address) :
    (∃ unit ∈ definition.generate.units, unit.address = address ∧
      unit.environment.scopes = []) ∨
      ∃ signature, definition.generate.objects[address]? = some (.primitive signature) := by
  have early := installsMethods_methods addsInvokable_instance definition.instanceSide.methods 0
    definition.instanceContext
  have installs : InstallsMethods 0 definition.instanceContext definition.generate := by
    refine early.append ?_
    rw [Nat.zero_add]
    cases definition.classSide with
    | none => exact fun _ installed => Or.inl installed
    | some side => exact installsMethods_methods addsInvokable_class side.methods _ _
  obtain ⟨index, rfl, -, which⟩ :=
    (installs _ installed).resolve_left (by rintro (there | there) <;> exact nomatch there)
  rw [Nat.zero_add] at which ⊢
  exact which

/-! ### Contexts of units -/

/-- Actions change neither the names in scope nor the signature. -/
theorem scope_perform (actions : List Action) : ∀ mgenc : MethodGenerationContext,
    (mgenc.perform actions).toScope = mgenc.toScope ∧
      (mgenc.perform actions).signature = mgenc.signature := by
  induction actions with
  | nil => exact fun _ => ⟨rfl, rfl⟩
  | cons action rest inductionHypothesis =>
      intro mgenc
      have later := inductionHypothesis (action.apply mgenc)
      have same : (action.apply mgenc).toScope = mgenc.toScope ∧
          (action.apply mgenc).signature = mgenc.signature := by
        cases action with
        | addLiteral literal => exact ⟨rfl, rfl⟩
        | emit instruction => cases instruction <;> exact ⟨rfl, rfl⟩
        | addLiteralIfAbsent literal =>
            rw [Action.apply, MethodGenerationContext.addLiteralIfAbsent]
            split <;> exact ⟨rfl, rfl⟩
      exact ⟨later.1.trans same.1, later.2.trans same.2⟩

theorem CodeUnit.mgenc_locals (unit : CodeUnit) : unit.mgenc.locals = unit.scope.locals :=
  congrArg Scope.locals (scope_perform _ _).1

theorem CodeUnit.mgenc_signature (unit : CodeUnit) : unit.mgenc.signature = unit.signature :=
  (scope_perform _ _).2

end Somr.Compiler
