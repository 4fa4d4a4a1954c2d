import Somr.Compiler.Nesting
import Somr.Compiler.OperandEncoding
import Mathlib.Data.List.Nodup

/-!
Owns the literal table of a method: generation emits only literals that are in
the table and adds only literals that are not, so the table lists every literal
once and an index never changes.

With that every operand byte is read back as the operand that was handed to the
generator exactly when the operand is below 256.
-/

namespace Somr.Compiler

/-! ### Admissible actions -/

/-- The literals an action needs or must not find in the table. -/
def Action.Admissible (literals : List Literal) : Action → Prop
  | .addLiteralIfAbsent _ => True
  | .addLiteral literal => literal ∉ literals
  | .emit instruction => ∀ literal ∈ instruction.literal?, literal ∈ literals

def Admissible : MethodGenerationContext → List Action → Prop
  | _, [] => True
  | mgenc, action :: rest =>
      action.Admissible mgenc.literals ∧ Admissible (Action.apply mgenc action) rest

theorem admissible_append (mgenc : MethodGenerationContext) (early late : List Action) :
    Admissible mgenc (early ++ late) ↔
      Admissible mgenc early ∧ Admissible (mgenc.perform early) late := by
  induction early generalizing mgenc with
  | nil => exact ⟨fun admissible => ⟨trivial, admissible⟩, And.right⟩
  | cons action rest inductionHypothesis =>
      rw [List.cons_append, Admissible, inductionHypothesis, Admissible, and_assoc]
      rfl

theorem literals_emit (instruction : Instruction) (mgenc : MethodGenerationContext) :
    (instruction.emit mgenc).literals = mgenc.literals := by
  cases instruction <;> rfl

theorem prefix_apply (mgenc : MethodGenerationContext) (action : Action) :
    mgenc.literals <+: (Action.apply mgenc action).literals := by
  cases action with
  | addLiteralIfAbsent literal =>
      rw [Action.apply, MethodGenerationContext.addLiteralIfAbsent]
      split
      · exact List.prefix_rfl
      · exact List.prefix_append _ _
  | addLiteral literal => exact List.prefix_append _ _
  | emit instruction =>
      have same : (Action.apply mgenc (.emit instruction)).literals = mgenc.literals :=
        literals_emit instruction mgenc
      exact ⟨[], by rw [same, List.append_nil]⟩

theorem prefix_perform (mgenc : MethodGenerationContext) (actions : List Action) :
    mgenc.literals <+: (mgenc.perform actions).literals := by
  induction actions generalizing mgenc with
  | nil => exact List.prefix_rfl
  | cons action rest inductionHypothesis =>
      exact (prefix_apply mgenc action).trans (inductionHypothesis _)

theorem nodup_apply {mgenc : MethodGenerationContext} {action : Action}
    (distinct : mgenc.literals.Nodup) (admissible : action.Admissible mgenc.literals) :
    (Action.apply mgenc action).literals.Nodup := by
  have added {literal : Literal} (absent : literal ∉ mgenc.literals) :
      (mgenc.literals ++ [literal]).Nodup := by
    rw [← List.concat_eq_append]
    exact List.Nodup.concat absent distinct
  cases action with
  | addLiteralIfAbsent literal =>
      rw [Action.apply, MethodGenerationContext.addLiteralIfAbsent]
      split
      · exact distinct
      · next absent => exact added absent
  | addLiteral literal => exact added admissible
  | emit instruction =>
      rw [Action.apply, literals_emit]
      exact distinct

theorem nodup_perform {mgenc : MethodGenerationContext} {actions : List Action}
    (distinct : mgenc.literals.Nodup) (admissible : Admissible mgenc actions) :
    (mgenc.perform actions).literals.Nodup := by
  induction actions generalizing mgenc with
  | nil => exact distinct
  | cons action rest inductionHypothesis =>
      exact inductionHypothesis (nodup_apply distinct admissible.1) admissible.2

/-- The instructions among some actions. -/
def instructions (actions : List Action) : List Instruction :=
  actions.filterMap fun
    | .emit instruction => some instruction
    | _ => none

theorem instructions_append (early late : List Action) :
    instructions (early ++ late) = instructions early ++ instructions late :=
  List.filterMap_append

/-- The code admissible actions emit, with the indexes of the finished table. -/
theorem bytecode_perform {mgenc : MethodGenerationContext} {actions : List Action}
    (admissible : Admissible mgenc actions) :
    (mgenc.perform actions).bytecode = mgenc.bytecode ++
      (instructions actions).flatMap (Instruction.encode (mgenc.perform actions).literals) := by
  induction actions generalizing mgenc with
  | nil => simp [instructions]
  | cons action rest inductionHypothesis =>
      have later := inductionHypothesis admissible.2
      have performed : mgenc.perform (action :: rest) = (Action.apply mgenc action).perform rest :=
        rfl
      rw [performed, later]
      cases action with
      | addLiteralIfAbsent literal =>
          have same : (Action.apply mgenc (.addLiteralIfAbsent literal)).bytecode =
              mgenc.bytecode := by
            rw [Action.apply, MethodGenerationContext.addLiteralIfAbsent]
            split <;> rfl
          rw [same]
          rfl
      | addLiteral literal => rfl
      | emit instruction =>
          have known := admissible.1
          obtain ⟨more, grown⟩ := prefix_perform (Action.apply mgenc (.emit instruction)) rest
          rw [Action.apply, literals_emit] at grown
          rw [Action.apply] at *
          rw [← grown, emit_eq instruction mgenc known]
          simp [instructions, encode_append instruction more known]

/-- Every literal of an emitted instruction is in the finished table. -/
theorem literal_of_instruction {mgenc : MethodGenerationContext} {actions : List Action}
    (admissible : Admissible mgenc actions) :
    ∀ instruction ∈ instructions actions, ∀ literal ∈ instruction.literal?,
      literal ∈ (mgenc.perform actions).literals := by
  induction actions generalizing mgenc with
  | nil => simp [instructions]
  | cons action rest inductionHypothesis =>
      intro instruction member literal named
      have later := inductionHypothesis admissible.2
      cases action with
      | addLiteralIfAbsent _ | addLiteral _ => exact later instruction member literal named
      | emit emitted =>
          rw [show instructions (.emit emitted :: rest) = emitted :: instructions rest from rfl,
            List.mem_cons] at member
          rcases member with rfl | member
          · have present : literal ∈ (Action.apply mgenc (.emit instruction)).literals := by
              rw [Action.apply, literals_emit]
              exact admissible.1 literal named
            exact (prefix_perform _ rest).subset present
          · exact later instruction member literal named

/-! ### Generation is admissible -/

/-- Every object of a table exists. -/
def Allocated (base : Nat) (mgenc : MethodGenerationContext) : Prop :=
  ∀ address, .object address ∈ mgenc.literals → address < base

/-- From any table with the needed literals, generation is admissible and the
objects it adds are its own. -/
def KeepsTable (needs : List Literal) (generator : Generator) : Prop :=
  ∀ (base : Nat) (mgenc : MethodGenerationContext), Allocated base mgenc →
    (∀ literal ∈ needs, literal ∈ mgenc.literals) →
    Admissible mgenc (generator base).actions ∧
      Allocated (base + (generator base).objects.length)
        (mgenc.perform (generator base).actions)

theorem KeepsTable.weaken {needs more : List Literal} {generator : Generator}
    (keeps : KeepsTable needs generator) (subset : needs ⊆ more) : KeepsTable more generator :=
  fun base mgenc allocated present =>
    keeps base mgenc allocated fun literal member => present literal (subset member)

theorem KeepsTable.andThen {needs : List Literal} {first second : Generator}
    (early : KeepsTable needs first) (late : KeepsTable needs second) :
    KeepsTable needs (first.andThen second) := by
  intro base mgenc allocated present
  obtain ⟨admissible, allocated⟩ := early base mgenc allocated present
  obtain ⟨admissible', allocated'⟩ := late _ (mgenc.perform (first base).actions) allocated
    fun literal member => (prefix_perform mgenc _).subset (present literal member)
  refine ⟨(admissible_append _ _ _).mpr ⟨admissible, admissible'⟩, ?_⟩
  rw [Generator.andThen, MethodGenerationContext.perform_append, List.length_append,
    ← Nat.add_assoc]
  exact allocated'

theorem keepsTable_nil (needs : List Literal) : KeepsTable needs (.actions []) :=
  fun _ _ allocated _ => ⟨trivial, allocated⟩

/-- A symbol that is added may be used by what follows. -/
theorem keepsTable_addSymbol {needs : List Literal} (name : String) {rest : Generator}
    (later : KeepsTable (.symbol name :: needs) rest) :
    KeepsTable needs ((Generator.actions [.addLiteralIfAbsent (.symbol name)]).andThen rest) := by
  intro base mgenc allocated present
  let added := mgenc.addLiteralIfAbsent (.symbol name)
  have grown : mgenc.literals <+: added.literals :=
    prefix_apply mgenc (.addLiteralIfAbsent (.symbol name))
  have contains : Literal.symbol name ∈ added.literals := by
    simp only [added, MethodGenerationContext.addLiteralIfAbsent]
    split
    · assumption
    · exact List.mem_append_right _ (List.mem_singleton_self _)
  have allocated : Allocated base added := by
    intro address member
    refine allocated address ?_
    simp only [added, MethodGenerationContext.addLiteralIfAbsent] at member
    split at member
    · exact member
    · simpa [MethodGenerationContext.addLiteral] using member
  obtain ⟨admissible, allocated⟩ := later base added allocated fun literal member => by
    rcases List.mem_cons.mp member with rfl | member
    · exact contains
    · exact grown.subset (present literal member)
  exact ⟨⟨trivial, admissible⟩, allocated⟩

theorem keepsTable_emit {needs : List Literal} (instruction : Instruction)
    (known : ∀ literal ∈ instruction.literal?, literal ∈ needs) :
    KeepsTable needs (.actions [.emit instruction]) := by
  intro base mgenc allocated present
  refine ⟨⟨fun literal named => present literal (known literal named), trivial⟩, ?_⟩
  have same : (mgenc.perform [.emit instruction]).literals = mgenc.literals :=
    literals_emit instruction mgenc
  intro address member
  rw [Generator.actions, same] at member
  exact allocated address member

/-- An object literal that the generation allocates last is new. -/
theorem keepsTable_object {needs : List Literal} (inner : Generator)
    (object : Nat → CompiledObject) (blocks : Nat → List CodeUnit) (add : Literal → Action)
    (make : Literal → Instruction)
    (adds : add = .addLiteral ∨ add = .addLiteralIfAbsent)
    (names : ∀ literal, (make literal).literal? = some literal) :
    KeepsTable needs fun base =>
      let literal : Literal := .object (base + (inner base).objects.length)
      ⟨[add literal, .emit (make literal)], (inner base).objects ++ [object base],
        blocks base⟩ := by
  intro base mgenc allocated present
  let literal : Literal := .object (base + (inner base).objects.length)
  have fresh : literal ∉ mgenc.literals := by
    intro member
    have below := allocated _ member
    omega
  have applied : Action.apply mgenc (add literal) = mgenc.addLiteral literal := by
    rcases adds with rfl | rfl
    · rfl
    · rw [Action.apply, MethodGenerationContext.addLiteralIfAbsent, if_neg fresh]
  have admissible : (add literal).Admissible mgenc.literals := by
    rcases adds with rfl | rfl
    · exact fresh
    · trivial
  refine ⟨⟨admissible, ?_, trivial⟩, ?_⟩
  · rw [applied]
    intro named present
    rw [names] at present
    obtain rfl := Option.mem_some.mp present
    exact List.mem_append_right _ (List.mem_singleton_self _)
  · intro address member
    have table : (mgenc.perform [add literal, .emit (make literal)]).literals =
        mgenc.literals ++ [literal] := by
      show ((make literal).emit (Action.apply mgenc (add literal))).literals = _
      rw [literals_emit, applied]
      rfl
    rw [table, List.mem_append, List.mem_singleton] at member
    rw [List.length_append, List.length_singleton]
    rcases member with member | member
    · have below := allocated address member
      omega
    · have same : address = base + (inner base).objects.length := by injection member
      omega

theorem Generator.actions_cons (action : Action) (rest : List Action) :
    Generator.actions (action :: rest) =
      (Generator.actions [action]).andThen (Generator.actions rest) := rfl

theorem Generator.actions_append (early late : List Action) :
    Generator.actions (early ++ late) =
      (Generator.actions early).andThen (Generator.actions late) := rfl

theorem Generator.actions_nil_andThen (rest : Generator) :
    (Generator.actions []).andThen rest = rest := by
  funext base
  simp [Generator.andThen, Generator.actions]

theorem Generator.andThen_assoc (first second third : Generator) :
    (first.andThen second).andThen third = first.andThen (second.andThen third) := by
  funext base
  simp [Generator.andThen, Nat.add_assoc]

/-- A selector is added right before it is sent. -/
theorem keepsTable_symbolThen {needs : List Literal} (name : String) (instruction : Instruction)
    (named : instruction.literal? = some (.symbol name)) {rest : List Action}
    (later : KeepsTable needs (.actions rest)) :
    KeepsTable needs
      (.actions (.addLiteralIfAbsent (.symbol name) :: .emit instruction :: rest)) := by
  rw [Generator.actions_cons, Generator.actions_cons]
  refine keepsTable_addSymbol name (KeepsTable.andThen (keepsTable_emit instruction ?_)
    (later.weaken (List.subset_cons_self _ _)))
  intro literal member
  rw [named] at member
  obtain rfl := Option.mem_some.mp member
  exact List.mem_cons_self

theorem literal?_sendInstruction (super : Bool) (selector : String) :
    (sendInstruction super selector).literal? = some (.symbol selector) := by
  cases super <;> rfl

theorem keepsTable_pushVariable (needs : List Literal) (environment : Environment)
    (var : String) : KeepsTable needs (.actions (pushVariable environment var)) := by
  rw [pushVariable]
  split
  · exact keepsTable_emit _ (by simp [Instruction.literal?])
  · exact keepsTable_emit _ (by simp [Instruction.literal?])
  · split
    · exact keepsTable_symbolThen var _ rfl (keepsTable_nil needs)
    · exact keepsTable_symbolThen var _ rfl (keepsTable_nil needs)

theorem keepsTable_unaryActions (needs : List Literal) (keepSuper super : Bool)
    (unaries : List Identifier) :
    KeepsTable needs (.actions (unaryActions keepSuper super unaries)) := by
  induction unaries generalizing super with
  | nil => exact keepsTable_nil needs
  | cons selector rest inductionHypothesis =>
      exact keepsTable_symbolThen selector.text _ (literal?_sendInstruction _ _)
        (inductionHypothesis _)

theorem keepsTable_sendActions (needs : List Literal) (super : Bool) (keywords : Keywords) :
    KeepsTable needs (.actions (keywords.sendActions super)) := by
  cases keywords with
  | done => exact keepsTable_nil needs
  | message => exact keepsTable_symbolThen _ _ (literal?_sendInstruction _ _) (keepsTable_nil needs)

/-- The names an assignment needs in the table before it can store. -/
def targetLiterals (targets : List Identifier) : List Literal :=
  targets.map fun target => .symbol target.text

theorem keepsTable_targets {needs : List Literal} (targets : List Identifier) {rest : Generator}
    (later : KeepsTable (targetLiterals targets ++ needs) rest) :
    KeepsTable needs ((Generator.actions
      (targets.map fun target => .addLiteralIfAbsent (.symbol target.text))).andThen rest) := by
  induction targets generalizing needs with
  | nil =>
      rw [List.map_nil, Generator.actions_nil_andThen]
      exact later
  | cons target more inductionHypothesis =>
      rw [List.map_cons, Generator.actions_cons, Generator.andThen_assoc]
      refine keepsTable_addSymbol target.text (inductionHypothesis (later.weaken ?_))
      intro literal member
      simp only [targetLiterals, List.map_cons, List.cons_append, List.mem_cons,
        List.mem_append] at member ⊢
      tauto

theorem keepsTable_popVariable {needs : List Literal} (environment : Environment) (var : String)
    (present : .symbol var ∈ needs) : KeepsTable needs (.actions (popVariable environment var)) := by
  rw [popVariable]
  split
  · exact keepsTable_emit _ (by simp [Instruction.literal?])
  · exact keepsTable_emit _ (by simp [Instruction.literal?])
  · refine keepsTable_emit _ fun literal named => ?_
    obtain rfl := Option.mem_some.mp named
    exact present

theorem keepsTable_assignActions {needs : List Literal} (environment : Environment)
    (targets : List Identifier) (present : targetLiterals targets ⊆ needs) :
    KeepsTable needs (.actions (assignActions environment targets)) := by
  rw [assignActions, Generator.actions_append]
  refine KeepsTable.andThen ?_ ?_
  · clear present
    induction targets with
    | nil => exact keepsTable_nil needs
    | cons target more inductionHypothesis =>
        rw [List.map_cons, Generator.actions_cons]
        exact KeepsTable.andThen (keepsTable_emit _ (by simp [Instruction.literal?]))
          inductionHypothesis
  · induction targets with
    | nil => exact keepsTable_nil needs
    | cons target more inductionHypothesis =>
        rw [targetLiterals, List.map_cons, List.cons_subset] at present
        rw [List.flatMap_cons, Generator.actions_append]
        exact KeepsTable.andThen (keepsTable_popVariable environment target.text present.1)
          (inductionHypothesis present.2)

theorem keepsTable_literal (needs : List Literal) (source : LiteralSource) :
    KeepsTable needs source.generate := by
  have object (value : CompiledObject) : KeepsTable needs fun base =>
      ⟨[.addLiteralIfAbsent (.object base), .emit (.pushConstant (.object base))], [value], []⟩ :=
    keepsTable_object (.actions []) (fun _ => value) (fun _ => []) .addLiteralIfAbsent
      .pushConstant (Or.inr rfl) fun _ => rfl
  cases source with
  | integer digits | negative digits | string chars => exact object _
  | symbol selector =>
      exact keepsTable_symbolThen _ (.pushConstant (.symbol selector.token.text)) rfl
        (keepsTable_nil needs)
  | symbolString chars =>
      exact keepsTable_symbolThen _ (.pushConstant (.symbol chars)) rfl (keepsTable_nil needs)

mutual

theorem keepsTable_primary (environment : Environment) :
    (tree : Primary) → (needs : List Literal) → KeepsTable needs (tree.generate environment)
  | .name _, needs => keepsTable_pushVariable needs environment _
  | .term expression, needs => keepsTable_expression environment expression needs
  | .block parameters locals body, _ =>
      keepsTable_object
        ((body.generate (environment.enter (blockScope parameters locals)) true).andThen
          (.actions (body.closing true)))
        _ _ .addLiteral .pushBlock (Or.inl rfl) fun _ => rfl
  | .literal source, needs => keepsTable_literal needs source

theorem keepsTable_expression (environment : Environment) :
    (tree : Expression) → (needs : List Literal) → KeepsTable needs (tree.generate environment)
  | .mk targets primary unaries binaries keywords, needs => by
      rw [Expression.generate]
      refine keepsTable_targets targets ?_
      refine (keepsTable_primary environment primary _).andThen ?_
      refine (keepsTable_unaryActions _ _ _ unaries).andThen ?_
      refine (keepsTable_binaries environment binaries _ _).andThen ?_
      refine (keepsTable_keywords environment keywords _).andThen ?_
      rw [Generator.actions_append]
      exact (keepsTable_sendActions _ _ keywords).andThen
        (keepsTable_assignActions environment targets (List.subset_append_left _ _))

theorem keepsTable_binaries (environment : Environment) :
    (tree : Binaries) → (super : Bool) → (needs : List Literal) →
      KeepsTable needs (tree.generate environment super)
  | .done, _, needs => keepsTable_nil needs
  | .message operator primary unaries rest, super, needs => by
      rw [Binaries.generate]
      refine keepsTable_addSymbol operator.token.text ?_
      refine (keepsTable_primary environment primary _).andThen ?_
      rw [Generator.actions_append]
      refine ((keepsTable_unaryActions _ _ _ unaries).andThen (keepsTable_emit _ ?_)).andThen
        (keepsTable_binaries environment rest _ _)
      intro literal named
      rw [literal?_sendInstruction] at named
      obtain rfl := Option.mem_some.mp named
      exact List.mem_cons_self

theorem keepsTable_keywords (environment : Environment) :
    (tree : Keywords) → (needs : List Literal) → KeepsTable needs (tree.generate environment)
  | .done, needs => keepsTable_nil needs
  | .message _ primary unaries binaries rest, needs => by
      rw [Keywords.generate]
      exact (keepsTable_primary environment primary _).andThen
        ((keepsTable_unaryActions _ _ _ unaries).andThen
          ((keepsTable_binaries environment binaries _ _).andThen
            (keepsTable_keywords environment rest _)))

end

theorem keepsTable_plain {needs : List Literal} (actions : List Action)
    (plain : ∀ action ∈ actions, ∃ instruction : Instruction,
      action = .emit instruction ∧ instruction.literal? = none) :
    KeepsTable needs (.actions actions) := by
  induction actions with
  | nil => exact keepsTable_nil needs
  | cons action rest inductionHypothesis =>
      obtain ⟨instruction, rfl, noLiteral⟩ := plain action List.mem_cons_self
      rw [Generator.actions_cons]
      exact KeepsTable.andThen (keepsTable_emit _ (by simp [noLiteral]))
        (inductionHypothesis fun action member => plain action (List.mem_cons_of_mem _ member))

theorem keepsTable_body (environment : Environment) (block : Bool) (needs : List Literal)
    (tree : Body) : KeepsTable needs (tree.generate environment block) := by
  cases tree with
  | empty =>
      rw [Body.generate]
      cases block <;> exact keepsTable_plain _ (by simp [Instruction.literal?])
  | result value period =>
      rw [Body.generate]
      refine (keepsTable_expression environment value needs).andThen ?_
      cases block <;> exact keepsTable_plain _ (by simp [Instruction.literal?])
  | last value => exact keepsTable_expression environment value needs
  | statement value rest =>
      rw [Body.generate]
      refine (keepsTable_expression environment value needs).andThen (KeepsTable.andThen ?_
        (keepsTable_body environment block needs rest))
      split
      · exact keepsTable_nil needs
      · exact keepsTable_plain _ (by simp [Instruction.literal?])

theorem keepsTable_closing (needs : List Literal) (block : Bool) (body : Body) :
    KeepsTable needs (.actions (body.closing block)) := by
  rw [Body.closing]
  split
  · cases block <;> exact keepsTable_plain _ (by simp [Instruction.literal?])
  · exact keepsTable_nil needs

/-- The actions of a whole method or block are admissible. -/
theorem CodeUnit.admissible (unit : CodeUnit) :
    Admissible (.opened unit.block unit.signature unit.scope) unit.generated.actions :=
  (((keepsTable_body _ unit.block [] unit.body).andThen
    (keepsTable_closing [] unit.block unit.body)) unit.base
      (.opened unit.block unit.signature unit.scope)
        (fun _ member => absurd member List.not_mem_nil)
        (fun _ member => absurd member List.not_mem_nil)).1

/-! ### Operands -/

/-- An emitted instruction is read back at its offset as its truncation. -/
theorem fetch_emission {mgenc : MethodGenerationContext} {early late : List Action}
    {instruction : Instruction}
    (admissible : Admissible mgenc (early ++ .emit instruction :: late)) :
    let final := mgenc.perform (early ++ .emit instruction :: late)
    (fetch final.literals (final.bytecode.drop (mgenc.perform early).bytecode.length)).map
      Prod.fst = instruction.truncate final.literals := by
  intro final
  have behind : final.bytecode = (mgenc.perform early).bytecode ++
      (instruction.encode final.literals ++
        (instructions late).flatMap (Instruction.encode final.literals)) := by
    have emitted := bytecode_perform ((admissible_append _ _ _).mp admissible).2
    rw [← MethodGenerationContext.perform_append] at emitted
    exact emitted
  rw [behind, List.drop_left, fetch_encode, Option.map_map]
  exact Option.map_id'

/-- The operands handed to an `Emit` function are read back by the interpreter
exactly when each of them is below 256. -/
theorem emission_read_back_iff {mgenc : MethodGenerationContext} {early late : List Action}
    {instruction : Instruction} (distinct : mgenc.literals.Nodup)
    (admissible : Admissible mgenc (early ++ .emit instruction :: late)) :
    let final := mgenc.perform (early ++ .emit instruction :: late)
    (fetch final.literals (final.bytecode.drop (mgenc.perform early).bytecode.length)).map
      Prod.fst = some instruction ↔ instruction.Fits (mgenc.perform early).literals := by
  intro final
  have known : ∀ literal ∈ instruction.literal?, literal ∈ (mgenc.perform early).literals :=
    ((admissible_append _ _ _).mp admissible).2.1
  obtain ⟨more, grown⟩ : (mgenc.perform early).literals <+: final.literals := by
    have grown := prefix_perform (mgenc.perform early) (.emit instruction :: late)
    rw [← MethodGenerationContext.perform_append] at grown
    exact grown
  have present : ∀ literal ∈ instruction.literal?, literal ∈ final.literals := by
    intro literal named
    rw [← grown]
    exact List.mem_append_left _ (known literal named)
  rw [fetch_emission admissible,
    truncate_eq_some_iff _ (nodup_perform distinct admissible) present, Instruction.Fits,
    Instruction.Fits, ← grown, operands_append instruction more known]

/-- In the code of every method and block of a class, an instruction is read back
as it was handed to the generator exactly when its operands are below 256. -/
theorem operands_read_back_iff (definition : ClassDefinition) (unit : CodeUnit)
    (compiled : unit ∈ definition.generate.units) (early late : List Action)
    (instruction : Instruction)
    (handed : unit.generated.actions = early ++ .emit instruction :: late) :
    let mgenc := (MethodGenerationContext.opened unit.block unit.signature unit.scope).perform early
    ∃ method, (Parser.parse definition.tokens).state.objects[unit.address]? =
        some (.method method) ∧
      ((fetch method.literals (method.bytecode.drop mgenc.bytecode.length)).map Prod.fst =
        some instruction ↔ instruction.Fits mgenc.literals) := by
  intro mgenc
  refine ⟨unit.mgenc.compiled, placed_units definition unit compiled, ?_⟩
  have admissible := unit.admissible
  rw [handed] at admissible
  rw [MethodGenerationContext.compiled, CodeUnit.mgenc, handed]
  exact emission_read_back_iff List.nodup_nil admissible

/-! ### A method with more constants than a byte counts -/

/-- A body of integer constants, each a statement of its own. -/
def constants : Nat → Body
  | 0 => .empty
  | number + 1 => .statement (.mk [] (.literal (.integer "0")) [] .done .done) (constants number)

/-- A class `Foo` with one method `run`. -/
def runClass (body : Body) : ClassDefinition where
  name := ⟨"Foo", by decide⟩
  superName := none
  instanceSide := ⟨none, [.code (.unary ⟨"run", by decide⟩) none body], by
    intro _ method member
    obtain rfl := Option.mem_some.mp member
    exact Symbol.noConfusion⟩
  classSide := none

def runUnit (body : Body) : CodeUnit :=
  ⟨false, ⟨[], (runClass body).instanceContext⟩, ⟨["self"], []⟩, "run", 0, body⟩

theorem units_runClass (body : Body) :
    (runClass body).generate.units = (runUnit body).generated.blocks ++ [runUnit body] := by
  rw [ClassDefinition.generate]
  show (((runUnit body).generated.blocks ++ [runUnit body]) ++ []) ++ [] = _
  rw [List.append_nil, List.append_nil]

theorem runUnit_compiled (body : Body) : runUnit body ∈ (runClass body).generate.units := by
  rw [units_runClass]
  exact List.mem_append_right _ (List.mem_singleton_self _)

/-- The first constant of such a method is read back. -/
theorem first_constant_read_back : ∃ method,
    (Parser.parse (runClass (constants 1)).tokens).state.objects[(runUnit (constants 1)).address]? =
      some (.method method) ∧
    (fetch method.literals (method.bytecode.drop 0)).map Prod.fst =
      some (.pushConstant (.object 0)) := by
  obtain ⟨method, found, readBack⟩ := operands_read_back_iff (runClass (constants 1)) (runUnit (constants 1))
    (runUnit_compiled (constants 1)) [.addLiteralIfAbsent (.object 0)]
    [.emit .pop, .emit (.pushArgument 0 0), .emit .returnLocal] (.pushConstant (.object 0))
    (by decide)
  exact ⟨method, found, readBack.mpr (by decide)⟩

/-- What the statements before the end of the body generate. -/
def constantActions (number : Nat) : List Action :=
  (List.range number).flatMap fun address =>
    [.addLiteralIfAbsent (.object address), .emit (.pushConstant (.object address)), .emit .pop]

/-- A constant is not in the table of the constants before it. -/
theorem literals_constant (mgenc : MethodGenerationContext) (number : Nat)
    (table : mgenc.literals = (List.range number).map Literal.object) :
    (mgenc.addLiteralIfAbsent (.object number)).literals =
      (List.range (number + 1)).map Literal.object := by
  have absent : Literal.object number ∉ mgenc.literals := by
    rw [table]
    simp
  rw [MethodGenerationContext.addLiteralIfAbsent, if_neg absent, List.range_succ, List.map_append,
    ← table]
  rfl

theorem literals_constantActions (mgenc : MethodGenerationContext) (fresh : mgenc.literals = [])
    (number : Nat) :
    (mgenc.perform (constantActions number)).literals =
      (List.range number).map Literal.object := by
  induction number with
  | zero => exact fresh
  | succ number inductionHypothesis =>
      have more : constantActions (number + 1) = constantActions number ++
          [.addLiteralIfAbsent (.object number), .emit (.pushConstant (.object number)),
            .emit .pop] := by
        rw [constantActions, List.range_succ, List.flatMap_append]
        rfl
      rw [more, MethodGenerationContext.perform_append]
      exact literals_constant _ number inductionHypothesis

theorem literals_nextConstant (mgenc : MethodGenerationContext) (fresh : mgenc.literals = [])
    (number : Nat) :
    (mgenc.perform (constantActions number ++ [.addLiteralIfAbsent (.object number)])).literals =
      (List.range (number + 1)).map Literal.object := by
  rw [MethodGenerationContext.perform_append]
  exact literals_constant _ number (literals_constantActions mgenc fresh number)

/-- The 257th constant is handed to the generator with 257 literals in the table. -/
theorem constantsUnit_actions : ∃ early late : List Action,
    (runUnit (constants 257)).generated.actions =
      early ++ .emit (.pushConstant (.object 256)) :: late ∧
    ((MethodGenerationContext.opened (runUnit (constants 257)).block (runUnit (constants 257)).signature
      (runUnit (constants 257)).scope).perform early).literals = (List.range 257).map Literal.object := by
  have handed : (runUnit (constants 257)).generated.actions =
      (constantActions 256 ++ [.addLiteralIfAbsent (.object 256)]) ++
        .emit (.pushConstant (.object 256)) ::
          [.emit .pop, .emit (.pushArgument 0 0), .emit .returnLocal] := by
    decide +kernel
  exact ⟨_, _, handed, literals_nextConstant _ rfl 256⟩

/-- The operand of the 257th constant of a method is not read back. -/
theorem operand_lost : ¬ ∀ (definition : ClassDefinition) (unit : CodeUnit),
    unit ∈ definition.generate.units → ∀ (early late : List Action) (instruction : Instruction),
    unit.generated.actions = early ++ .emit instruction :: late →
    ∃ method, (Parser.parse definition.tokens).state.objects[unit.address]? =
        some (.method method) ∧
      (fetch method.literals (method.bytecode.drop ((MethodGenerationContext.opened unit.block
        unit.signature unit.scope).perform early).bytecode.length)).map Prod.fst =
          some instruction := by
  intro lossless
  obtain ⟨early, late, handed, table⟩ := constantsUnit_actions
  obtain ⟨method, found, readBack⟩ := lossless _ _ (runUnit_compiled (constants 257)) _ _ _ handed
  rw [placed_units _ _ (runUnit_compiled (constants 257))] at found
  obtain rfl : (runUnit (constants 257)).mgenc.compiled = method := by
    injection found with same
    injection same
  have admissible := (runUnit (constants 257)).admissible
  rw [handed] at admissible
  rw [MethodGenerationContext.compiled, CodeUnit.mgenc, handed] at readBack
  have fits := (emission_read_back_iff List.nodup_nil admissible).mp readBack
  rw [Instruction.Fits, table] at fits
  exact absurd fits (by decide +kernel)

end Somr.Compiler
