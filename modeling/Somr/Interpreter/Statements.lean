import Somr.Compiler.StackVerification
import Somr.Interpreter.Evaluation
import Somr.Interpreter.FrameRanges

/-!
Owns what the statements of a method or block mean, and that the code the compiler
has made of them means the same wherever it is read back.
-/

namespace Somr.Interpreter

open Foundation Compiler

section

variable {World Object : Type} (compilations : List Compilation) (domain : Domain World Object)

/-! ### The meaning of statements -/

/-- The value of an expression in an activation. -/
def expressionValue (send : Sending World Object) (address : Nat) (environment : Environment)
    (base : Nat) (expression : Expression) : EvaluationM World Object (Value Object) :=
  (instructionSemantics compilations domain send address).value environment
    (expression.tree environment base)

/-- The statements of a method or block, the last of which answers. A method answers
its receiver if nothing else is said, a block the value of its last statement. -/
def bodyValue (send : Sending World Object) (address : Nat) (environment : Environment)
    (block : Bool) : Nat → Body → EvaluationM World Object (Value Object)
  | _, .empty =>
      (if block then lastVariable address else argumentAt address 0 0) >>= answerFrom address
  | base, .result value _ => do
      let result ← expressionValue compilations domain send address environment base value
      if block then escapeFrom address result else answerFrom address result
  | base, .last value => do
      let result ← expressionValue compilations domain send address environment base value
      if block then answerFrom address result
      else argumentAt address 0 0 >>= answerFrom address
  | base, .statement value rest => do
      let result ← expressionValue compilations domain send address environment base value
      if block && rest.isEmpty then answerFrom address result
      else
        bodyValue send address environment block
          (base + (value.generate environment base).objects.length) rest

/-- The method or block at an address of the compilations of some classes. -/
def unitAt (definitions : List ClassDefinition) : MethodAddress → Option CodeUnit
  | .bootstrap => none
  | .compiled source address =>
      (definitions[source]?).bind fun definition =>
        definition.generate.units.find? fun unit => unit.address = address

/-- The meaning of methods and blocks as they are written. -/
def sourceMeaning (definitions : List ClassDefinition) : Meaning World Object :=
  fun send address method => do
    let unit ← Process.demand .undefined (unitAt definitions method)
    bodyValue compilations domain send address (unit.environment.enter unit.scope) unit.block
      unit.base unit.body

/-! ### The code of statements -/

variable {compilations domain} {send : Sending World Object} {address : Nat}
  {environment : Environment}

theorem isReturn_leaf (leaf : Leaf) : (leaf.instruction environment).isReturn = false := by
  cases leaf with
  | literal source base => rfl
  | block unit => rfl
  | name text =>
      rw [Leaf.instruction, readInstruction]
      generalize (if text = "super" then "self" else text) = var
      rcases findVar var environment.scopes 0 with _ | ⟨index, context, _ | _⟩
      · dsimp only
        split <;> rfl
      · rfl
      · rfl

theorem isReturn_write (var : String) : (writeInstruction environment var).isReturn = false := by
  rw [writeInstruction]
  rcases findVar var environment.scopes 0 with _ | ⟨index, context, _ | _⟩ <;> rfl

theorem isReturn_treeCode (tree : ParseTree) :
    ∀ instruction ∈ treeCode environment tree, instruction.isReturn = false := by
  refine Tree.forall_mem_code isReturn_leaf (fun operation instruction member => ?_) tree
  cases operation with
  | send toSuper selector =>
      obtain rfl := List.mem_singleton.mp member
      cases toSuper <;> rfl
  | assign targets =>
      rcases List.mem_append.mp member with member | member
      · obtain ⟨_, _, rfl⟩ := List.mem_map.mp member
        rfl
      · obtain ⟨target, _, rfl⟩ := List.mem_map.mp member
        exact isReturn_write target

/-- An instruction that is no return goes on with the rest of the code. -/
theorem runCode_cons {instruction : Instruction} (goesOn : instruction.isReturn = false)
    (rest : List Instruction) (stack : List (Value Object)) :
    runCode compilations domain send address (instruction :: rest) stack =
      (instructionSemantics compilations domain send address).step instruction stack >>=
        runCode compilations domain send address rest := by
  cases instruction with
  | returnLocal | returnNonLocal => exact nomatch goesOn
  | _ => rfl

theorem runCode_append (early late : List Instruction)
    (goOn : ∀ instruction ∈ early, instruction.isReturn = false) (stack : List (Value Object)) :
    runCode compilations domain send address (early ++ late) stack =
      runSteps (instructionSemantics compilations domain send address).step early stack >>=
        runCode compilations domain send address late := by
  induction early generalizing stack with
  | nil => rfl
  | cons instruction rest inductionHypothesis =>
      rw [List.cons_append, runCode_cons (goOn instruction List.mem_cons_self), runSteps,
        Process.bind_assoc]
      refine bind_congr fun later => ?_
      exact inductionHypothesis (fun other member => goOn other (List.mem_cons_of_mem _ member))
        later

/-- The code of an expression pushes its value. -/
theorem runCode_expression (value : Expression) (base : Nat) (late : List Instruction)
    (stack : List (Value Object)) :
    runCode compilations domain send address
        (treeCode environment (value.tree environment base) ++ late) stack =
      expressionValue compilations domain send address environment base value >>= fun result =>
        runCode compilations domain send address late (result :: stack) := by
  rw [runCode_append _ _ (isReturn_treeCode _), Tree.runSteps_code
    ((instructionSemantics compilations domain send address).realizes environment) _
    ((compiles_expression environment value).ranked base).1, map_eq_pure_bind, Process.bind_assoc]
  rfl

theorem runCode_return (stack : List (Value Object)) (value : Value Object) (block : Bool) :
    runCode compilations domain send address
        [if block then .returnNonLocal else .returnLocal] (value :: stack) =
      if block then escapeFrom address value else answerFrom address value := by
  cases block <;> rfl

/-- What ends a method that does not return. -/
theorem runCode_self (stack : List (Value Object)) :
    runCode compilations domain send address [.pushArgument 0 0, .returnLocal] stack =
      argumentAt address 0 0 >>= answerFrom address := by
  rw [runCode_cons rfl]
  change ((· :: stack) <$> argumentAt address 0 0) >>= _ = _
  rw [map_eq_pure_bind, Process.bind_assoc]
  rfl

/-- The code of statements means what the statements say. -/
theorem runCode_body (block : Bool) : (body : Body) → (base : Nat) →
    runCode compilations domain send address (body.code environment block base) [] =
      bodyValue compilations domain send address environment block base body
  | .empty, base => by
      rw [Body.code, bodyValue]
      cases block with
      | false => exact runCode_self []
      | true => rfl
  | .result value period, base => by
      rw [Body.code, bodyValue, runCode_expression]
      exact bind_congr fun result => runCode_return [] result block
  | .last value, base => by
      rw [Body.code, bodyValue, runCode_expression]
      refine bind_congr fun result => ?_
      cases block with
      | true => rfl
      | false => exact runCode_self []
  | .statement value rest, base => by
      rw [Body.code, bodyValue, runCode_expression]
      refine bind_congr fun result => ?_
      by_cases elided : (block && rest.isEmpty) = true
      · -- The last statement of a block answers, there is no `POP` behind it.
        rw [if_pos elided, if_pos elided]
        obtain ⟨rfl, noRest⟩ := Bool.and_eq_true_iff.mp elided
        cases rest with
        | result | last | statement => exact Bool.noConfusion noRest
        | empty => rfl
      · rw [if_neg elided, if_neg elided, List.singleton_append, runCode_cons rfl]
        exact runCode_body block rest _

/-! ### Compiled classes -/

/-- The compilations of some classes. -/
def compiledClasses (definitions : List ClassDefinition) : List Compilation :=
  definitions.map .ofDefinition

/-- Every operand of the code of a unit is a byte, and no operand that is `super` is
sent a second message of its own. -/
def CodeUnit.Readable (unit : CodeUnit) : Prop :=
  FitsBytes unit.mgenc.literals unit.code ∧ unit.body.superOnce = true

instance (unit : CodeUnit) : Decidable (CodeUnit.Readable unit) :=
  inferInstanceAs (Decidable (_ ∧ _))

theorem loaded_compiledClasses {definitions : List ClassDefinition} {source : Nat}
    {definition : ClassDefinition} (there : definitions[source]? = some definition) :
    Loaded (compiledClasses definitions) definition source := by
  rw [Loaded, compiledClasses, List.getElem?_map, there]
  rfl

theorem unitAt_eq_some {definitions : List ClassDefinition} {method : MethodAddress}
    {unit : CodeUnit} (isUnit : unitAt definitions method = some unit) :
    ∃ source definition, definitions[source]? = some definition ∧
      unit ∈ definition.generate.units ∧ method = .compiled source unit.address := by
  cases method with
  | bootstrap => exact nomatch isUnit
  | compiled source address =>
      obtain ⟨definition, there, found⟩ := Option.bind_eq_some_iff.mp isUnit
      have same := List.find?_some found
      exact ⟨source, definition, there, List.mem_of_find?_eq_some found,
        congrArg _ (of_decide_eq_true same).symm⟩

/-- The compiled code of a unit that is read back means what its statements say. -/
theorem codeMeaning_eq {definitions : List ClassDefinition} {method : MethodAddress}
    {unit : CodeUnit} (isUnit : unitAt definitions method = some unit)
    (readable : CodeUnit.Readable unit) :
    codeMeaning (compiledClasses definitions) domain send address method =
      sourceMeaning (compiledClasses definitions) domain definitions send address method := by
  obtain ⟨source, definition, there, compiled, rfl⟩ := unitAt_eq_some isUnit
  rw [sourceMeaning, isUnit, codeMeaning,
    methodAt_unit (loaded_compiledClasses there) compiled, Process.demand_some, Process.demand_some,
    Process.pure_bind, Process.pure_bind,
    show decode unit.mgenc.compiled.literals unit.mgenc.compiled.bytecode = some unit.code from
      unit.decode_iff.mpr readable, Process.demand_some, Process.pure_bind]
  exact runCode_body unit.block unit.body unit.base

end

end Somr.Interpreter
