import Mathlib.Data.List.Basic

/-!
Owns trees of operations and their post-order code on a stack machine.

The code of a node is the code of its operands from left to right and then the
steps of its operation. When these steps replace the values of the operands on
top of the stack by one value, running the code of a tree is evaluating the tree
and pushing its value, in any monad of effects.
-/

namespace Somr.Foundation

/-- A tree whose inner nodes apply an operation to their operands. -/
inductive Tree (Leaf Operation : Type) where
  | leaf (label : Leaf)
  | node (operation : Operation) (operands : List (Tree Leaf Operation))

/-- Steps of a stack machine, one after the other. -/
def runSteps {Step Value : Type} {m : Type → Type} [Monad m]
    (step : Step → List Value → m (List Value)) : List Step → List Value → m (List Value)
  | [], stack => pure stack
  | first :: rest, stack => step first stack >>= runSteps step rest

theorem runSteps_append {Step Value : Type} {m : Type → Type} [Monad m] [LawfulMonad m]
    (step : Step → List Value → m (List Value)) (early late : List Step) (stack : List Value) :
    runSteps step (early ++ late) stack = runSteps step early stack >>= runSteps step late := by
  induction early generalizing stack with
  | nil => exact (pure_bind _ _).symm
  | cons first rest inductionHypothesis =>
      rw [List.cons_append, runSteps, runSteps, bind_assoc]
      exact bind_congr inductionHypothesis

namespace Tree

variable {Leaf Operation Step Value : Type} {m : Type → Type}

mutual

def leaves : Tree Leaf Operation → List Leaf
  | .leaf label => [label]
  | .node _ operands => forestLeaves operands

def forestLeaves : List (Tree Leaf Operation) → List Leaf
  | [] => []
  | tree :: rest => tree.leaves ++ forestLeaves rest

end

mutual

/-- The left-to-right post-order code of a tree. -/
def code (push : Leaf → Step) (apply : Operation → List Step) : Tree Leaf Operation → List Step
  | .leaf label => [push label]
  | .node operation operands => forestCode push apply operands ++ apply operation

def forestCode (push : Leaf → Step) (apply : Operation → List Step) :
    List (Tree Leaf Operation) → List Step
  | [] => []
  | tree :: rest => tree.code push apply ++ forestCode push apply rest

end

mutual

/-- The value of a tree, operands first and from left to right. -/
def eval [Monad m] (push : Leaf → m Value) (apply : Operation → List Value → m Value) :
    Tree Leaf Operation → m Value
  | .leaf label => push label
  | .node operation operands => forestEval push apply operands >>= apply operation

def forestEval [Monad m] (push : Leaf → m Value) (apply : Operation → List Value → m Value) :
    List (Tree Leaf Operation) → m (List Value)
  | [] => pure []
  | tree :: rest => do
      let value ← tree.eval push apply
      let values ← forestEval push apply rest
      return value :: values

end

mutual

/-- Every operation has as many operands as its rank. -/
def Ranked (rank : Operation → Nat) : Tree Leaf Operation → Prop
  | .leaf _ => True
  | .node operation operands => operands.length = rank operation ∧ ForestRanked rank operands

def ForestRanked (rank : Operation → Nat) : List (Tree Leaf Operation) → Prop
  | [] => True
  | tree :: rest => tree.Ranked rank ∧ ForestRanked rank rest

end

theorem forestLeaves_append (early late : List (Tree Leaf Operation)) :
    forestLeaves (early ++ late) = forestLeaves early ++ forestLeaves late := by
  induction early with
  | nil => rfl
  | cons tree rest inductionHypothesis =>
      rw [List.cons_append, forestLeaves, inductionHypothesis, forestLeaves, List.append_assoc]

theorem forestCode_append (push : Leaf → Step) (apply : Operation → List Step)
    (early late : List (Tree Leaf Operation)) :
    forestCode push apply (early ++ late) =
      forestCode push apply early ++ forestCode push apply late := by
  induction early with
  | nil => rfl
  | cons tree rest inductionHypothesis =>
      rw [List.cons_append, forestCode, inductionHypothesis, forestCode, List.append_assoc]

theorem forestRanked_append (rank : Operation → Nat) (early late : List (Tree Leaf Operation)) :
    ForestRanked rank (early ++ late) ↔ ForestRanked rank early ∧ ForestRanked rank late := by
  induction early with
  | nil => exact ⟨fun ranked => ⟨trivial, ranked⟩, And.right⟩
  | cons tree rest inductionHypothesis =>
      rw [List.cons_append, ForestRanked, inductionHypothesis, ForestRanked, and_assoc]

section

variable {property : Step → Prop} {push : Leaf → Step} {apply : Operation → List Step}

mutual

/-- What holds of the steps of every leaf and operation holds of all the code. -/
theorem forall_mem_code (pushes : ∀ label, property (push label))
    (applies : ∀ operation, ∀ step ∈ apply operation, property step) :
    (tree : Tree Leaf Operation) → ∀ step ∈ tree.code push apply, property step
  | .leaf label, step, member => by
      obtain rfl := List.mem_singleton.mp member
      exact pushes label
  | .node operation operands, step, member => by
      rcases List.mem_append.mp member with member | member
      · exact forall_mem_forestCode pushes applies operands step member
      · exact applies operation step member

theorem forall_mem_forestCode (pushes : ∀ label, property (push label))
    (applies : ∀ operation, ∀ step ∈ apply operation, property step) :
    (forest : List (Tree Leaf Operation)) → ∀ step ∈ forestCode push apply forest, property step
  | [], _, member => absurd member List.not_mem_nil
  | tree :: rest, step, member => by
      rcases List.mem_append.mp member with member | member
      · exact forall_mem_code pushes applies tree step member
      · exact forall_mem_forestCode pushes applies rest step member

end

end

/-! ### Running the code of a tree -/

section

variable [Monad m] (step : Step → List Value → m (List Value)) (rank : Operation → Nat)
  (pushCode : Leaf → Step) (applyCode : Operation → List Step)
  (push : Leaf → m Value) (apply : Operation → List Value → m Value)

/-- The machine pushes what a leaf denotes and applies an operation to the values
on top of the stack, the last operand uppermost. -/
structure Realizes : Prop where
  leaf : ∀ label stack, step (pushCode label) stack = (· :: stack) <$> push label
  node : ∀ operation values stack, values.length = rank operation →
    runSteps step (applyCode operation) (values.reverse ++ stack) =
      (· :: stack) <$> apply operation values

variable {step rank pushCode applyCode push apply} [LawfulMonad m]

/-- The values of a forest are as many as its trees. -/
theorem forestEval_bind_congr {Next : Type} (forest : List (Tree Leaf Operation))
    {first second : List Value → m Next}
    (same : ∀ values, values.length = forest.length → first values = second values) :
    forestEval push apply forest >>= first = forestEval push apply forest >>= second := by
  induction forest generalizing first second with
  | nil =>
      rw [forestEval, pure_bind, pure_bind]
      exact same [] rfl
  | cons tree rest inductionHypothesis =>
      simp only [forestEval, bind_assoc, pure_bind]
      refine bind_congr fun value => inductionHypothesis fun values length => ?_
      exact same (value :: values) (by rw [List.length_cons, length, List.length_cons])

mutual

/-- Running the code of a tree pushes the value of the tree. -/
theorem runSteps_code (realizes : Realizes step rank pushCode applyCode push apply) :
    (tree : Tree Leaf Operation) → tree.Ranked rank → (stack : List Value) →
      runSteps step (tree.code pushCode applyCode) stack = (· :: stack) <$> tree.eval push apply
  | .leaf label, _, stack => by
      rw [code, runSteps, realizes.leaf, eval, map_eq_pure_bind, bind_assoc]
      refine bind_congr fun value => ?_
      rw [pure_bind]
      rfl
  | .node operation operands, ranked, stack => by
      rw [code, runSteps_append, runSteps_forestCode realizes operands ranked.2 stack, eval,
        map_eq_pure_bind, map_eq_pure_bind, bind_assoc, bind_assoc]
      refine forestEval_bind_congr operands fun values length => ?_
      rw [pure_bind, realizes.node operation values stack (length.trans ranked.1),
        map_eq_pure_bind]

/-- Running the code of a forest pushes its values, the last one uppermost. -/
theorem runSteps_forestCode (realizes : Realizes step rank pushCode applyCode push apply) :
    (forest : List (Tree Leaf Operation)) → ForestRanked rank forest → (stack : List Value) →
      runSteps step (forestCode pushCode applyCode forest) stack =
        (fun values => values.reverse ++ stack) <$> forestEval push apply forest
  | [], _, stack => by
      rw [forestCode, runSteps, forestEval, map_pure]
      rfl
  | tree :: rest, ranked, stack => by
      rw [forestCode, runSteps_append, runSteps_code realizes tree ranked.1 stack, forestEval]
      simp only [map_eq_pure_bind, bind_assoc, pure_bind]
      refine bind_congr fun value => ?_
      rw [runSteps_forestCode realizes rest ranked.2 (value :: stack), map_eq_pure_bind]
      refine bind_congr fun values => ?_
      rw [List.reverse_cons, List.append_assoc]
      rfl

end

end

end Tree
end Somr.Foundation
