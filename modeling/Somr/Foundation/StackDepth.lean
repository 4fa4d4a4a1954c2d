import Somr.Foundation.PostOrder
import Mathlib.Order.Lattice
import Mathlib.Order.Lattice.Nat

/-!
Owns the depth of an operand stack under a sequence of steps that each take some
elements and leave some.

`Moves` says that a sequence never takes from a stack that is too low, and names
the depth it ends at and the highest depth it reaches. Post-order code of a tree
moves the depth by one, and how high it goes is a recursion on the tree.
-/

namespace Somr.Foundation

/-- How many elements a step takes and how many it leaves. -/
structure Effect where
  pops : Nat
  pushes : Nat
deriving DecidableEq, Repr

/-- The depth behind some steps; none where a step without effect or a stack that
is too low ends the run. -/
def depthAfter : List (Option Effect) → Nat → Option Nat
  | [], depth => some depth
  | none :: _, _ => none
  | some effect :: rest, depth =>
      if effect.pops ≤ depth then depthAfter rest (depth - effect.pops + effect.pushes) else none

/-- The highest depth along some steps, the first depth included. -/
def peak : List (Option Effect) → Nat → Nat
  | some effect :: rest, depth => max depth (peak rest (depth - effect.pops + effect.pushes))
  | _, depth => depth

theorem peak_nil (depth : Nat) : peak [] depth = depth := rfl

theorem peak_cons (effect : Effect) (rest : List (Option Effect)) (depth : Nat) :
    peak (some effect :: rest) depth =
      max depth (peak rest (depth - effect.pops + effect.pushes)) := rfl

/-- Some steps run from one depth to another and reach a highest depth. -/
structure Moves (effects : List (Option Effect)) (first last highest : Nat) : Prop where
  ends : depthAfter effects first = some last
  reaches : peak effects first = highest

theorem le_peak (effects : List (Option Effect)) (depth : Nat) : depth ≤ peak effects depth := by
  unfold peak
  split
  · exact le_max_left _ _
  · exact le_rfl

theorem Moves.nil (depth : Nat) : Moves [] depth depth depth := ⟨rfl, rfl⟩

theorem Moves.cons {effect : Effect} {rest : List (Option Effect)} {first last highest : Nat}
    (enough : effect.pops ≤ first)
    (later : Moves rest (first - effect.pops + effect.pushes) last highest) :
    Moves (some effect :: rest) first last (max first highest) := by
  refine ⟨?_, ?_⟩
  · rw [depthAfter, if_pos enough, later.ends]
  · rw [peak, later.reaches]

/-- One step on its own. -/
theorem Moves.single {pops pushes first last : Nat} (enough : pops ≤ first)
    (ends : first - pops + pushes = last) :
    Moves [some ⟨pops, pushes⟩] first last (max first last) := by
  rw [← ends]
  exact .cons enough (.nil _)

theorem Moves.append {early late : List (Option Effect)} {first middle last low high : Nat}
    (before : Moves early first middle low) (behind : Moves late middle last high) :
    Moves (early ++ late) first last (max low high) := by
  induction early generalizing first low with
  | nil =>
      obtain ⟨ends, reaches⟩ := before
      obtain rfl := Option.some.inj ends
      obtain rfl : first = low := reaches
      have above := le_peak late first
      rw [behind.reaches] at above
      rw [max_eq_right above]
      exact behind
  | cons step rest inductionHypothesis =>
      cases step with
      | none => exact absurd before.ends (by simp [depthAfter])
      | some effect =>
          obtain ⟨ends, reaches⟩ := before
          by_cases enough : effect.pops ≤ first
          · rw [depthAfter, if_pos enough] at ends
            rw [peak] at reaches
            rw [← reaches, max_assoc]
            exact .cons enough (inductionHypothesis ⟨ends, rfl⟩)
          · rw [depthAfter, if_neg enough] at ends
            exact absurd ends (by simp)

theorem Moves.raise {effects : List (Option Effect)} {first last last' highest highest' : Nat}
    (moves : Moves effects first last highest) (sameLast : last = last')
    (sameHighest : highest = highest') : Moves effects first last' highest' := by
  rw [← sameLast, ← sameHighest]
  exact moves

/-! ### Trees -/

namespace Tree

variable {Leaf Operation Step : Type}

mutual

/-- How many elements the code of a tree has on the stack at once. -/
def depthNeed (need : Operation → Nat) : Tree Leaf Operation → Nat
  | .leaf _ => 1
  | .node operation operands => max (forestDepthNeed need operands) (need operation)

def forestDepthNeed (need : Operation → Nat) : List (Tree Leaf Operation) → Nat
  | [] => 0
  | tree :: rest => max (tree.depthNeed need) (1 + forestDepthNeed need rest)

end

section

variable {effect : Step → Option Effect} {push : Leaf → Step} {apply : Operation → List Step}
  {rank need : Operation → Nat}

mutual

/-- The code of a tree leaves one more element and goes as high as the tree needs. -/
theorem moves_code (pushes : ∀ leaf, effect (push leaf) = some ⟨0, 1⟩)
    (applies : ∀ operation depth, Moves ((apply operation).map effect) (depth + rank operation)
      (depth + 1) (depth + need operation)) :
    (tree : Tree Leaf Operation) → tree.Ranked rank → (depth : Nat) →
      Moves ((tree.code push apply).map effect) depth (depth + 1) (depth + tree.depthNeed need)
  | .leaf label, _, depth => by
      rw [code, List.map_singleton, pushes]
      exact (Moves.single (Nat.zero_le depth) rfl).raise rfl (max_eq_right (Nat.le_succ depth))
  | .node operation operands, ranked, depth => by
      rw [code, List.map_append, depthNeed, ← Nat.add_max_add_left]
      have operandMoves := moves_forestCode pushes applies operands ranked.2 depth
      rw [ranked.1] at operandMoves
      exact operandMoves.append (applies operation depth)

theorem moves_forestCode (pushes : ∀ leaf, effect (push leaf) = some ⟨0, 1⟩)
    (applies : ∀ operation depth, Moves ((apply operation).map effect) (depth + rank operation)
      (depth + 1) (depth + need operation)) :
    (forest : List (Tree Leaf Operation)) → ForestRanked rank forest → (depth : Nat) →
      Moves ((forestCode push apply forest).map effect) depth (depth + forest.length)
        (depth + forestDepthNeed need forest)
  | [], _, depth => Moves.nil depth
  | tree :: rest, ranked, depth => by
      rw [forestCode, List.map_append, forestDepthNeed, ← Nat.add_max_add_left, ← Nat.add_assoc]
      have later := moves_forestCode pushes applies rest ranked.2 (depth + 1)
      exact ((moves_code pushes applies tree ranked.1 depth).append later).raise
        (by rw [List.length_cons]; omega) rfl

end

end

end Tree
end Somr.Foundation
