import Mathlib.Data.List.Basic

/-!
Owns reachability in a finite graph and its computation by marking: which of the
given nodes can be reached from the roots along successors.

A root or successor that is none of the nodes is not followed.
-/

namespace Somr.Foundation

variable {Node : Type}

/-- Reached from the roots within the nodes. -/
inductive Reachable (nodes : List Node) (successors : Node → List Node) (roots : List Node) :
    Node → Prop where
  | root {node : Node} : node ∈ roots → node ∈ nodes → Reachable nodes successors roots node
  | step {node next : Node} : Reachable nodes successors roots node → next ∈ successors node →
      next ∈ nodes → Reachable nodes successors roots next

section Relation

variable {nodes : List Node} {successors : Node → List Node} {roots : List Node} {node : Node}

theorem Reachable.mem (reachable : Reachable nodes successors roots node) : node ∈ nodes := by
  cases reachable with
  | root _ inside => exact inside
  | step _ _ inside => exact inside

/-- What is reached stays reached where the roots are and every step can be made again. -/
theorem Reachable.transfer {others : List Node} {successors' : Node → List Node}
    {roots' : List Node}
    (sameRoots : ∀ node ∈ roots, node ∈ nodes → Reachable others successors' roots' node)
    (sameSuccessors : ∀ node next, Reachable nodes successors roots node →
      next ∈ successors node → next ∈ nodes → Reachable others successors' roots' node →
        Reachable others successors' roots' next)
    (reachable : Reachable nodes successors roots node) :
    Reachable others successors' roots' node := by
  induction reachable with
  | root isRoot inside => exact sameRoots _ isRoot inside
  | step earlier next inside hypothesis => exact sameSuccessors _ _ earlier next inside hypothesis

end Relation

/-! ### Marking -/

variable [DecidableEq Node] (nodes : List Node) (successors : Node → List Node)

/-- One round of marking. -/
def markRound (known : List Node) : List Node :=
  nodes.filter fun node => known.contains node || known.any fun k => (successors k).contains node

/-- The marked nodes after some rounds. -/
def markRounds (roots : List Node) : Nat → List Node
  | 0 => nodes.filter fun node => roots.contains node
  | rounds + 1 => markRound nodes successors (markRounds roots rounds)

/-- The nodes marked from the roots; as many rounds as nodes suffice. -/
def marked (roots : List Node) : List Node := markRounds nodes successors roots nodes.length

variable {nodes successors} {roots : List Node}

theorem mem_markRound {known : List Node} {node : Node} :
    node ∈ markRound nodes successors known ↔
      node ∈ nodes ∧ (node ∈ known ∨ ∃ k ∈ known, node ∈ successors k) := by
  simp [markRound]

theorem reachable_of_mem_markRounds (rounds : Nat) :
    ∀ node ∈ markRounds nodes successors roots rounds,
      Reachable nodes successors roots node := by
  induction rounds with
  | zero =>
      intro node there
      rw [markRounds, List.mem_filter] at there
      exact .root (by simpa using there.2) there.1
  | succ rounds hypothesis =>
      intro node there
      obtain ⟨inside, known | ⟨k, known, next⟩⟩ := mem_markRound.mp there
      · exact hypothesis node known
      · exact .step (hypothesis k known) next inside

theorem markRounds_eq_filter (rounds : Nat) :
    markRounds nodes successors roots rounds = nodes.filter fun node =>
      (markRounds nodes successors roots rounds).contains node := by
  cases rounds with
  | zero =>
      rw [markRounds]
      exact List.filter_congr fun node there => by simp [there]
  | succ rounds =>
      refine List.filter_congr fun node there => ?_
      rw [Bool.eq_iff_iff, List.contains_iff_mem, markRounds, mem_markRound]
      simp [there]

theorem markRounds_sublist_succ (rounds : Nat) :
    (markRounds nodes successors roots rounds).Sublist
      (markRounds nodes successors roots (rounds + 1)) := by
  conv_lhs => rw [markRounds_eq_filter]
  refine List.monotone_filter_right nodes fun node marked => ?_
  exact Bool.or_eq_true_iff.mpr (Or.inl marked)

/-- A round that marks nothing new changes nothing. -/
theorem markRounds_succ_eq_or_lt (nodes : List Node) (successors : Node → List Node)
    (roots : List Node) (rounds : Nat) :
    markRounds nodes successors roots (rounds + 1) = markRounds nodes successors roots rounds ∨
      (markRounds nodes successors roots rounds).length <
        (markRounds nodes successors roots (rounds + 1)).length := by
  have grows : (markRounds nodes successors roots rounds).Sublist
      (markRounds nodes successors roots (rounds + 1)) := markRounds_sublist_succ rounds
  by_cases same : (markRounds nodes successors roots rounds).length =
      (markRounds nodes successors roots (rounds + 1)).length
  · exact Or.inl (grows.eq_of_length same).symm
  · exact Or.inr (Nat.lt_of_le_of_ne grows.length_le same)

/-- Marking has stopped or has marked one node more in every round. -/
theorem markRounds_stable_or_grows (nodes : List Node) (successors : Node → List Node)
    (roots : List Node) (rounds : Nat) :
    markRounds nodes successors roots (rounds + 1) = markRounds nodes successors roots rounds ∨
      rounds < (markRounds nodes successors roots (rounds + 1)).length := by
  induction rounds with
  | zero =>
      rcases markRounds_succ_eq_or_lt nodes successors roots 0 with stopped | marked
      · exact Or.inl stopped
      · exact Or.inr (Nat.zero_lt_of_lt marked)
  | succ rounds hypothesis =>
      rcases hypothesis with stopped | enough
      · refine Or.inl ?_
        rw [markRounds, stopped]
        exact stopped
      · rcases markRounds_succ_eq_or_lt nodes successors roots (rounds + 1) with stopped | marked
        · exact Or.inl stopped
        · exact Or.inr (Nat.lt_of_le_of_lt enough marked)

theorem marked_stable :
    markRound nodes successors (marked nodes successors roots) =
      marked nodes successors roots := by
  have bound := List.length_filter_le (fun node =>
    (markRounds nodes successors roots (nodes.length + 1)).contains node) nodes
  rw [← markRounds_eq_filter] at bound
  rcases markRounds_stable_or_grows nodes successors roots nodes.length with stable | grown
  · exact stable
  · exact absurd grown (Nat.not_lt.mpr bound)

theorem mem_markRounds_of_root (rounds : Nat) {node : Node} (isRoot : node ∈ roots)
    (inside : node ∈ nodes) : node ∈ markRounds nodes successors roots rounds := by
  induction rounds with
  | zero => exact List.mem_filter.mpr ⟨inside, by simpa using isRoot⟩
  | succ rounds hypothesis => exact (markRounds_sublist_succ rounds).subset hypothesis

/-- Marking finds exactly what can be reached. -/
theorem mem_marked_iff {node : Node} :
    node ∈ marked nodes successors roots ↔ Reachable nodes successors roots node := by
  refine ⟨reachable_of_mem_markRounds nodes.length node, fun reachable => ?_⟩
  induction reachable with
  | root isRoot inside => exact mem_markRounds_of_root nodes.length isRoot inside
  | step _ next inside hypothesis =>
      rw [← marked_stable]
      exact mem_markRound.mpr ⟨inside, Or.inr ⟨_, hypothesis, next⟩⟩

end Somr.Foundation
