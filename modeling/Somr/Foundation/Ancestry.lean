import Mathlib.Data.List.Perm.Subperm
import Mathlib.Logic.Relation

/-!
Owns nodes with at most one parent each, and searches from a node upwards.

A chain is the list of the nodes from one node up to a node without a parent. A
node with a chain is on no cycle, and a search that goes up from it ends within
as many rounds as the chain is long.
-/

namespace Somr.Foundation

section

variable {Node : Type} (parent : Node → Option Node)

/-- The nodes from a node up to one without a parent. -/
inductive Chain : Node → List Node → Prop where
  | root {node : Node} : parent node = none → Chain node [node]
  | up {node above : Node} {rest : List Node} :
      parent node = some above → Chain above rest → Chain node (node :: rest)

/-- The second node is the parent of the first. -/
def IsParent (node above : Node) : Prop := parent node = some above

/-- The first thing found by a search that goes up from a node; no answer after this
many rounds. -/
def searchUp {Found : Type} (own : Node → Option Found) : (rounds : Nat) → Node →
    Option (Option Found)
  | 0, _ => none
  | rounds + 1, node =>
      match own node with
      | some found => some (some found)
      | none =>
          match parent node with
          | none => some none
          | some above => searchUp own rounds above

variable {parent}

namespace Chain

variable {node : Node} {nodes : List Node}

theorem unique (chain : Chain parent node nodes) {others : List Node}
    (other : Chain parent node others) : nodes = others := by
  induction chain generalizing others with
  | root noParent =>
      cases other with
      | root _ => rfl
      | up isParent _ => exact absurd (noParent.symm.trans isParent) (by simp)
  | up isParent _ inductionHypothesis =>
      cases other with
      | root noParent => exact absurd (noParent.symm.trans isParent) (by simp)
      | up isParent' rest =>
          obtain rfl := Option.some.inj (isParent.symm.trans isParent')
          rw [inductionHypothesis rest]

theorem head_mem (chain : Chain parent node nodes) : node ∈ nodes := by
  cases chain with
  | root _ => exact List.mem_singleton_self _
  | up _ _ => exact List.mem_cons_self

/-- A node above has a shorter chain. -/
theorem above {ancestor : Node} (isAbove : Relation.TransGen (IsParent parent) node ancestor)
    (chain : Chain parent node nodes) :
    ∃ fewer, Chain parent ancestor fewer ∧ fewer.length < nodes.length := by
  have step : ∀ {first next : Node} {list : List Node}, parent first = some next →
      Chain parent first list → ∃ rest, Chain parent next rest ∧ rest.length < list.length := by
    intro first next list isParent chain
    cases chain with
    | root noParent => exact absurd (noParent.symm.trans isParent) (by simp)
    | up isParent' rest =>
        obtain rfl := Option.some.inj (isParent.symm.trans isParent')
        exact ⟨_, rest, Nat.lt_succ_self _⟩
  induction isAbove with
  | single isParent => exact step isParent chain
  | tail _ isParent inductionHypothesis =>
      obtain ⟨middle, middleChain, shorter⟩ := inductionHypothesis
      obtain ⟨rest, restChain, shorter'⟩ := step isParent middleChain
      exact ⟨rest, restChain, Nat.lt_trans shorter' shorter⟩

/-- No node with a chain is above itself. -/
theorem acyclic (chain : Chain parent node nodes) :
    ¬ Relation.TransGen (IsParent parent) node node := by
  intro cycle
  obtain ⟨fewer, shorter, less⟩ := chain.above cycle
  rw [chain.unique shorter] at less
  exact Nat.lt_irrefl _ less

/-- What holds of a node and passes on to parents holds of its chain. -/
theorem forall_mem (chain : Chain parent node nodes) {Holds : Node → Prop} (holds : Holds node)
    (passes : ∀ {node above : Node}, Holds node → parent node = some above → Holds above) :
    ∀ other ∈ nodes, Holds other := by
  induction chain with
  | root _ => exact List.forall_mem_singleton.mpr holds
  | up isParent _ inductionHypothesis =>
      exact List.forall_mem_cons.mpr ⟨holds, inductionHypothesis (passes holds isParent)⟩

theorem nodup (chain : Chain parent node nodes) : nodes.Nodup := by
  induction chain with
  | root _ => exact List.pairwise_singleton _ _
  | @up node above rest isParent chain inductionHypothesis =>
      apply List.nodup_cons.mpr
      refine ⟨fun member => ?_, inductionHypothesis⟩
      have reached : ∀ other ∈ rest, Relation.TransGen (IsParent parent) node other :=
        chain.forall_mem (.single isParent) fun reached next => reached.tail next
      exact (Chain.up isParent chain).acyclic (reached node member)

/-- A chain of numbers below a bound is no longer than the bound. -/
theorem length_le {parent : Nat → Option Nat} {node : Nat} {nodes : List Nat}
    (chain : Chain parent node nodes) {bound : Nat} (below : ∀ other ∈ nodes, other < bound) :
    nodes.length ≤ bound := by
  have subset : nodes ⊆ List.range bound := fun other member =>
    List.mem_range.mpr (below other member)
  have fits := (chain.nodup.subperm subset).length_le
  rwa [List.length_range] at fits

/-- The chain only depends on the parents of its nodes. -/
theorem of_agree {parent' : Node → Option Node} (chain : Chain parent node nodes)
    (agree : ∀ other ∈ nodes, parent' other = parent other) : Chain parent' node nodes := by
  induction chain with
  | root noParent =>
      exact .root ((agree _ (List.mem_singleton_self _)).trans noParent)
  | up isParent _ inductionHypothesis =>
      rw [List.forall_mem_cons] at agree
      exact .up (agree.1.trans isParent) (inductionHypothesis agree.2)

/-- A map that respects parents takes a chain to the beginning of a chain. -/
theorem map {Other : Type} {parent' : Other → Option Other} {image : Node → Other}
    {tail : List Other} (chain : Chain parent node nodes)
    (respects : ∀ other ∈ nodes, ∀ above, parent other = some above →
      parent' (image other) = some (image above))
    (ends : ∀ root ∈ nodes, parent root = none →
      Chain parent' (image root) (image root :: tail)) :
    Chain parent' (image node) (nodes.map image ++ tail) := by
  induction chain with
  | root noParent => exact ends _ (List.mem_singleton_self _) noParent
  | up isParent _ inductionHypothesis =>
      rw [List.forall_mem_cons] at respects ends
      exact .up (respects.1 _ isParent) (inductionHypothesis respects.2 ends.2)

/-- A search ends with the first thing found on the chain. -/
theorem searchUp_eq {Found : Type} (own : Node → Option Found)
    (chain : Chain parent node nodes) {rounds : Nat} (enough : nodes.length ≤ rounds) :
    searchUp parent own rounds node = some (nodes.findSome? own) := by
  induction chain generalizing rounds with
  | root noParent =>
      obtain ⟨rounds, rfl⟩ := Nat.exists_eq_add_of_le' enough
      rw [List.length_singleton, searchUp, noParent, List.findSome?_singleton]
      cases own _ <;> rfl
  | up isParent _ inductionHypothesis =>
      obtain ⟨rounds, rfl⟩ := Nat.exists_eq_add_of_le' (Nat.le_trans (Nat.succ_le_succ
        (Nat.zero_le _)) enough)
      rw [searchUp, isParent, List.findSome?_cons]
      cases own _ with
      | some found => rfl
      | none => exact inductionHypothesis (Nat.le_of_succ_le_succ enough)

end Chain

end

end Somr.Foundation
