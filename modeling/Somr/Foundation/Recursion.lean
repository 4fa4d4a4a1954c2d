import Mathlib.Logic.Relation
import Mathlib.Data.List.Basic

/-!
Owns recursive procedures that read a list: calls, the input each call has left,
and what it takes for every call to return.

A call is the name of a procedure with the input it has left. Along `Progresses`
a call either has less input left, or the same input and a smaller rank. So no
cycle of calls leaves the input as it was, and the depth of the calls is bounded
by the length of the input times a bound on the ranks.
-/

namespace Somr.Foundation

variable {Name Item : Type} (rank : Name → List Item → Nat)

/-- The callee has less input left, or the same input and a smaller rank. -/
def Progresses (caller callee : Name × List Item) : Prop :=
  callee.2.length < caller.2.length ∨
    callee.2 = caller.2 ∧ rank callee.1 callee.2 < rank caller.1 caller.2

variable {rank}

theorem Progresses.trans {first second third : Name × List Item}
    (early : Progresses rank first second) (late : Progresses rank second third) :
    Progresses rank first third := by
  rcases early with shorter | ⟨same, less⟩
  · rcases late with shorterToo | ⟨sameToo, _⟩
    · exact .inl (Nat.lt_trans shorterToo shorter)
    · exact .inl (sameToo ▸ shorter)
  · rcases late with shorterToo | ⟨sameToo, lessToo⟩
    · exact .inl (same ▸ shorterToo)
    · exact .inr ⟨sameToo.trans same, Nat.lt_trans lessToo less⟩

/-- A call that leads back to its procedure has used up some of the input. -/
theorem cycle_consumes {name : Name} {before after : List Item}
    (cycle : Relation.TransGen (Progresses rank) (name, before) (name, after)) :
    after.length < before.length := by
  have progress : Progresses rank (name, before) (name, after) :=
    Relation.TransGen.trans_induction_on cycle (fun step => step) fun _ _ => Progresses.trans
  rcases progress with shorter | ⟨same, less⟩
  · exact shorter
  · simp only at same less
    rw [same] at less
    exact absurd less (Nat.lt_irrefl _)

/-- A bound on the number of nested calls. -/
def callDepth (bound : Nat) (rank : Name → List Item → Nat) (call : Name × List Item) : Nat :=
  bound * call.2.length + rank call.1 call.2

theorem callDepth_lt {bound : Nat} (bounded : ∀ name input, rank name input < bound)
    {caller callee : Name × List Item} (progress : Progresses rank caller callee) :
    callDepth bound rank callee < callDepth bound rank caller := by
  unfold callDepth
  rcases progress with shorter | ⟨same, less⟩
  · have below := bounded callee.1 callee.2
    have more : bound * (callee.2.length + 1) ≤ bound * caller.2.length :=
      Nat.mul_le_mul_left bound shorter
    rw [Nat.mul_add, Nat.mul_one] at more
    omega
  · rw [same] at less ⊢
    omega

/-- If a call returns as soon as the calls it makes do, and these go down in a
measure, then every call returns with more calls than its measure. -/
theorem returns_of_measure {Call : Type} {Invokes : Call → Call → Prop}
    (Returns : Nat → Call → Prop) (measure : Call → Nat)
    (decreases : ∀ {caller callee}, Invokes caller callee → measure callee < measure caller)
    (adequate : ∀ {calls caller}, (∀ callee, Invokes caller callee → Returns calls callee) →
      Returns (calls + 1) caller) {calls : Nat} (call : Call) (enough : measure call < calls) :
    Returns calls call := by
  induction calls generalizing call with
  | zero => exact absurd enough (Nat.not_lt_zero _)
  | succ calls hypothesis =>
      refine adequate fun callee invokes => hypothesis callee ?_
      have less := decreases invokes
      omega

end Somr.Foundation
