import Mathlib.Logic.Relation

/-!
Owns how long a system goes on: how many steps can be taken one after the other, and
that a deterministic system without a last step never comes to an end.
-/

namespace Somr.Foundation

open Relation

variable {State : Type} {step : State → State → Prop} {first next last : State} {rounds : Nat}

/-- So many steps can be taken from a state. -/
def Lasts (step : State → State → Prop) : (rounds : Nat) → State → Prop
  | 0, _ => True
  | rounds + 1, first => ∃ next, step first next ∧ Lasts step rounds next

theorem Lasts.fewer : {rounds : Nat} → {first : State} → Lasts step (rounds + 1) first →
    Lasts step rounds first
  | 0, _, _ => trivial
  | _ + 1, _, ⟨next, steps, lasts⟩ => ⟨next, steps, lasts.fewer⟩

theorem Lasts.of_le {fewer : Nat} (atMost : fewer ≤ rounds) (lasts : Lasts step rounds first) :
    Lasts step fewer first := by
  induction atMost with
  | refl => exact lasts
  | step _ inductionHypothesis => exact inductionHypothesis lasts.fewer

theorem Lasts.behind (steps : ReflTransGen step first last) (lasts : Lasts step rounds last) :
    Lasts step rounds first := by
  induction steps using ReflTransGen.head_induction_on with
  | refl => exact lasts
  | head one _ inductionHypothesis => exact Lasts.fewer ⟨_, one, inductionHypothesis⟩

theorem Lasts.further (steps : TransGen step first last) (lasts : Lasts step rounds last) :
    Lasts step (rounds + 1) first := by
  obtain ⟨next, one, more⟩ := TransGen.head'_iff.mp steps
  exact ⟨next, one, lasts.behind more⟩

/-- A deterministic system that goes on however long goes on wherever it gets. -/
theorem goesOn_of_lasts
    (deterministic : ∀ state next other, step state next → step state other → next = other)
    (lasts : ∀ rounds, Lasts step rounds first) (steps : ReflTransGen step first last) :
    ∃ next, step last next := by
  induction steps using ReflTransGen.head_induction_on with
  | refl =>
      obtain ⟨next, one, -⟩ := lasts 1
      exact ⟨next, one⟩
  | head one _ inductionHypothesis =>
      refine inductionHypothesis fun rounds => ?_
      obtain ⟨next, other, more⟩ := lasts (rounds + 1)
      rwa [deterministic _ _ _ one other]

end Somr.Foundation
