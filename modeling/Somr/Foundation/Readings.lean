import Somr.Foundation.Process

/-!
Owns computations that only read, on two levels of one design: where the abstract
one answers a value, the concrete one answers a related value, and neither changes
its state.
-/

namespace Somr.Foundation.Process

variable {Event Stop State Event' Stop' Store First Second First' Second' : Type}

/-- Where the meaning answers without a change, so does the computation. -/
def ReadsAs (related : First → Second → Prop) (process : Process Event Stop State First)
    (meaning : Process Event' Stop' Store Second) (state : State) (store : Store) : Prop :=
  ∀ second after events, meaning.run store = ⟨.ok second, after, events⟩ →
    after = store ∧ ∃ first, related first second ∧ process.run state = ⟨.ok first, state, []⟩

variable {related : First → Second → Prop} {state : State} {store : Store}

theorem readsAs_pure {first : First} {second : Second} (relate : related first second) :
    ReadsAs related (Pure.pure first : Process Event Stop State First)
      (Pure.pure second : Process Event' Stop' Store Second) state store := by
  intro answer after events ran
  obtain ⟨same, rfl, -⟩ := Outcome.mk.inj ran
  obtain rfl := Except.ok.inj same
  exact ⟨rfl, first, relate, rfl⟩

theorem readsAs_stop (process : Process Event Stop State First) (reason : Stop') :
    ReadsAs related process (stop reason : Process Event' Stop' Store Second) state store :=
  fun _ _ _ ran => nomatch (Outcome.mk.inj ran).1

theorem readsAs_read :
    ReadsAs (fun first second => first = state ∧ second = store)
      (read : Process Event Stop State State) (read : Process Event' Stop' Store Store) state
        store := by
  intro answer after events ran
  obtain ⟨same, rfl, -⟩ := Outcome.mk.inj ran
  obtain rfl := Except.ok.inj same
  exact ⟨rfl, state, ⟨rfl, rfl⟩, rfl⟩

/-- What the abstract level finds, the concrete one finds too. -/
theorem readsAs_demand {reason : Stop} {reason' : Stop'} {first? : Option First}
    {second? : Option Second}
    (finds : ∀ second, second? = some second → ∃ first, first? = some first ∧
      related first second) :
    ReadsAs related (demand reason first? : Process Event Stop State First)
      (demand reason' second? : Process Event' Stop' Store Second) state store := by
  cases second? with
  | none => exact readsAs_stop _ _
  | some second =>
      obtain ⟨first, rfl, relate⟩ := finds second rfl
      exact readsAs_pure relate

/-- The two levels find the same. -/
theorem readsAs_found {Value : Type} {reason : Stop} {reason' : Stop'} {first? second? : Option Value}
    (finds : ∀ value, second? = some value → first? = some value) :
    ReadsAs Eq (demand reason first? : Process Event Stop State Value)
      (demand reason' second? : Process Event' Stop' Store Value) state store :=
  readsAs_demand fun value found => ⟨value, finds value found, rfl⟩

theorem ReadsAs.bind {other : First' → Second' → Prop} {process : Process Event Stop State First}
    {meaning : Process Event' Stop' Store Second} {rest : First → Process Event Stop State First'}
    {rest' : Second → Process Event' Stop' Store Second'}
    (early : ReadsAs related process meaning state store)
    (late : ∀ first second, related first second →
      ReadsAs other (rest first) (rest' second) state store) :
    ReadsAs other (process >>= rest) (meaning >>= rest') state store := by
  intro answer after events ran
  obtain ⟨second, middle, _, _, ranFirst, ranRest, -⟩ := bind_eq_ok ran
  obtain ⟨rfl, first, relate, reads⟩ := early _ _ _ ranFirst
  obtain ⟨rfl, last, relateLast, readsRest⟩ := late first second relate _ _ _ ranRest
  exact ⟨rfl, last, relateLast, by rw [bind_of_silent reads, readsRest]⟩

end Somr.Foundation.Process
