import Mathlib.Data.List.Basic

/-!
Owns computations that thread a state, may stop, and leave a trace of events.
A stopped computation keeps the state and the trace it stopped with, so what a
computation did before it stopped stays observable.

Nothing here depends on what the state or the events are.
-/

namespace Somr.Foundation

/-- How one computation ends: its value or why it stopped, and what it left. -/
structure Outcome (Event Stop State Value : Type) where
  result : Except Stop Value
  state : State
  events : List Event
deriving DecidableEq

/-- A computation on `State`. -/
structure Process (Event Stop State Value : Type) where
  run : State → Outcome Event Stop State Value

namespace Process

variable {Event Stop State Value Next : Type}

def pure (value : Value) : Process Event Stop State Value :=
  ⟨fun state => ⟨.ok value, state, []⟩⟩

def bind (first : Process Event Stop State Value)
    (rest : Value → Process Event Stop State Next) : Process Event Stop State Next :=
  ⟨fun state =>
    match first.run state with
    | ⟨.error reason, after, events⟩ => ⟨.error reason, after, events⟩
    | ⟨.ok value, after, events⟩ =>
        let last := (rest value).run after
        ⟨last.result, last.state, events ++ last.events⟩⟩

instance : Monad (Process Event Stop State) where
  pure := pure
  bind := bind

def read : Process Event Stop State State :=
  ⟨fun state => ⟨.ok state, state, []⟩⟩

def modify (change : State → State) : Process Event Stop State Unit :=
  ⟨fun state => ⟨.ok (), change state, []⟩⟩

def stop (reason : Stop) : Process Event Stop State Value :=
  ⟨fun state => ⟨.error reason, state, []⟩⟩

/-- Record one event, which may mention the present state. -/
def emit (event : State → Event) : Process Event Stop State Unit :=
  ⟨fun state => ⟨.ok (), state, [event state]⟩⟩

/-- The value of an option, or a stop. -/
def demand (reason : Stop) : Option Value → Process Event Stop State Value
  | some value => pure value
  | none => stop reason

/-- Go on where a computation has stopped. -/
def handle {Last : Type} (first : Process Event Stop State Value)
    (handler : Stop → Process Event Last State Value) : Process Event Last State Value :=
  ⟨fun state =>
    match first.run state with
    | ⟨.ok value, after, events⟩ => ⟨.ok value, after, events⟩
    | ⟨.error reason, after, events⟩ =>
        let last := (handler reason).run after
        ⟨last.result, last.state, events ++ last.events⟩⟩

/-- The computation with other events. -/
def mapEvents {Other : Type} (change : Event → Other) (process : Process Event Stop State Value) :
    Process Other Stop State Value :=
  ⟨fun state =>
    let outcome := process.run state
    ⟨outcome.result, outcome.state, outcome.events.map change⟩⟩

/-- The computation with a label on each of its events. -/
def labelled {Label : Type} (label : Label) (process : Process Event Stop State Value) :
    Process (Label × Event) Stop State Value :=
  process.mapEvents fun event => (label, event)

/-! ### Equations -/

@[simp] theorem run_pure (value : Value) (state : State) :
    (Pure.pure value : Process Event Stop State Value).run state = ⟨.ok value, state, []⟩ := rfl

@[simp] theorem run_read (state : State) :
    (read : Process Event Stop State State).run state = ⟨.ok state, state, []⟩ := rfl

@[simp] theorem run_modify (change : State → State) (state : State) :
    (modify change : Process Event Stop State Unit).run state = ⟨.ok (), change state, []⟩ := rfl

@[simp] theorem run_stop (reason : Stop) (state : State) :
    (stop reason : Process Event Stop State Value).run state = ⟨.error reason, state, []⟩ := rfl

@[simp] theorem run_emit (event : State → Event) (state : State) :
    (emit event : Process Event Stop State Unit).run state = ⟨.ok (), state, [event state]⟩ := rfl

@[simp] theorem demand_some (reason : Stop) (value : Value) :
    (demand reason (some value) : Process Event Stop State Value) = Pure.pure value := rfl

@[simp] theorem demand_none (reason : Stop) :
    (demand reason none : Process Event Stop State Value) = stop reason := rfl

theorem run_bind (first : Process Event Stop State Value)
    (rest : Value → Process Event Stop State Next) (state : State) :
    (first >>= rest).run state = (bind first rest).run state := rfl

theorem bind_of_ok {first : Process Event Stop State Value}
    {rest : Value → Process Event Stop State Next} {state after : State} {value : Value}
    {events : List Event} (ends : first.run state = ⟨.ok value, after, events⟩) :
    (first >>= rest).run state = ⟨((rest value).run after).result, ((rest value).run after).state,
      events ++ ((rest value).run after).events⟩ := by
  rw [run_bind, bind]
  simp only [ends]

theorem bind_of_error {first : Process Event Stop State Value}
    {rest : Value → Process Event Stop State Next} {state after : State} {reason : Stop}
    {events : List Event} (ends : first.run state = ⟨.error reason, after, events⟩) :
    (first >>= rest).run state = ⟨.error reason, after, events⟩ := by
  rw [run_bind, bind]
  simp only [ends]

/-- A first part that succeeds without events hands its state to the rest. -/
theorem bind_of_silent {first : Process Event Stop State Value}
    {rest : Value → Process Event Stop State Next} {state after : State} {value : Value}
    (silent : first.run state = ⟨.ok value, after, []⟩) :
    (first >>= rest).run state = (rest value).run after := by
  rw [run_bind, bind]
  simp only [silent]
  rfl

theorem pure_bind (value : Value) (rest : Value → Process Event Stop State Next) :
    (Pure.pure value >>= rest : Process Event Stop State Next) = rest value := rfl

theorem bind_assoc {Last : Type} (first : Process Event Stop State Value)
    (rest : Value → Process Event Stop State Next)
    (last : Next → Process Event Stop State Last) :
    first >>= rest >>= last = first >>= fun value => rest value >>= last := by
  refine congrArg Process.mk (funext fun state => ?_)
  change ((first >>= rest >>= last).run state) = (first >>= fun value => rest value >>= last).run state
  cases outcome : first.run state with
  | mk result after early =>
      cases result with
      | error reason =>
          rw [bind_of_error outcome, bind_of_error (bind_of_error outcome)]
      | ok value =>
          rw [bind_of_ok outcome]
          cases middle : (rest value).run after with
          | mk result' after' late =>
              have both : (first >>= rest).run state = _ := bind_of_ok outcome
              rw [middle] at both
              cases result' with
              | error reason => rw [bind_of_error both, bind_of_error middle]
              | ok next =>
                  rw [bind_of_ok both, bind_of_ok middle, List.append_assoc]

theorem bind_pure (process : Process Event Stop State Value) :
    process >>= Pure.pure = process := by
  refine congrArg Process.mk (funext fun state => ?_)
  change (process >>= Pure.pure).run state = process.run state
  cases outcome : process.run state with
  | mk result after events =>
      cases result with
      | error reason => exact bind_of_error outcome
      | ok value => rw [bind_of_ok outcome, run_pure, List.append_nil]

instance : LawfulMonad (Process Event Stop State) :=
  LawfulMonad.mk' _ bind_pure pure_bind bind_assoc

theorem handle_of_ok {Last : Type} {first : Process Event Stop State Value}
    {handler : Stop → Process Event Last State Value} {state after : State} {value : Value}
    {events : List Event} (ends : first.run state = ⟨.ok value, after, events⟩) :
    (first.handle handler).run state = ⟨.ok value, after, events⟩ := by
  rw [handle]
  simp only [ends]

theorem handle_of_error {Last : Type} {first : Process Event Stop State Value}
    {handler : Stop → Process Event Last State Value} {state after : State} {reason : Stop}
    (stops : first.run state = ⟨.error reason, after, []⟩) :
    (first.handle handler).run state = (handler reason).run after := by
  rw [handle]
  simp only [stops]
  rfl

theorem run_mapEvents {Other : Type} (relabel : Event → Other)
    (process : Process Event Stop State Value) (state : State) :
    (process.mapEvents relabel).run state =
      ⟨(process.run state).result, (process.run state).state,
        (process.run state).events.map relabel⟩ := rfl

theorem mapEvents_bind {Other : Type} (relabel : Event → Other)
    (first : Process Event Stop State Value) (rest : Value → Process Event Stop State Next) :
    (first >>= rest).mapEvents relabel =
      first.mapEvents relabel >>= fun value => (rest value).mapEvents relabel := by
  refine congrArg Process.mk (funext fun state => ?_)
  change ((first >>= rest).mapEvents relabel).run state = (first.mapEvents relabel >>= _).run state
  rw [run_mapEvents]
  cases outcome : first.run state with
  | mk result after events =>
      have relabelled : (first.mapEvents relabel).run state =
          ⟨result, after, events.map relabel⟩ := by rw [run_mapEvents, outcome]
      cases result with
      | error reason => rw [bind_of_error outcome, bind_of_error relabelled]
      | ok value => rw [bind_of_ok outcome, bind_of_ok relabelled, run_mapEvents, List.map_append]

theorem mapEvents_labelled {Label : Type} (label : Label)
    (process : Process Event Stop State Value) :
    (process.labelled label).mapEvents Prod.snd = process := by
  refine congrArg Process.mk (funext fun state => ?_)
  change ((process.labelled label).mapEvents Prod.snd).run state = process.run state
  rw [run_mapEvents, labelled, run_mapEvents, List.map_map]
  exact congrArg (Outcome.mk _ _) (List.map_id _)

/-- A successful sequence is a successful first part and a successful rest. -/
theorem bind_eq_ok {first : Process Event Stop State Value}
    {rest : Value → Process Event Stop State Next} {state final : State} {value : Next}
    {events : List Event} (ends : (first >>= rest).run state = ⟨.ok value, final, events⟩) :
    ∃ mid after early late, first.run state = ⟨.ok mid, after, early⟩ ∧
      (rest mid).run after = ⟨.ok value, final, late⟩ ∧ events = early ++ late := by
  rw [run_bind, bind] at ends
  cases outcome : first.run state with
  | mk result after early =>
      cases result with
      | error reason => simp [outcome] at ends
      | ok mid =>
          simp only [outcome] at ends
          cases last : (rest mid).run after with
          | mk result' final' late =>
              rw [last] at ends
              simp only [Outcome.mk.injEq] at ends
              obtain ⟨sameResult, sameState, sameEvents⟩ := ends
              exact ⟨mid, after, early, late, rfl, by rw [last, sameResult, sameState],
                sameEvents.symm⟩

/-- A sequence stops in its first part or in the rest. -/
theorem bind_eq_error {first : Process Event Stop State Value}
    {rest : Value → Process Event Stop State Next} {state final : State} {reason : Stop}
    {events : List Event}
    (stops : (first >>= rest).run state = ⟨.error reason, final, events⟩) :
    first.run state = ⟨.error reason, final, events⟩ ∨
      ∃ mid after early late, first.run state = ⟨.ok mid, after, early⟩ ∧
        (rest mid).run after = ⟨.error reason, final, late⟩ ∧ events = early ++ late := by
  cases outcome : first.run state with
  | mk result after early =>
      cases result with
      | error other =>
          rw [bind_of_error outcome] at stops
          obtain ⟨same, rfl, rfl⟩ := Outcome.mk.inj stops
          obtain rfl := Except.error.inj same
          exact Or.inl rfl
      | ok mid =>
          rw [bind_of_ok outcome] at stops
          obtain ⟨isError, isState, isEvents⟩ := Outcome.mk.inj stops
          exact Or.inr ⟨mid, after, early, _, rfl, by rw [← isError, ← isState], isEvents.symm⟩

/-- A sequence that succeeds behind a demand finds what it demands. -/
theorem demand_bind_eq_ok {reason : Stop} {found? : Option Value}
    {rest : Value → Process Event Stop State Next} {state final : State} {value : Next}
    {events : List Event}
    (ends : (demand reason found? >>= rest).run state = ⟨.ok value, final, events⟩) :
    ∃ found, found? = some found ∧ (rest found).run state = ⟨.ok value, final, events⟩ := by
  cases found? with
  | none => exact nomatch (Outcome.mk.inj ends).1
  | some found => exact ⟨found, rfl, ends⟩

/-- A stop is no success. -/
theorem stop_ne_ok {reason : Stop} {state final : State} {value : Value} {events : List Event}
    (ends : (stop reason : Process Event Stop State Value).run state =
      ⟨.ok value, final, events⟩) : False :=
  nomatch (Outcome.mk.inj ends).1

theorem demand_eq_ok {reason : Stop} {found? : Option Value} {state final : State} {value : Value}
    {events : List Event}
    (ends : (demand reason found? : Process Event Stop State Value).run state =
      ⟨.ok value, final, events⟩) : found? = some value ∧ final = state := by
  cases found? with
  | none => exact nomatch (Outcome.mk.inj ends).1
  | some found =>
      obtain ⟨same, rfl, -⟩ := Outcome.mk.inj ends
      exact ⟨congrArg some (Except.ok.inj same), rfl⟩

theorem run_map (change : Value → Next) (process : Process Event Stop State Value)
    (state : State) : (change <$> process).run state =
      ⟨(process.run state).result.map change, (process.run state).state,
        (process.run state).events⟩ := by
  rw [map_eq_pure_bind]
  cases outcome : process.run state with
  | mk result after events =>
      cases result with
      | error reason => exact bind_of_error outcome
      | ok value =>
          rw [bind_of_ok outcome, run_pure, List.append_nil]
          rfl

theorem map_eq_ok {change : Value → Next} {process : Process Event Stop State Value}
    {state final : State} {value : Next} {events : List Event}
    (ends : (change <$> process).run state = ⟨.ok value, final, events⟩) :
    ∃ first, process.run state = ⟨.ok first, final, events⟩ ∧ value = change first := by
  rw [map_eq_pure_bind] at ends
  obtain ⟨first, after, early, late, ran, last, rfl⟩ := bind_eq_ok ends
  obtain ⟨same, rfl, rfl⟩ := Outcome.mk.inj last
  exact ⟨first, by rw [ran, List.append_nil], (Except.ok.inj same).symm⟩

/-- A successful sequence without events is two successful parts without events. -/
theorem bind_eq_silent {first : Process Event Stop State Value}
    {rest : Value → Process Event Stop State Next} {state final : State} {value : Next}
    (ends : (first >>= rest).run state = ⟨.ok value, final, []⟩) :
    ∃ mid after, first.run state = ⟨.ok mid, after, []⟩ ∧
      (rest mid).run after = ⟨.ok value, final, []⟩ := by
  obtain ⟨mid, after, early, late, ranFirst, ranRest, noEvents⟩ := bind_eq_ok ends
  obtain ⟨rfl, rfl⟩ := List.append_eq_nil_iff.mp noEvents.symm
  exact ⟨mid, after, ranFirst, ranRest⟩

/-! ### Reasons to stop -/

/-- The only reason for which a computation stops. -/
def StopsOnly (reason : Stop) (process : Process Event Stop State Value) : Prop :=
  ∀ state other, (process.run state).result = .error other → other = reason

section

variable {reason : Stop}

theorem stopsOnly_pure (value : Value) :
    (Pure.pure value : Process Event Stop State Value).StopsOnly reason :=
  fun _ _ stops => nomatch stops

theorem stopsOnly_stop : (stop reason : Process Event Stop State Value).StopsOnly reason :=
  fun _ _ stops => (Except.error.inj stops).symm

theorem stopsOnly_demand (found? : Option Value) :
    (demand reason found? : Process Event Stop State Value).StopsOnly reason := by
  cases found? with
  | none => exact stopsOnly_stop
  | some value => exact stopsOnly_pure value

theorem stopsOnly_read : (read : Process Event Stop State State).StopsOnly reason :=
  fun _ _ stops => nomatch stops

theorem stopsOnly_modify (change : State → State) :
    (modify change : Process Event Stop State Unit).StopsOnly reason :=
  fun _ _ stops => nomatch stops

theorem StopsOnly.bind {first : Process Event Stop State Value}
    {rest : Value → Process Event Stop State Next} (early : first.StopsOnly reason)
    (late : ∀ value, (rest value).StopsOnly reason) : (first >>= rest).StopsOnly reason := by
  intro state other stops
  have ran : (first >>= rest).run state = ⟨.error other, ((first >>= rest).run state).state,
      ((first >>= rest).run state).events⟩ := by rw [← stops]
  rcases bind_eq_error ran with ranFirst | ⟨mid, after, _, _, -, ranRest, -⟩
  · exact early state other (by rw [ranFirst])
  · exact late mid after other (by rw [ranRest])

theorem StopsOnly.map {process : Process Event Stop State Value} (early : process.StopsOnly reason)
    (change : Value → Next) : (change <$> process).StopsOnly reason := by
  rw [map_eq_pure_bind]
  exact early.bind fun value => stopsOnly_pure _

end

/-! ### Finished runs -/

/-- The computation ends with a value. -/
def Runs (process : Process Event Stop State Value) (state : State) (value : Value)
    (after : State) : Prop :=
  ∃ events, process.run state = ⟨.ok value, after, events⟩

def Finishes (process : Process Event Stop State Value) (state : State) : Prop :=
  ∃ value after, process.Runs state value after

theorem runs_pure (value : Value) (state : State) :
    (Pure.pure value : Process Event Stop State Value).Runs state value state := ⟨[], rfl⟩

theorem runs_of_result {process : Process Event Stop State Value} {state : State} {value : Value}
    (ends : (process.run state).result = .ok value) :
    process.Runs state value (process.run state).state := by
  refine ⟨(process.run state).events, ?_⟩
  rw [← ends]

theorem Runs.unique {process : Process Event Stop State Value} {state after after' : State}
    {value value' : Value} (runs : process.Runs state value after)
    (runs' : process.Runs state value' after') : value = value' ∧ after = after' := by
  obtain ⟨events, ran⟩ := runs
  obtain ⟨events', ran'⟩ := runs'
  rw [ran, Outcome.mk.injEq] at ran'
  exact ⟨Except.ok.inj ran'.1, ran'.2.1⟩

theorem Runs.bind {first : Process Event Stop State Value}
    {rest : Value → Process Event Stop State Next} {state middle after : State} {value : Value}
    {last : Next} (early : first.Runs state value middle) (late : (rest value).Runs middle last after) :
    (first >>= rest).Runs state last after := by
  obtain ⟨events, ran⟩ := early
  obtain ⟨others, ranLater⟩ := late
  exact ⟨_, by rw [bind_of_ok ran, ranLater]⟩

theorem finishes_pure (value : Value) (state : State) :
    (Pure.pure value : Process Event Stop State Value).Finishes state :=
  ⟨value, state, runs_pure value state⟩

/-- A sequence ends if its first part does and then the rest does. -/
theorem Finishes.bind {first : Process Event Stop State Value}
    {rest : Value → Process Event Stop State Next} {state : State} (early : first.Finishes state)
    (late : ∀ value after, first.Runs state value after → (rest value).Finishes after) :
    (first >>= rest).Finishes state := by
  obtain ⟨value, middle, ran⟩ := early
  obtain ⟨last, after, ranLater⟩ := late value middle ran
  exact ⟨last, after, ran.bind ranLater⟩

theorem Finishes.ite {condition : Prop} [Decidable condition]
    {yes no : Process Event Stop State Value} {state : State}
    (holds : condition → yes.Finishes state) (fails : ¬ condition → no.Finishes state) :
    (if condition then yes else no).Finishes state := by
  split
  · next isTrue => exact holds isTrue
  · next isFalse => exact fails isFalse

end Process
end Somr.Foundation
