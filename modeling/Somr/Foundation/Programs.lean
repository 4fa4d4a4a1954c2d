import Somr.Foundation.Process

/-!
Owns programs over a set of operations, their runs by a handler, and the rule
that carries a relation between states from every operation to every program.

A `RunRelation` says how a run may take one state to another, given its events
and as long as all of them are allowed. It holds of the empty run and of runs in
sequence, so it holds of a program as soon as it holds of each operation.
-/

namespace Somr.Foundation

/-- A computation that performs operations and goes on with their answers. -/
inductive Program (Operation : Type) (Answer : Operation → Type) (Value : Type) where
  | done (value : Value)
  | perform (operation : Operation) (rest : Answer operation → Program Operation Answer Value)

namespace Program

variable {Operation : Type} {Answer : Operation → Type} {Value Next Event Stop State : Type}

def bind : Program Operation Answer Value → (Value → Program Operation Answer Next) →
    Program Operation Answer Next
  | .done value, next => next value
  | .perform operation rest, next => .perform operation fun answer => (rest answer).bind next

instance : Monad (Program Operation Answer) where
  pure := .done
  bind := bind

/-- The program of one operation. -/
def single (operation : Operation) : Program Operation Answer (Answer operation) :=
  .perform operation .done

/-- Run a program with a computation for each operation. -/
def run (handle : (operation : Operation) → Process Event Stop State (Answer operation)) :
    Program Operation Answer Value → Process Event Stop State Value
  | .done value => pure value
  | .perform operation rest => do
      let answer ← handle operation
      (rest answer).run handle

variable {handle : (operation : Operation) → Process Event Stop State (Answer operation)}

theorem run_bind (first : Program Operation Answer Value)
    (rest : Value → Program Operation Answer Next) :
    (first >>= rest).run handle = first.run handle >>= fun value => (rest value).run handle := by
  induction first with
  | done value => rfl
  | perform operation answer hypothesis =>
      change handle operation >>= (fun value => (answer value >>= rest).run handle) = _
      rw [funext hypothesis]
      exact (Process.bind_assoc _ _ _).symm

/-- Labels on the events of the operations are all that a labelled run adds. -/
theorem mapEvents_run_labelled {Label : Type} (label : Operation → Label)
    (program : Program Operation Answer Value) :
    (program.run fun operation => (handle operation).labelled (label operation)).mapEvents
      Prod.snd = program.run handle := by
  induction program with
  | done value => rfl
  | perform operation rest hypothesis =>
      change ((handle operation).labelled (label operation) >>= fun answer =>
        (rest answer).run _).mapEvents Prod.snd = handle operation >>= _
      rw [Process.mapEvents_bind, Process.mapEvents_labelled, funext hypothesis]

end Program

/-! ### Run relations -/

structure RunRelation (Event State : Type) where
  allowed : Event → Prop
  holds : State → List Event → State → Prop
  refl : ∀ state, holds state [] state
  trans : ∀ {first second third early late}, holds first early second → holds second late third →
    holds first (early ++ late) third

/-- Every run of allowed events, when only the states at the ends matter. -/
def RunRelation.any (Event State : Type) : RunRelation Event State where
  allowed _ := True
  holds _ _ _ := True
  refl _ := trivial
  trans _ _ := trivial

namespace Process

variable {Event Stop State Value Next : Type}

/-- From a state with the precondition, every run of allowed events is in the
relation, and ends with the postcondition if it does not stop. -/
def Triple (relation : RunRelation Event State) (pre : State → Prop)
    (process : Process Event Stop State Value) (post : Value → State → Prop) : Prop :=
  ∀ state, pre state → (∀ event ∈ (process.run state).events, relation.allowed event) →
    relation.holds state (process.run state).events (process.run state).state ∧
      ∀ value, (process.run state).result = .ok value → post value (process.run state).state

/-- Every run of allowed events is in the relation. -/
def Obeys (relation : RunRelation Event State) (process : Process Event Stop State Value) : Prop :=
  Triple relation (fun _ => True) process fun _ _ => True

variable {relation : RunRelation Event State} {pre : State → Prop}
  {process : Process Event Stop State Value} {post : Value → State → Prop}

theorem Triple.weaken {pre' : State → Prop} {post' : Value → State → Prop}
    (triple : Triple relation pre process post) (stronger : ∀ state, pre' state → pre state)
    (weaker : ∀ value state, post value state → post' value state) :
    Triple relation pre' process post' := by
  intro state holds allowed
  obtain ⟨related, ends⟩ := triple state (stronger state holds) allowed
  exact ⟨related, fun value ok => weaker value _ (ends value ok)⟩

/-- A condition that the relation preserves is kept. -/
theorem Triple.frame {frame : State → Prop} (triple : Triple relation pre process post)
    (stable : ∀ {before events after}, relation.holds before events after → frame before →
      frame after) :
    Triple relation (fun state => pre state ∧ frame state) process fun value state =>
      post value state ∧ frame state := by
  intro state ⟨isPre, framed⟩ allowed
  obtain ⟨related, ends⟩ := triple state isPre allowed
  exact ⟨related, fun value ok => ⟨ends value ok, stable related framed⟩⟩

/-- A fact of the precondition that does not depend on the state. -/
theorem Triple.assume {fact : Prop} (triple : fact → Triple relation pre process post) :
    Triple relation (fun state => fact ∧ pre state) process post :=
  fun state holds => triple holds.1 state holds.2

/-- A triple for each state with the precondition. -/
theorem Triple.of_states
    (each : ∀ state, pre state → Triple relation (fun other => other = state) process post) :
    Triple relation pre process post :=
  fun state isPre => each state isPre state rfl

/-- Triples for all indexes carry a good index through. -/
theorem Triple.of_some {Index : Type} {Good : Index → Prop} {preAt : Index → State → Prop}
    {postAt : Index → Value → State → Prop}
    (each : ∀ index, Triple relation (preAt index) process (postAt index)) :
    Triple relation (fun state => ∃ index, Good index ∧ preAt index state) process
      fun value state => ∃ index, Good index ∧ postAt index value state := by
  intro state ⟨index, good, isPre⟩ allowed
  obtain ⟨related, ends⟩ := each index state isPre allowed
  exact ⟨related, fun value ok => ⟨index, good, ends value ok⟩⟩

theorem Triple.obeys (triple : Triple relation (fun _ => True) process post) :
    process.Obeys relation :=
  triple.weaken (fun _ holds => holds) fun _ _ _ => trivial

theorem triple_pure {value : Value} (holds : ∀ state, pre state → post value state) :
    Triple relation pre (Pure.pure value : Process Event Stop State Value) post :=
  fun state isPre _ => ⟨relation.refl state, fun _ same => Except.ok.inj same ▸ holds state isPre⟩

theorem triple_stop (reason : Stop) :
    Triple relation pre (stop reason : Process Event Stop State Value) post :=
  fun state _ _ => ⟨relation.refl state, nofun⟩

theorem triple_read :
    Triple relation pre (read : Process Event Stop State State) fun value state =>
      value = state ∧ pre state :=
  fun state isPre _ => ⟨relation.refl state, fun _ same => ⟨(Except.ok.inj same).symm, isPre⟩⟩

theorem triple_modify {change : State → State} {post : Unit → State → Prop}
    (related : ∀ state, pre state → relation.holds state [] (change state))
    (ends : ∀ state, pre state → post () (change state)) :
    Triple relation pre (modify change : Process Event Stop State Unit) post :=
  fun state isPre _ => ⟨related state isPre, fun _ _ => ends state isPre⟩

theorem triple_emit {event : State → Event}
    (related : ∀ state, pre state → relation.allowed (event state) →
      relation.holds state [event state] state) :
    Triple relation pre (emit event : Process Event Stop State Unit) fun _ state =>
      pre state ∧ relation.allowed (event state) := by
  intro state isPre allowed
  have allowedHere : relation.allowed (event state) := allowed _ List.mem_cons_self
  exact ⟨related state isPre allowedHere, fun _ _ => ⟨isPre, allowedHere⟩⟩

theorem triple_demand (reason : Stop) (option : Option Value) :
    Triple relation pre (demand reason option : Process Event Stop State Value)
      fun value state => option = some value ∧ pre state := by
  cases option with
  | none => exact triple_stop reason
  | some value => exact triple_pure fun state isPre => ⟨rfl, isPre⟩

theorem Triple.bind {first : Process Event Stop State Next}
    {rest : Next → Process Event Stop State Value} (middle : Next → State → Prop)
    (early : Triple relation pre first middle)
    (late : ∀ value, Triple relation (middle value) (rest value) post) :
    Triple relation pre (first >>= rest) post := by
  intro state isPre allowed
  cases outcome : first.run state with
  | mk result after events =>
      cases result with
      | error reason =>
          rw [bind_of_error outcome] at allowed ⊢
          obtain ⟨related, -⟩ := early state isPre (by rwa [outcome])
          rw [outcome] at related
          exact ⟨related, nofun⟩
      | ok value =>
          rw [bind_of_ok outcome] at allowed ⊢
          obtain ⟨related, ends⟩ := early state isPre
            (by rw [outcome]; exact fun event there => allowed event (List.mem_append_left _ there))
          rw [outcome] at related ends
          obtain ⟨relatedLate, endsLate⟩ := late value after (ends value rfl)
            fun event there => allowed event (List.mem_append_right _ there)
          exact ⟨relation.trans related relatedLate, endsLate⟩

/-- What follows a demand may use that it was met. -/
theorem Triple.demand {reason : Stop} {option : Option Next}
    {rest : Next → Process Event Stop State Value}
    (late : ∀ value, option = some value → Triple relation pre (rest value) post) :
    Triple relation pre (Process.demand reason option >>= rest) post := by
  cases option with
  | none => exact Triple.bind (fun _ _ => False) (triple_stop reason) fun _ _ => nofun
  | some value => exact late value rfl

/-- What follows a read of a known state may use it. -/
theorem Triple.read {state : State} {rest : State → Process Event Stop State Value}
    (late : Triple relation (fun other => other = state) (rest state) post) :
    Triple relation (fun other => other = state) (Process.read >>= rest) post := by
  refine Triple.bind _ triple_read fun seen => ?_
  rintro _ ⟨rfl, rfl⟩
  exact late _ rfl

theorem Triple.ite {condition : Prop} [Decidable condition]
    {other : Process Event Stop State Value}
    (yes : condition → Triple relation pre process post)
    (no : ¬ condition → Triple relation pre other post) :
    Triple relation pre (if condition then process else other) post := by
  split
  · next holds => exact yes holds
  · next fails => exact no fails

theorem Obeys.triple {relation : RunRelation Event State} (obeys : process.Obeys relation) :
    Triple relation pre process fun _ _ => True :=
  Triple.weaken obeys (fun _ _ => trivial) fun _ _ holds => holds

theorem obeys_pure (value : Value) :
    (Pure.pure value : Process Event Stop State Value).Obeys relation :=
  triple_pure fun _ _ => trivial

theorem obeys_stop (reason : Stop) : (stop reason : Process Event Stop State Value).Obeys relation :=
  triple_stop reason

theorem obeys_read : (read : Process Event Stop State State).Obeys relation :=
  fun state _ _ => ⟨relation.refl state, fun _ _ => trivial⟩

theorem Obeys.bind {first : Process Event Stop State Next}
    {rest : Next → Process Event Stop State Value} (early : first.Obeys relation)
    (late : ∀ value, (rest value).Obeys relation) : (first >>= rest).Obeys relation :=
  Triple.bind _ early fun value => (late value).triple

/-! ### Total correctness -/

/-- From every state with the precondition the computation ends with a value and the
postcondition. -/
def Succeeds (pre : State → Prop) (process : Process Event Stop State Value)
    (post : Value → State → Prop) : Prop :=
  ∀ state, pre state → ∃ value after, process.Runs state value after ∧ post value after

theorem Succeeds.weaken {pre' : State → Prop} {post' : Value → State → Prop}
    (succeeds : Succeeds pre process post) (stronger : ∀ state, pre' state → pre state)
    (weaker : ∀ value state, post value state → post' value state) :
    Succeeds pre' process post' := by
  intro state holds
  obtain ⟨value, after, runs, ends⟩ := succeeds state (stronger state holds)
  exact ⟨value, after, runs, weaker value after ends⟩

theorem Succeeds.bind {first : Process Event Stop State Next}
    {rest : Next → Process Event Stop State Value} (middle : Next → State → Prop)
    (early : Succeeds pre first middle) (late : ∀ value, Succeeds (middle value) (rest value) post) :
    Succeeds pre (first >>= rest) post := by
  intro state isPre
  obtain ⟨value, after, runs, ends⟩ := early state isPre
  obtain ⟨last, final, runsLater, endsLater⟩ := late value after ends
  exact ⟨last, final, runs.bind runsLater, endsLater⟩

theorem succeeds_pure {value : Value} (holds : ∀ state, pre state → post value state) :
    Succeeds pre (Pure.pure value : Process Event Stop State Value) post :=
  fun state isPre => ⟨value, state, runs_pure value state, holds state isPre⟩

theorem succeeds_modify {change : State → State} {post : Unit → State → Prop}
    (ends : ∀ state, pre state → post () (change state)) :
    Succeeds pre (modify change : Process Event Stop State Unit) post :=
  fun state isPre => ⟨(), change state, ⟨[], rfl⟩, ends state isPre⟩

theorem succeeds_read :
    Succeeds pre (read : Process Event Stop State State) fun value state =>
      value = state ∧ pre state :=
  fun state isPre => ⟨state, state, ⟨[], rfl⟩, rfl, isPre⟩

/-- A fact of the precondition that does not depend on the state. -/
theorem Succeeds.assume {fact : Prop} (succeeds : fact → Succeeds pre process post) :
    Succeeds (fun state => fact ∧ pre state) process post :=
  fun state holds => succeeds holds.1 state holds.2

theorem Succeeds.finishes {state : State}
    (succeeds : Succeeds (fun other => other = state) process fun _ _ => True) :
    process.Finishes state := by
  obtain ⟨value, after, runs, -⟩ := succeeds state rfl
  exact ⟨value, after, runs⟩

/-- What follows a read of a known state may use it. -/
theorem Succeeds.read {state : State} {rest : State → Process Event Stop State Value}
    (late : Succeeds (fun other => other = state) (rest state) post) :
    Succeeds (fun other => other = state) (Process.read >>= rest) post := by
  refine Succeeds.bind _ succeeds_read fun seen => ?_
  rintro _ ⟨rfl, rfl⟩
  exact late _ rfl

/-- A demand that is met. -/
theorem Succeeds.demand {reason : Stop} {option : Option Next} {value : Next}
    {rest : Next → Process Event Stop State Value} (met : option = some value)
    (late : Succeeds pre (rest value) post) :
    Succeeds pre (Process.demand reason option >>= rest) post := by
  subst met
  exact late

/-- What succeeds is partially correct. -/
theorem Succeeds.triple (succeeds : Succeeds pre process post) :
    Triple (.any Event State) pre process post := by
  intro state isPre _
  obtain ⟨value, after, ⟨events, ran⟩, ends⟩ := succeeds state isPre
  refine ⟨trivial, fun other same => ?_⟩
  rw [ran] at same ⊢
  exact Except.ok.inj same ▸ ends

end Process

namespace Program

variable {Operation : Type} {Answer : Operation → Type}
  {Value Next Event Stop State : Type} {relation : RunRelation Event State}
  {handle : (operation : Operation) → Process Event Stop State (Answer operation)}

theorem single_triple {operation : Operation} {pre : State → Prop}
    {post : Answer operation → State → Prop}
    (triple : Process.Triple relation pre (handle operation) post) :
    Process.Triple relation pre ((single operation).run handle) post :=
  .bind _ triple fun _ => Process.triple_pure fun _ holds => holds

theorem bind_triple {first : Program Operation Answer Value}
    {rest : Value → Program Operation Answer Next} {pre : State → Prop}
    {post : Next → State → Prop} (middle : Value → State → Prop)
    (early : Process.Triple relation pre (first.run handle) middle)
    (late : ∀ value, Process.Triple relation (middle value) ((rest value).run handle) post) :
    Process.Triple relation pre ((first >>= rest).run handle) post := by
  rw [run_bind]
  exact .bind middle early late

/-- A loop over the indexes below a bound. -/
theorem forM_range_triple {body : Nat → Program Operation Answer Unit} {size : Nat}
    (invariant : Nat → State → Prop)
    (step : ∀ idx, idx < size → Process.Triple relation (invariant idx) ((body idx).run handle)
      fun _ => invariant (idx + 1)) :
    Process.Triple relation (invariant 0) (((List.range size).forM body).run handle)
      fun _ => invariant size := by
  have segment : ∀ count first, first + count = size →
      Process.Triple relation (invariant first) (((List.range' first count).forM body).run handle)
        fun _ => invariant size := by
    intro count
    induction count with
    | zero =>
        rintro first rfl
        exact Process.triple_pure fun _ holds => holds
    | succ count hypothesis =>
        intro first bound
        exact bind_triple _ (step first (by omega)) fun _ => hypothesis (first + 1) (by omega)
  rw [List.range_eq_range']
  exact segment size 0 (Nat.zero_add size)

/-- What every operation keeps, every program keeps. -/
theorem keeps {invariant : State → Prop}
    (operations : ∀ operation,
      Process.Triple relation invariant (handle operation) fun _ => invariant)
    (program : Program Operation Answer Value) :
    Process.Triple relation invariant (program.run handle) fun _ => invariant := by
  induction program with
  | done value => exact Process.triple_pure fun _ holds => holds
  | perform operation rest hypothesis => exact .bind _ (operations operation) hypothesis

/-- What every operation obeys, every program obeys. -/
theorem obeys (operations : ∀ operation, (handle operation).Obeys relation)
    (program : Program Operation Answer Value) : (program.run handle).Obeys relation :=
  keeps operations program

end Program
end Somr.Foundation
