import Somr.Memory.Machine

/-!
Owns sequences of `Allocate` calls and uninterruptable sections: which objects the
array of uninterruptable objects holds, and when there is room for them.

Every allocation appends to the array, inside a section or not, and only the end of an
outermost section empties it.
-/

namespace Somr.Memory

open Somr.Foundation

/-! ### Calls -/

/-- A call on the heap; `Allocate` comes with what the collector has handed out. -/
inductive HeapCall where
  | allocate (object : Option Address)
  | startUninterruptableAllocation
  | endUninterruptableAllocation
deriving DecidableEq, Repr

namespace HeapCall

def perform : HeapCall → MachineM Unit
  | .allocate (some object) => Machine.addUninterruptableAllocationObject object
  | .allocate none => return ()
  | .startUninterruptableAllocation => Machine.startUninterruptableAllocation
  | .endUninterruptableAllocation => Machine.endUninterruptableAllocation

def performAll (calls : List HeapCall) : MachineM Unit :=
  calls.foldlM (fun _ call => call.perform) ()

/-- Sections are closed only when they are open. -/
def Nested : (depth : Nat) → List HeapCall → Prop
  | _, [] => True
  | depth, .allocate _ :: calls => Nested depth calls
  | depth, .startUninterruptableAllocation :: calls => Nested (depth + 1) calls
  | 0, .endUninterruptableAllocation :: _ => False
  | depth + 1, .endUninterruptableAllocation :: calls => Nested depth calls

theorem nested_of_prefix {depth : Nat} {early late : List HeapCall}
    (nested : Nested depth (early ++ late)) : Nested depth early := by
  induction early generalizing depth with
  | nil => trivial
  | cons call early inductionHypothesis =>
      cases call with
      | allocate object => exact inductionHypothesis nested
      | startUninterruptableAllocation => exact inductionHypothesis nested
      | endUninterruptableAllocation =>
          cases depth with
          | zero => exact nested.elim
          | succ depth => exact inductionHypothesis nested

end HeapCall

/-! ### What has been allocated -/

/-- The number of open sections, the objects allocated since an outermost section last
ended, and those allocated since the outermost open section began. -/
structure Ledger where
  depth : Nat := 0
  recent : List Address := []
  section_ : List Address := []
deriving DecidableEq, Repr

namespace Ledger

def record (ledger : Ledger) : HeapCall → Ledger
  | .allocate (some object) =>
      { ledger with
        recent := ledger.recent ++ [object]
        section_ := if ledger.depth = 0 then [] else ledger.section_ ++ [object] }
  | .allocate none => ledger
  | .startUninterruptableAllocation => { ledger with depth := ledger.depth + 1 }
  | .endUninterruptableAllocation =>
      if ledger.depth = 1 then {} else { ledger with depth := ledger.depth - 1 }

def recordAll (ledger : Ledger) (calls : List HeapCall) : Ledger := calls.foldl record ledger

/-- The machine has the sections of the ledger open and holds what is recent. -/
structure Matches (ledger : Ledger) (machine : Machine) : Prop where
  counter : machine.uninterruptableCounter = ledger.depth
  entries : machine.uninterruptable = ledger.recent

/-- Objects of the open sections are recent. -/
def Covers (ledger : Ledger) : Prop := ∀ object ∈ ledger.section_, object ∈ ledger.recent

theorem covers_record {ledger : Ledger} (covers : ledger.Covers) (call : HeapCall) :
    (ledger.record call).Covers := by
  cases call with
  | allocate object =>
      cases object with
      | none => exact covers
      | some object =>
          intro other there
          by_cases outside : ledger.depth = 0
          · simp [record, outside] at there
          · simp only [record, if_neg outside, List.mem_append, List.mem_singleton] at there ⊢
            rcases there with early | rfl
            · exact .inl (covers other early)
            · exact .inr rfl
  | startUninterruptableAllocation => exact covers
  | endUninterruptableAllocation =>
      intro object there
      by_cases outermost : ledger.depth = 1
      · simp [record, outermost] at there
      · simp only [record, if_neg outermost] at there ⊢
        exact covers object there

theorem covers_recordAll {ledger : Ledger} (covers : ledger.Covers) (calls : List HeapCall) :
    (ledger.recordAll calls).Covers := by
  induction calls generalizing ledger with
  | nil => exact covers
  | cons call calls inductionHypothesis => exact inductionHypothesis (covers_record covers call)

theorem recent_length_le (ledger : Ledger) (calls : List HeapCall) :
    (ledger.recordAll calls).recent.length ≤ ledger.recent.length + calls.length := by
  induction calls generalizing ledger with
  | nil => exact Nat.le_refl _
  | cons call calls inductionHypothesis =>
      have one : (ledger.record call).recent.length ≤ ledger.recent.length + 1 := by
        cases call with
        | allocate object => cases object <;> simp [record]
        | startUninterruptableAllocation => exact Nat.le_succ _
        | endUninterruptableAllocation =>
            by_cases outermost : ledger.depth = 1 <;> simp [record, outermost]
      have rest := inductionHypothesis (ledger.record call)
      rw [List.length_cons]
      exact Nat.le_trans rest (by omega)

end Ledger

/-! ### One call -/

namespace HeapCall

open Machine (uninterruptableCapacity)

/-- A call that is properly nested keeps the ledger, unless it allocates an object and
the array is full. -/
theorem perform_spec {call : HeapCall} {calls : List HeapCall} {ledger : Ledger}
    {machine : Machine} (nested : Nested ledger.depth (call :: calls))
    (isMatch : ledger.Matches machine)
    (room : (ledger.record call).recent.length ≤ uninterruptableCapacity) :
    Nested (ledger.record call).depth calls ∧
      ∃ after, call.perform.Runs machine () after ∧ (ledger.record call).Matches after := by
  cases call with
  | allocate object =>
      cases object with
      | none => exact ⟨nested, machine, Process.runs_pure () machine, isMatch⟩
      | some object =>
          have notFull : machine.uninterruptable.length < uninterruptableCapacity := by
            rw [isMatch.entries]
            rw [Ledger.record, List.length_append, List.length_singleton] at room
            exact room
          have ran : (perform (.allocate (some object))).Runs machine ()
              { machine with uninterruptable := machine.uninterruptable ++ [object] } := by
            apply Exists.intro []
            rw [perform, Machine.addUninterruptableAllocationObject,
              Process.bind_of_silent (Process.run_read machine), if_pos notFull]
            exact Process.run_modify _ machine
          exact ⟨nested, _, ran, isMatch.counter, congrArg (· ++ [object]) isMatch.entries⟩
  | startUninterruptableAllocation =>
      refine ⟨nested, _, ⟨[], Process.run_modify _ machine⟩, ?_, isMatch.entries⟩
      change machine.uninterruptableCounter + 1 = ((ledger.depth + 1 : Nat) : Int)
      rw [isMatch.counter]
      rfl
  | endUninterruptableAllocation =>
      obtain ⟨depth, isDepth⟩ : ∃ depth, ledger.depth = depth + 1 := by
        cases open_ : ledger.depth with
        | zero =>
            rw [open_] at nested
            exact nested.elim
        | succ depth => exact ⟨depth, rfl⟩
      have counter := isMatch.counter
      rw [isDepth] at nested counter
      have lower : machine.uninterruptableCounter - 1 = (depth : Int) := by
        rw [counter]
        omega
      have ran : perform .endUninterruptableAllocation |>.Runs machine ()
          { machine with
            uninterruptableCounter := machine.uninterruptableCounter - 1
            uninterruptable := if machine.uninterruptableCounter - 1 = 0 then []
              else machine.uninterruptable } := ⟨_, rfl⟩
      by_cases outermost : depth = 0
      · have recorded : ledger.record .endUninterruptableAllocation = {} := by
          apply if_pos
          omega
        rw [recorded]
        subst outermost
        exact ⟨nested, _, ran, lower, if_pos lower⟩
      · have recorded : ledger.record .endUninterruptableAllocation =
            { ledger with depth := depth } := by
          have lowered : ledger.depth - 1 = depth := by omega
          rw [← lowered]
          apply if_neg
          omega
        have stillOpen : machine.uninterruptableCounter - 1 ≠ 0 := by omega
        rw [recorded]
        exact ⟨nested, _, ran, lower, (if_neg stillOpen).trans isMatch.entries⟩

/-- A call without room for its object stops the run. -/
theorem perform_full {call : HeapCall} {ledger : Ledger} {machine : Machine}
    (isMatch : ledger.Matches machine)
    (before : ledger.recent.length ≤ uninterruptableCapacity)
    (full : ¬ (ledger.record call).recent.length ≤ uninterruptableCapacity) :
    (call.perform.run machine).result = .error .overrun := by
  cases call with
  | allocate object =>
      cases object with
      | none => exact absurd before full
      | some object =>
          have isFull : ¬ machine.uninterruptable.length < uninterruptableCapacity := by
            rw [isMatch.entries]
            rw [Ledger.record, List.length_append, List.length_singleton] at full
            exact full
          rw [perform, Machine.addUninterruptableAllocationObject,
            Process.bind_of_silent (Process.run_read machine), if_neg isFull]
          rfl
  | startUninterruptableAllocation => exact absurd before full
  | endUninterruptableAllocation =>
      apply absurd _ full
      unfold Ledger.record
      by_cases outermost : ledger.depth = 1
      · simp [outermost]
      · simpa [outermost] using before

/-! ### Runs -/

theorem performAll_cons (call : HeapCall) (calls : List HeapCall) :
    performAll (call :: calls) = call.perform >>= fun _ => performAll calls :=
  List.foldlM_cons

/-- Where what is recent always fits, the run succeeds and keeps the ledger. -/
theorem performAll_spec {calls : List HeapCall} {ledger : Ledger} {machine : Machine}
    (nested : Nested ledger.depth calls) (isMatch : ledger.Matches machine)
    (fits : ∀ early, early <+: calls →
      (ledger.recordAll early).recent.length ≤ uninterruptableCapacity) :
    ∃ after, (performAll calls).Runs machine () after ∧
      (ledger.recordAll calls).Matches after := by
  induction calls generalizing ledger machine with
  | nil => exact ⟨machine, Process.runs_pure () machine, isMatch⟩
  | cons call calls inductionHypothesis =>
      have first : [call] <+: call :: calls := ⟨calls, rfl⟩
      obtain ⟨nestedRest, middle, ran, middleMatch⟩ :=
        perform_spec nested isMatch (fits [call] first)
      have fitsRest : ∀ early, early <+: calls →
          ((ledger.record call).recordAll early).recent.length ≤ uninterruptableCapacity := by
        intro early isPrefix
        apply fits (call :: early)
        exact List.cons_prefix_cons.mpr ⟨rfl, isPrefix⟩
      obtain ⟨after, ranRest, afterMatch⟩ :=
        inductionHypothesis nestedRest middleMatch fitsRest
      apply Exists.intro after
      rw [performAll_cons]
      exact ⟨ran.bind ranRest, afterMatch⟩

/-- A run that succeeds has kept what is recent within the array. -/
theorem performAll_within {calls : List HeapCall} {ledger : Ledger} {machine after : Machine}
    (nested : Nested ledger.depth calls) (isMatch : ledger.Matches machine)
    (before : ledger.recent.length ≤ uninterruptableCapacity)
    (runs : (performAll calls).Runs machine () after) :
    (ledger.recordAll calls).recent.length ≤ uninterruptableCapacity := by
  induction calls generalizing ledger machine with
  | nil => exact before
  | cons call calls inductionHypothesis =>
      rw [performAll_cons] at runs
      obtain ⟨events, ran⟩ := runs
      obtain ⟨_, middle, _, late, ranFirst, ranRest, _⟩ := Process.bind_eq_ok ran
      have room : (ledger.record call).recent.length ≤ uninterruptableCapacity := by
        apply Classical.byContradiction
        intro full
        have stopped := perform_full isMatch before full
        rw [ranFirst] at stopped
        cases stopped
      obtain ⟨nestedRest, middle', ran', middleMatch⟩ := perform_spec nested isMatch room
      obtain ⟨_, rfl⟩ := ran'.unique ⟨_, ranFirst⟩
      exact inductionHypothesis nestedRest middleMatch room ⟨late, ranRest⟩

end HeapCall

/-! ### Soundness of uninterruptable allocation -/

open HeapCall (performAll Nested)
open Machine (uninterruptableCapacity)

/-- Calls that allocate objects outside any section. -/
def allocations (objects : List Address) : List HeapCall :=
  objects.map fun object => .allocate (some object)

theorem nested_allocations (depth : Nat) (objects : List Address) :
    Nested depth (allocations objects) := by
  induction objects with
  | nil => trivial
  | cons object objects inductionHypothesis => exact inductionHypothesis

theorem recent_allocations (ledger : Ledger) (objects : List Address) :
    (ledger.recordAll (allocations objects)).recent = ledger.recent ++ objects := by
  induction objects generalizing ledger with
  | nil => exact (List.append_nil _).symm
  | cons object objects inductionHypothesis =>
      calc (ledger.recordAll (allocations (object :: objects))).recent
          = (ledger.recent ++ [object]) ++ objects := inductionHypothesis _
        _ = ledger.recent ++ object :: objects := List.append_assoc ..

/-- From a machine outside any section whose array is empty, every step of a run stays
within the array and has the objects of the open sections among its entries exactly if
no more than 65536 objects are ever allocated without an outermost section ending. -/
theorem uninterruptable_sound_iff {calls : List HeapCall} {machine : Machine}
    (nested : Nested 0 calls) (outside : machine.uninterruptableCounter = 0)
    (empty : machine.uninterruptable = []) :
    (∀ early, early <+: calls → ∃ after, (performAll early).Runs machine () after ∧
      after.uninterruptable.length ≤ uninterruptableCapacity ∧
      ∀ object ∈ (({} : Ledger).recordAll early).section_, object ∈ after.uninterruptable) ↔
    ∀ early, early <+: calls →
      (({} : Ledger).recordAll early).recent.length ≤ uninterruptableCapacity := by
  have isMatch : ({} : Ledger).Matches machine := ⟨outside, empty⟩
  have nestedEarly : ∀ {early}, early <+: calls → Nested 0 early := by
    rintro early ⟨late, rfl⟩
    exact HeapCall.nested_of_prefix nested
  constructor
  · intro sound early isPrefix
    obtain ⟨after, runs, -, -⟩ := sound early isPrefix
    exact HeapCall.performAll_within (nestedEarly isPrefix) isMatch (Nat.zero_le _) runs
  · intro fits early isPrefix
    obtain ⟨after, runs, afterMatch⟩ := HeapCall.performAll_spec (nestedEarly isPrefix) isMatch
      fun shorter shorterPrefix => fits shorter (shorterPrefix.trans isPrefix)
    have covers : (({} : Ledger).recordAll early).Covers :=
      Ledger.covers_recordAll (fun _ there => there) early
    apply Exists.intro after
    apply And.intro runs
    rw [afterMatch.entries]
    exact ⟨fits early isPrefix, covers⟩

theorem uninterruptable_sound_section :
    ∃ after, (performAll [.allocate (some 8), .startUninterruptableAllocation,
        .allocate (some 16)]).Runs {} () after ∧
      after.uninterruptable.length ≤ uninterruptableCapacity ∧
      ∀ object ∈ [16], object ∈ after.uninterruptable := by
  have nested : Nested 0 [.allocate (some 8), .startUninterruptableAllocation,
      .allocate (some 16), .endUninterruptableAllocation] := trivial
  apply (uninterruptable_sound_iff nested rfl rfl).mpr
  · intro early isPrefix
    have few := Ledger.recent_length_le {} early
    have short := isPrefix.length_le
    simp only [List.length_cons, List.length_nil] at few short
    unfold uninterruptableCapacity
    omega
  · exact ⟨[.endUninterruptableAllocation], rfl⟩

theorem overruns_of_length {objects : List Address}
    (many : uninterruptableCapacity < objects.length) :
    ¬ ∃ after, (performAll (allocations objects)).Runs {} () after := by
  rintro ⟨after, runs⟩
  have isMatch : ({} : Ledger).Matches {} := ⟨rfl, rfl⟩
  have within := HeapCall.performAll_within (nested_allocations 0 objects) isMatch
    (Nat.zero_le _) runs
  rw [recent_allocations, List.length_append] at within
  exact absurd within (by simp only [List.length_nil]; omega)

/-- 65537 objects allocated in a row outside any section overrun the array. -/
theorem uninterruptable_overrun :
    ∃ calls, Nested 0 calls ∧ ¬ ∃ after, (performAll calls).Runs {} () after := by
  apply Exists.intro <| allocations <|
    (List.range (uninterruptableCapacity + 1)).map fun index => 8 * (index + 1)
  apply And.intro (nested_allocations 0 _)
  apply overruns_of_length
  rw [List.length_map, List.length_range]
  exact Nat.lt_succ_self _

end Somr.Memory
