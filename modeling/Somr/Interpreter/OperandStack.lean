import Somr.Interpreter.Machine
import Mathlib.Data.List.Induction

/-!
Owns the operand stack of a frame as a list: the slots up to the stack pointer,
last pushed last. Popping takes values off its end and pushing appends to it; a
pop below the first slot or a push behind the last one ends the program.
-/

namespace Somr.Interpreter

open Foundation

section

variable {World Object : Type}

/-! ### Frames and states after an operation -/

/-- The frame with this many values less; the slots keep them. -/
def Frame.popped (count : Nat) (frame : Frame Object) : Frame Object :=
  { frame with stackPointer := frame.stackPointer - count }

def Frame.pushed (frame : Frame Object) (value : Value Object) : Frame Object :=
  { frame with
    stackPointer := frame.stackPointer + 1
    slots := frame.slots.set (frame.stackPointer + 1).toNat value }

def State.put (state : State World Object) (address : Nat) (frame : Frame Object) :
    State World Object :=
  { state with frames := state.frames.set address frame }

/-! ### What a frame holds -/

/-- The slots up to the stack pointer are these values. -/
structure Frame.Holds (frame : Frame Object) (values : List (Value Object)) : Prop where
  pointer : frame.stackPointer + 1 = values.length
  live : values <+: frame.slots

/-- The stack pointer is on a slot, and at least this many slots are not above it. -/
structure Frame.HasValues (frame : Frame Object) (count : Nat) : Prop where
  enough : count ≤ frame.stackPointer + 1
  inside : frame.stackPointer < frame.slots.length

def Frame.live (frame : Frame Object) : List (Value Object) :=
  frame.slots.take (frame.stackPointer + 1).toNat

/-- The topmost values, the last pushed last. -/
def Frame.top (frame : Frame Object) (count : Nat) : List (Value Object) :=
  frame.live.drop (frame.live.length - count)

def Frame.below (frame : Frame Object) (count : Nat) : List (Value Object) :=
  frame.live.take (frame.live.length - count)

variable {frame : Frame Object} {values below top : List (Value Object)} {count : Nat}

theorem Frame.HasValues.length_live (has : frame.HasValues count) :
    (frame.live.length : Int) = frame.stackPointer + 1 := by
  have enough := has.enough
  have inside := has.inside
  rw [Frame.live, List.length_take]
  omega

theorem Frame.HasValues.length_top (has : frame.HasValues count) :
    (frame.top count).length = count := by
  have live := has.length_live
  have enough := has.enough
  rw [Frame.top, List.length_drop]
  omega

theorem Frame.HasValues.holds (has : frame.HasValues count) :
    frame.Holds (frame.below count ++ frame.top count) := by
  rw [Frame.below, Frame.top, List.take_append_drop]
  exact ⟨has.length_live.symm, List.take_prefix _ _⟩

theorem Frame.Holds.popped (holds : frame.Holds (below ++ top)) :
    (frame.popped top.length).Holds below := by
  have pointer := holds.pointer
  refine ⟨?_, (List.prefix_append below top).trans holds.live⟩
  rw [List.length_append] at pointer
  rw [Frame.popped]
  dsimp only
  omega

theorem Frame.Holds.pushed (holds : frame.Holds values) (value : Value Object)
    (room : values.length < frame.slots.length) :
    (frame.pushed value).Holds (values ++ [value]) := by
  have pointer := holds.pointer
  constructor
  · rw [Frame.pushed, List.length_append, List.length_singleton]
    dsimp only
    omega
  · obtain ⟨rest, slots⟩ := holds.live
    rw [Frame.pushed, pointer, Int.toNat_natCast, ← slots]
    cases rest with
    | nil =>
        rw [← slots, List.append_nil] at room
        exact absurd room (Nat.lt_irrefl _)
    | cons old rest =>
        rw [List.set_append_right _ _ (Nat.le_refl _), Nat.sub_self, List.set_cons_zero]
        exact ⟨rest, by rw [List.append_assoc, List.singleton_append]⟩

theorem Frame.length_slots_pushed (value : Value Object) :
    (frame.pushed value).slots.length = frame.slots.length :=
  List.length_set

/-! ### Runs -/

variable {state : State World Object} {address : Nat}

theorem State.put_found (found : state.frames[address]? = some frame) (other : Frame Object) :
    (state.put address other).frames[address]? = some other := by
  obtain ⟨below, -⟩ := List.getElem?_eq_some_iff.mp found
  exact List.getElem?_set_self below

theorem State.put_put (first second : Frame Object) :
    (state.put address first).put address second = state.put address second := by
  rw [State.put, State.put, State.put, List.set_set]

theorem State.put_same (found : state.frames[address]? = some frame) :
    state.put address frame = state := by
  obtain ⟨below, same⟩ := List.getElem?_eq_some_iff.mp found
  rw [State.put, ← same, List.set_getElem_self]

theorem changeFrame_run (found : state.frames[address]? = some frame)
    (change : Frame Object → Frame Object) :
    (changeFrame address change).run state =
      ⟨.ok (), state.put address (change frame), []⟩ := by
  rw [changeFrame, Process.run_modify, List.modify_eq_set_getElem?, found]
  rfl

theorem pop_run (found : state.frames[address]? = some frame) :
    (pop address).run state =
      (element address frame.stackPointer).run (state.put address (frame.popped 1)) := by
  rw [pop, Process.bind_of_silent (readFrame_run found),
    Process.bind_of_silent (changeFrame_run found _)]
  rfl

theorem pop_value_run (found : state.frames[address]? = some frame) {value : Value Object}
    (holds : frame.Holds (below ++ [value])) :
    (pop address).run state = ⟨.ok value, state.put address (frame.popped 1), []⟩ := by
  have pointer : frame.stackPointer = below.length := by
    have pointer := holds.pointer
    rw [List.length_append, List.length_singleton] at pointer
    omega
  have there : frame.slots[below.length]? = some value := by
    obtain ⟨rest, slots⟩ := holds.live
    rw [← slots, List.append_assoc, List.getElem?_append_right (Nat.le_refl _), Nat.sub_self]
    rfl
  rw [pop_run found, pointer]
  exact element_run (State.put_found found _) there

theorem popArguments_run (found : state.frames[address]? = some frame)
    (holds : frame.Holds (below ++ top)) :
    (popArguments address top.length).run state =
      ⟨.ok top, state.put address (frame.popped top.length), []⟩ := by
  induction top using List.reverseRecOn generalizing frame state with
  | nil =>
      have unchanged : frame.popped 0 = frame := by
        rw [Frame.popped, Int.natCast_zero, Int.sub_zero]
      rw [List.length_nil, unchanged, State.put_same found]
      rfl
  | append_singleton before value inductionHypothesis =>
      rw [← List.append_assoc] at holds
      have later := inductionHypothesis (State.put_found found (frame.popped 1)) holds.popped
      have both : (frame.popped 1).popped before.length = frame.popped (before.length + 1) := by
        simp only [Frame.popped]
        congr 1
        omega
      rw [State.put_put, both] at later
      rw [List.length_append, List.length_singleton, popArguments,
        Process.bind_of_silent (pop_value_run found holds), Process.bind_of_silent later]
      rfl

theorem push_run (found : state.frames[address]? = some frame) (value : Value Object) :
    (push address value).run state =
      (setElement address (frame.stackPointer + 1) value).run
        (state.put address { frame with stackPointer := frame.stackPointer + 1 }) := by
  rw [push, Process.bind_of_silent (readFrame_run found),
    Process.bind_of_silent (changeFrame_run found _)]

theorem push_value_run (found : state.frames[address]? = some frame)
    (holds : frame.Holds values) (value : Value Object)
    (room : values.length < frame.slots.length) :
    (push address value).run state = ⟨.ok (), state.put address (frame.pushed value), []⟩ := by
  have moved := State.put_found found { frame with stackPointer := frame.stackPointer + 1 }
  have written := setElement_run value moved room
  rw [← holds.pointer] at written
  have same : (frame.stackPointer + 1).toNat = values.length := by
    rw [holds.pointer, Int.toNat_natCast]
  rw [push_run found, written, Frame.pushed, same]
  exact congrArg (fun after => (⟨.ok (), after, []⟩ : Outcome _ _ _ _)) (State.put_put _ _)

/-- A push behind the last slot ends the program. -/
theorem push_outside (found : state.frames[address]? = some frame)
    (holds : frame.Holds values) (value : Value Object)
    (full : values.length = frame.slots.length) :
    ((push address value).run state).result = .error .exit := by
  have outside : (frame.slots[values.length]?) = none := by
    rw [full]
    exact List.getElem?_length frame.slots
  rw [push_run found, setElement, element, holds.pointer, Process.bind_assoc,
    Process.bind_of_silent (readFrame_run (State.put_found found _)), if_neg (by omega),
    Int.toNat_natCast]
  dsimp only
  rw [outside]
  rfl

theorem pushes_run (found : state.frames[address]? = some frame) (holds : frame.Holds below)
    (room : below.length + values.length ≤ frame.slots.length) :
    (values.forM (push address)).run state =
      ⟨.ok (), state.put address (values.foldl Frame.pushed frame), []⟩ := by
  induction values generalizing frame state below with
  | nil =>
      rw [List.foldl_nil, State.put_same found]
      rfl
  | cons value rest inductionHypothesis =>
      rw [List.length_cons] at room
      have first := push_value_run found holds value (by omega)
      have later := inductionHypothesis (State.put_found found (frame.pushed value))
        (holds.pushed value (by omega)) (by
          rw [List.length_append, List.length_singleton, Frame.length_slots_pushed]
          omega)
      rw [State.put_put] at later
      show (push address value >>= fun _ => rest.forM (push address)).run state = _
      rw [Process.bind_of_silent first, later, List.foldl_cons]

theorem pushes_outside (found : state.frames[address]? = some frame) (holds : frame.Holds below)
    (full : frame.slots.length < below.length + values.length) :
    ((values.forM (push address)).run state).result = .error .exit := by
  induction values generalizing frame state below with
  | nil =>
      have live := holds.live.length_le
      rw [List.length_nil] at full
      omega
  | cons value rest inductionHypothesis =>
      rw [List.length_cons] at full
      show ((push address value >>= fun _ => rest.forM (push address)).run state).result = _
      by_cases room : below.length < frame.slots.length
      · rw [Process.bind_of_silent (push_value_run found holds value room)]
        apply inductionHypothesis (State.put_found found _) (holds.pushed value room)
        rw [List.length_append, List.length_singleton, Frame.length_slots_pushed]
        omega
      · have stopped := push_outside found holds value
          (Nat.le_antisymm holds.live.length_le (Nat.not_lt.mp room))
        cases outcome : (push address value).run state with
        | mk result after events =>
            rw [outcome] at stopped
            obtain rfl : result = .error .exit := stopped
            rw [Process.bind_of_error outcome]

theorem Frame.Holds.pushedAll (holds : frame.Holds below)
    (room : below.length + values.length ≤ frame.slots.length) :
    (values.foldl Frame.pushed frame).Holds (below ++ values) := by
  induction values generalizing frame below with
  | nil =>
      rw [List.append_nil]
      exact holds
  | cons value rest inductionHypothesis =>
      rw [List.length_cons] at room
      have later := inductionHypothesis (holds.pushed value (by omega)) (by
        rw [List.length_append, List.length_singleton, Frame.length_slots_pushed]
        omega)
      rwa [List.append_assoc, List.singleton_append] at later

end

end Somr.Interpreter
