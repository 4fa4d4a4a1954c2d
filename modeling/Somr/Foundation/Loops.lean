import Mathlib.Data.Int.Range

/-!
Owns computations that may end early: bodies that a statement inside them leaves
with an answer, and loops that evaluate a condition and a body in turn.

A loop is given the rounds it may take. One that would take more ends as
`unfinished`, which is no answer, so that an answer is always one the loop reaches.
-/

namespace Somr.Foundation

/-! ### Early ends -/

/-- Why a computation does not go on: the body around it is left with an answer, the
program ends, or a loop has no rounds left. -/
inductive Ending (Answer : Type) where
  | answer (answer : Answer)
  | exit
  | unfinished
deriving DecidableEq, Repr

abbrev Statement (Answer Value : Type) := Except (Ending Answer) Value

variable {Answer Value State : Type}

/-- Leave the body around the statement with an answer. -/
def leave (answer : Answer) : Statement Answer Value := .error (.answer answer)

/-- The value of an operation that ends the program where it has none. -/
def demand : Option Value → Statement Answer Value
  | some value => .ok value
  | none => .error .exit

/-- The answer of a body: the one it is left with, or else its value. -/
def answering : Statement Answer Answer → Option Answer
  | .ok value => some value
  | .error (.answer answer) => some answer
  | .error _ => none

@[simp] theorem demand_value (value : Value) :
    (demand (some value) : Statement Answer Value) = .ok value := rfl

@[simp] theorem demand_none : (demand none : Statement Answer Value) = .error .exit := rfl

@[simp] theorem answering_ok (value : Answer) : answering (.ok value) = some value := rfl

@[simp] theorem answering_leave (answer : Answer) : answering (leave answer) = some answer := rfl

/-- A search leaves the body at the first element it looks for. -/
theorem answering_search {elements : List Value} {block : Value → Unit → Statement Answer Unit}
    (found : Value → Bool) (answerOf : Value → Answer) (otherwise : Answer)
    (searches : ∀ element ∈ elements,
      block element () = if found element then leave (answerOf element) else .ok ()) :
    answering (do
      elements.foldlM (fun state element => block element state) ()
      return otherwise) = some (((elements.find? found).map answerOf).getD otherwise) := by
  induction elements with
  | nil => rfl
  | cons element elements inductionHypothesis =>
      have here := searches element List.mem_cons_self
      rw [List.foldlM_cons, List.find?_cons, here]
      cases found element with
      | true => rfl
      | false => exact inductionHypothesis fun other there =>
          searches other (List.mem_cons_of_mem element there)

/-! ### Loops -/

/-- Evaluate the body as long as the condition holds. -/
def whileTrue (condition : State → Bool) (body : State → Statement Answer State) :
    (rounds : Nat) → State → Statement Answer State
  | 0, _ => .error .unfinished
  | rounds + 1, state =>
      if condition state then do
        whileTrue condition body rounds (← body state)
      else .ok state

variable {condition : State → Bool} {body : State → Statement Answer State} {state : State}

theorem whileTrue_of_false (fails : condition state = false) (rounds : Nat) :
    whileTrue condition body (rounds + 1) state = .ok state := by
  rw [whileTrue, if_neg (by simp [fails])]

theorem whileTrue_of_true (holds : condition state = true) (rounds : Nat) :
    whileTrue condition body (rounds + 1) state =
      (body state >>= whileTrue condition body rounds) := by
  rw [whileTrue, if_pos holds]

/-! ### Counting up -/

theorem range_of_le {start stop : Int} (none : stop ≤ start) : Int.range start stop = [] := by
  rw [Int.range, Int.toNat_of_nonpos (by omega)]
  rfl

theorem range_of_lt {start stop : Int} (some : start < stop) :
    Int.range start stop = start :: Int.range (start + 1) stop := by
  have count : (stop - start).toNat = (stop - (start + 1)).toNat + 1 := by omega
  rw [Int.range, count, List.range_succ_eq_map, List.map_cons, List.map_map, Int.range]
  congr 1
  · simp
  · apply List.map_congr_left
    intro index _
    simp only [Function.comp_apply, Nat.succ_eq_add_one]
    omega

theorem range_concat {start stop : Int} (some : start ≤ stop) :
    Int.range start (stop + 1) = Int.range start stop ++ [stop] := by
  have count : (stop + 1 - start).toNat = (stop - start).toNat + 1 := by omega
  rw [Int.range, count, List.range_succ, List.map_append, Int.range, List.map_singleton]
  congr 2
  omega

/-- Evaluate the block with an index and go on with the next index. -/
def countOn (block : Int → State → Statement Answer State) (loop : Int × State) :
    Statement Answer (Int × State) := do
  return (loop.1 + 1, ← block loop.1 loop.2)

/-- A loop that counts up to a bound evaluates its block with each number below. The bound
may be read from the state, where the block keeps it. -/
theorem whileTrue_countOn {below : Int × State → Bool} {stop : Int} {Bounded : State → Prop}
    {block : Int → State → Statement Answer State}
    (bound : ∀ index state, Bounded state → below (index, state) = decide (index < stop))
    (keeps : ∀ index before after, Bounded before → block index before = .ok after →
      Bounded after)
    (rounds : Nat) (start : Int) (state : State) (bounded : Bounded state)
    (enough : (stop - start).toNat < rounds) :
    Prod.snd <$> whileTrue below (countOn block) rounds (start, state) =
      (Int.range start stop).foldlM (fun state index => block index state) state := by
  induction rounds generalizing start state with
  | zero => exact absurd enough (Nat.not_lt_zero _)
  | succ rounds inductionHypothesis =>
      by_cases more : start < stop
      · have holds : below (start, state) = true := by
          rw [bound start state bounded, decide_eq_true more]
        rw [whileTrue_of_true holds, range_of_lt more, List.foldlM_cons, countOn]
        cases evaluated : block start state with
        | error ending => rfl
        | ok after =>
            exact inductionHypothesis (start + 1) after (keeps start state after bounded evaluated)
              (by omega)
      · have fails : below (start, state) = false := by
          rw [bound start state bounded, decide_eq_false more]
        rw [whileTrue_of_false fails, range_of_le (by omega)]
        rfl

/-- A fold over numbers that reads an element for each is a fold over the elements. -/
theorem foldlM_range_of_reads {read : Int → Option Value}
    (block : Value → State → Statement Answer State) (elements : List Value) (start : Int)
    (reads : ∀ (index : Nat) (inside : index < elements.length),
      read (start + index) = some elements[index]) (state : State) :
    (Int.range start (start + elements.length)).foldlM
        (fun state index => do block (← demand (read index)) state) state =
      elements.foldlM (fun state element => block element state) state := by
  induction elements generalizing start state with
  | nil => rw [range_of_le (by simp)]; rfl
  | cons element elements inductionHypothesis =>
      have first : read start = some element := by
        have here := reads 0 (Nat.succ_pos _)
        rwa [Int.natCast_zero, Int.add_zero, List.getElem_cons_zero] at here
      have others : ∀ (index : Nat) (inside : index < elements.length),
          read (start + 1 + index) = some elements[index] := by
        intro index inside
        have here := reads (index + 1) (by simpa using inside)
        rw [List.getElem_cons_succ] at here
        rw [← here]
        congr 1
        omega
      have same : start + ((element :: elements).length : Int) = start + 1 + elements.length := by
        rw [List.length_cons]
        omega
      rw [range_of_lt (by rw [List.length_cons]; omega), List.foldlM_cons, List.foldlM_cons, first,
        same]
      change (block element state >>= _) = _
      cases block element state with
      | error ending => rfl
      | ok after => exact inductionHypothesis (start + 1) others after

end Somr.Foundation
