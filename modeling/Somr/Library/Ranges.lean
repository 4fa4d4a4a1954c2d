import Somr.Library.Vector
import Somr.Primitives.Numbers

/-!
Owns the range operations of the core library: `Array>>from:to:do:` and
`Integer>>to:`, with the loops they are made of.

Integers are exact, as their arithmetic is. The loop of `from:to:do:` does not
read the end it is given; the elements of a range are stored at the indexes that
are their own values. Only the class Integer has `to:`, so a range begins with 32 bits.
-/

namespace Somr.Library

open Foundation Primitives

variable {Object : Type}

/-! ### Methods -/

/-- A block that runs on states with an array. No block changes how long an array is. -/
structure ArrayBlock (Object Answer State : Type) (array : State → Elements Object) where
  value : Object → State → Statement Answer State
  keepsLength : ∀ element before after, value element before = .ok after →
    (array after).length = (array before).length

section

variable {Answer State : Type} {array : State → Elements Object}

/-- `block value: (self at: i)`. -/
def ArrayBlock.valueAt (block : ArrayBlock Object Answer State array) (index : Int)
    (state : State) : Statement Answer State := do
  block.value (← demand ((array state).at_ index)) state

/-- `Array>>from:to:do:`. The loop takes no more rounds than there are indexes from
`start`. -/
def Elements.from_to_do_ (start _end : Int) (block : ArrayBlock Object Answer State array)
    (state : State) : Statement Answer State :=
  Prod.snd <$> whileTrue (fun loop : Int × State => loop.1 ≤ (array loop.2).length)
    (countOn block.valueAt) (((array state).length + 1 - start).toNat + 1) (start, state)

/-- The block evaluated once for the element at each index, in this order. -/
def ArrayBlock.valueAll (block : ArrayBlock Object Answer State array) (indexes : List Int)
    (state : State) : Statement Answer State :=
  indexes.foldlM (fun state index => block.valueAt index state) state

end

namespace Integer

variable {Answer State : Type}

/-- `Integer>>to:by:do:`, for a positive step. -/
def to_by_do_ (self limit step : Int) (block : Int → State → Statement Answer State)
    (state : State) : Statement Answer State :=
  Prod.snd <$> whileTrue (fun loop => loop.1 ≤ limit)
    (fun loop => do return (loop.1 + step, ← block loop.1 loop.2))
    ((limit + 1 - self).toNat + 1) (self, state)

/-- `Integer>>to:do:`. -/
def to_do_ (self limit : Int) (block : Int → State → Statement Answer State) (state : State) :
    Statement Answer State :=
  to_by_do_ self limit 1 block state

/-- `Integer>>to:`; the elements that are not set are nil. Of a size that is a BigInteger
`Array class>>new:` makes no array. -/
def to_ (fits : Nat → Bool) (self : Int32) (upper : Int) : Option (Elements (Option Int)) := do
  let range ← Elements.new_ fits none (upper - self.toInt + 1)
  answering (to_do_ self.toInt upper (fun i range => demand (range.at_put_ i (some i))) range)

end Integer

/-- `to:` sent to a number. BigInteger and Double do not understand it. -/
def sendTo_ {Float64 : Type} (fits : Nat → Bool) (receiver : Number Float64) (upper : Int) :
    Option (Elements (Option Int)) :=
  match receiver with
  | .integer self => Integer.to_ fits self upper
  | .bigInteger _ | .double _ => none

/-- The number is an Integer. -/
def IsInteger {Float64 : Type} : Number Float64 → Prop
  | .integer _ => True
  | .bigInteger _ | .double _ => False

/-! ### Loops over an array -/

section

variable {Answer State : Type} {array : State → Elements Object}

theorem ArrayBlock.valueAt_length (block : ArrayBlock Object Answer State array) {index : Int}
    {before after : State} (evaluated : block.valueAt index before = .ok after) :
    (array after).length = (array before).length := by
  unfold valueAt at evaluated
  cases read : (array before).at_ index with
  | none =>
      rw [read] at evaluated
      cases (evaluated : (Except.error Ending.exit : Statement Answer State) = .ok after)
  | some element =>
      rw [read] at evaluated
      exact block.keepsLength element before after evaluated

/-- `from:to:do:` evaluates its block with the elements up to the last of the array. -/
theorem Elements.from_to_do_eq (start stop : Int) (block : ArrayBlock Object Answer State array)
    (state : State) : from_to_do_ start stop block state =
      block.valueAll (Int.range start ((array state).length + 1)) state := by
  have bound : ∀ (index : Int) (other : State),
      (array other).length = (array state).length →
        decide (index ≤ ((array other).length : Int)) =
          decide (index < ((array state).length : Int) + 1) := by
    intro index other same
    rw [same, decide_eq_decide]
    omega
  exact whileTrue_countOn bound
    (fun index before after same evaluated => (block.valueAt_length evaluated).trans same) _ _ _
    rfl (Nat.lt_succ_self _)

/-- How often a block is evaluated, beside the array. -/
def countingBlock (Object : Type) :
    ArrayBlock Object Unit (Elements Object × Nat) Prod.fst where
  value _ state := .ok (state.1, state.2 + 1)
  keepsLength _ _ _ evaluated := by
    cases evaluated
    rfl

theorem countingBlock_valueAll (elements : Elements Object) (indexes : List Int) (count : Nat)
    (inside : ∀ index ∈ indexes, 1 ≤ index ∧ index ≤ elements.length) :
    (countingBlock Object).valueAll indexes (elements, count) =
      .ok (elements, count + indexes.length) := by
  induction indexes generalizing count with
  | nil => rfl
  | cons index indexes inductionHypothesis =>
      have here := inside index List.mem_cons_self
      have read : elements.at_ index = some elements[(index - 1).toNat] := by
        rw [Elements.at_, if_pos here]
        exact List.getElem?_eq_getElem (by omega)
      have evaluated : (countingBlock Object).valueAt index (elements, count) =
          .ok (elements, count + 1) := by
        rw [ArrayBlock.valueAt, read]
        rfl
      have others := inductionHypothesis (count + 1) fun other there =>
        inside other (List.mem_cons_of_mem index there)
      rw [ArrayBlock.valueAll] at others ⊢
      rw [List.foldlM_cons, evaluated]
      refine others.trans ?_
      rw [List.length_cons]
      congr 2
      omega

/-- `from:to:do:` evaluates every block with the elements from `start` to `stop` if and only
if the array ends there, or before `start`. -/
theorem Elements.from_to_do_iff {elements : Elements Object} {start stop : Int}
    (fromFirst : 1 ≤ start) (toLast : stop ≤ elements.length) :
    (∀ (Answer State : Type) (array : State → Elements Object)
        (block : ArrayBlock Object Answer State array) (state : State), array state = elements →
      from_to_do_ start stop block state = block.valueAll (Int.range start (stop + 1)) state) ↔
      stop = elements.length ∨ (elements.length : Int) < start := by
  constructor
  · intro always
    have evaluations := always Unit _ _ (countingBlock Object) (elements, 0) rfl
    have lengths : ∀ last : Int, (Int.range start last).length = (last - start).toNat := by
      intro last
      rw [Int.range, List.length_map, List.length_range]
    rw [from_to_do_eq, countingBlock_valueAll, countingBlock_valueAll] at evaluations
    · have counts := (Prod.mk.inj (Except.ok.inj evaluations)).2
      rw [lengths, lengths] at counts
      dsimp only at counts
      omega
    · intro index member
      have bounds := Int.mem_range_iff.mp member
      omega
    · intro index member
      have bounds := Int.mem_range_iff.mp member
      dsimp only at bounds
      omega
  · intro sameEnd Answer State array block state same
    rw [from_to_do_eq, same]
    obtain rfl | before := sameEnd
    · rfl
    · rw [range_of_le (by omega), range_of_le (by omega)]

end

/-! ### Ranges of integers -/

namespace Integer

variable {Answer State : Type}

theorem to_do_eq (self limit : Int) (block : Int → State → Statement Answer State)
    (state : State) : to_do_ self limit block state =
      (Int.range self (limit + 1)).foldlM (fun state index => block index state) state := by
  have always : ∀ _ : State, True := fun _ => trivial
  have bound : ∀ (index : Int) (_ : State), True →
      decide (index ≤ limit) = decide (index < limit + 1) := by
    intro index _ _
    rw [decide_eq_decide]
    omega
  exact whileTrue_countOn bound (fun _ _ after _ _ => always after) _ _ _ (always state)
    (Nat.lt_succ_self _)

/-- The elements of a range are stored at their own values. -/
def store (range : Elements (Option Int)) (values : List Int) :
    Statement (Elements (Option Int)) (Elements (Option Int)) :=
  values.foldlM (fun range i => demand (range.at_put_ i (some i))) range

/-- Values from 1 on are stored in their order. -/
theorem store_from_one (range : Elements (Option Int)) (count : Nat)
    (room : count ≤ range.length) :
    store range (Int.range 1 (count + 1)) =
      .ok ((Int.range 1 (count + 1)).map some ++ range.drop count) := by
  induction count with
  | zero => rfl
  | succ count inductionHypothesis =>
      have length : ((Int.range 1 (count + 1)).map (some : Int → Option Int)).length = count := by
        rw [List.length_map, Int.range, List.length_map, List.length_range]
        omega
      have split := List.drop_eq_getElem_cons (by omega : count < range.length)
      have written : ((Int.range 1 (count + 1)).map some ++ range.drop count).set count
          (some ((count : Int) + 1)) =
            (Int.range 1 (count + 1) ++ [(count : Int) + 1]).map some ++ range.drop (count + 1) := by
        rw [List.set_append_right _ _ (by omega), length, Nat.sub_self, split, List.set_cons_zero,
          List.map_append, List.append_assoc]
        rfl
      have fits : count < ((Int.range 1 (count + 1)).map some ++ range.drop count).length := by
        rw [List.length_append, length, List.length_drop]
        omega
      have before := inductionHypothesis (by omega)
      rw [Int.natCast_succ, range_concat (by omega), store, List.foldlM_append]
      rw [store] at before
      rw [before]
      change store ((Int.range 1 (count + 1)).map some ++ range.drop count)
        [(count : Int) + 1] = _
      rw [store, List.foldlM_cons, Elements.at_put_succ _ _ fits, written]
      rfl

/-- A value that is no index ends the program. -/
theorem store_outside {range : Elements (Option Int)} {values : List Int}
    (outside : ∃ value ∈ values, ¬ (1 ≤ value ∧ value ≤ range.length)) :
    store range values = .error .exit := by
  induction values generalizing range with
  | nil =>
      obtain ⟨value, member, -⟩ := outside
      exact absurd member List.not_mem_nil
  | cons value values inductionHypothesis =>
      rw [store, List.foldlM_cons, Elements.at_put_]
      by_cases inside : 1 ≤ value ∧ value ≤ range.length
      · rw [if_pos inside]
        apply inductionHypothesis
        obtain ⟨other, member, bad⟩ := outside
        obtain rfl | later := List.mem_cons.mp member
        · exact absurd inside bad
        · exact ⟨other, later, by rwa [List.length_set]⟩
      · rw [if_neg inside]
        rfl

/-- `to:` answers the integers between its bounds if and only if the lower one is 1 or there
are none. -/
theorem to_iff {fits : Nat → Bool} {self : Int32} {lo hi : Int} (isLow : self.toInt = lo)
    (valid : lo ≤ hi + 1) (allocated : fits (hi - lo + 1).toNat = true) :
    to_ fits self hi = some ((Int.range lo (hi + 1)).map some) ↔ lo = 1 ∨ hi < lo := by
  have new : Elements.new_ fits none (hi - lo + 1) =
      some (List.replicate (hi - lo + 1).toNat (none : Option Int)) :=
    if_pos ⟨by omega, allocated⟩
  rw [to_, isLow, new, Option.bind_eq_bind, Option.bind_some, to_do_eq]
  change answering (store _ _) = _ ↔ _
  constructor
  · intro answered
    by_contra other
    have length : (List.replicate (hi - lo + 1).toNat (none : Option Int)).length =
        (hi - lo + 1).toNat := List.length_replicate
    have outside : ∃ value ∈ Int.range lo (hi + 1), ¬ (1 ≤ value ∧
        value ≤ (List.replicate (hi - lo + 1).toNat (none : Option Int)).length) := by
      rw [length]
      by_cases small : lo < 1
      · exact ⟨lo, Int.mem_range_iff.mpr (by omega), by omega⟩
      · exact ⟨hi, Int.mem_range_iff.mpr (by omega), by omega⟩
    rw [store_outside outside] at answered
    exact Option.some_ne_none _ answered.symm
  · intro simple
    obtain rfl | none := simple
    · have whole := store_from_one (List.replicate (hi - 1 + 1).toNat none) hi.toNat (by simp)
      rw [show ((hi.toNat : Int) + 1) = hi + 1 by omega] at whole
      rw [whole, answering_ok, List.drop_of_length_le (by simp), List.append_nil]
    · rw [range_of_le (by omega), show hi - lo + 1 = 0 by omega]
      rfl

end Integer

/-- A range is answered if and only if an Integer begins it, an array can have its size, and
it begins with 1 or is empty. -/
theorem sendTo_iff {Float64 : Type} {fits : Nat → Bool} {receiver : Number Float64} {lo hi : Int}
    (isLow : receiver.value? = some lo) (valid : lo ≤ hi + 1) :
    sendTo_ fits receiver hi = some ((Int.range lo (hi + 1)).map some) ↔
      IsInteger receiver ∧ fits (hi - lo + 1).toNat = true ∧ (lo = 1 ∨ hi < lo) := by
  cases receiver with
  | integer self =>
      have same : self.toInt = lo := Option.some.inj isLow
      have isInteger : IsInteger (.integer self : Number Float64) := trivial
      rw [and_iff_right isInteger]
      cases allocated : fits (hi - lo + 1).toNat with
      | true =>
          rw [and_iff_right rfl]
          exact Integer.to_iff same valid allocated
      | false =>
          have new : Elements.new_ fits (none : Option Int) (hi - lo + 1) = none :=
            if_neg fun both => Bool.false_ne_true (allocated.symm.trans both.2)
          have refused : sendTo_ fits (.integer self : Number Float64) hi = none := by
            rw [sendTo_, Integer.to_, same, new]
            rfl
          rw [refused]
          exact iff_of_false nofun fun both => Bool.false_ne_true both.1
  | bigInteger value => exact iff_of_false nofun fun both => both.1
  | double value => exact iff_of_false nofun fun both => both.1

/-- Both range operations keep to both ends exactly where the ends are those of the array,
or the range is one of an Integer, has the size of an array and starts at 1, or nothing is
visited. -/
theorem ranges_iff {Float64 : Type} {elements : Elements Object} {start stop lo hi : Int}
    (memory : Nat → Bool) {receiver : Number Float64} (fromFirst : 1 ≤ start)
    (toLast : stop ≤ elements.length) (isLow : receiver.value? = some lo) (valid : lo ≤ hi + 1) :
    ((∀ (Answer State : Type) (array : State → Elements Object)
        (block : ArrayBlock Object Answer State array) (state : State), array state = elements →
      Elements.from_to_do_ start stop block state =
        block.valueAll (Int.range start (stop + 1)) state) ↔
      stop = elements.length ∨ (elements.length : Int) < start) ∧
    (sendTo_ (fitsHeap memory) receiver hi = some ((Int.range lo (hi + 1)).map some) ↔
      IsInteger receiver ∧ fitsHeap memory (hi - lo + 1).toNat = true ∧ (lo = 1 ∨ hi < lo)) :=
  ⟨Elements.from_to_do_iff fromFirst toLast, sendTo_iff isLow valid⟩

/-- Memory for arrays of any size. -/
def allMemory (_ : Nat) : Bool := true

/-- The last two of three elements, and the range from 1 to 3. -/
theorem ranges_of_three :
    ((∀ (Answer State : Type) (array : State → Elements Nat)
        (block : ArrayBlock Nat Answer State array) (state : State), array state = [4, 5, 6] →
      Elements.from_to_do_ 2 3 block state = block.valueAll (Int.range 2 (3 + 1)) state) ↔
      (3 : Int) = ([4, 5, 6] : List Nat).length ∨ (([4, 5, 6] : List Nat).length : Int) < 2) ∧
    (sendTo_ (fitsHeap allMemory) (.integer 1 : Number Int) 3 =
        some ((Int.range 1 (3 + 1)).map some) ↔
      IsInteger (.integer 1 : Number Int) ∧ fitsHeap allMemory ((3 : Int) - 1 + 1).toNat = true ∧
        ((1 : Int) = 1 ∨ (3 : Int) < 1)) :=
  ranges_iff allMemory (by decide) (by decide) rfl (by decide)

/-- The block is evaluated with the third element of the range from 1 to 2, and 3 is no
index of the range from 3 to 5. -/
theorem ranges_exceeded :
    ¬ (∀ (elements : Elements Nat) (start stop : Int), 1 ≤ start → stop ≤ elements.length →
        ∀ (Answer State : Type) (array : State → Elements Nat)
          (block : ArrayBlock Nat Answer State array) (state : State), array state = elements →
        Elements.from_to_do_ start stop block state =
          block.valueAll (Int.range start (stop + 1)) state) ∧
      ¬ ∀ (receiver : Number Int) (lo hi : Int), receiver.value? = some lo → lo ≤ hi + 1 →
        sendTo_ (fitsHeap allMemory) receiver hi = some ((Int.range lo (hi + 1)).map some) := by
  constructor
  · intro always
    have evaluations := always [4, 5, 6] 1 2 (by decide) (by decide) Unit _ _ (countingBlock Nat)
      ([4, 5, 6], 0) rfl
    exact absurd evaluations (by decide)
  · intro always
    exact absurd (always (.integer 3) 3 5 rfl (by decide)) (by decide)

end Somr.Library
