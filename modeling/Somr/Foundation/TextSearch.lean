import Mathlib.Data.List.Infix

/-!
Owns searches in a text: the first occurrence of a pattern, the last position of a
symbol, and where they are in a text that has been put together from parts; and the
part of a raw character memory before its first NUL.

A pattern without the separator does not reach across it.
-/

namespace Somr.Foundation

variable {Symbol : Type} [DecidableEq Symbol]

/-- The first position at which a pattern begins. -/
def firstOccurrence (pattern : List Symbol) : List Symbol → Option Nat
  | [] => if pattern = [] then some 0 else none
  | symbol :: text =>
      if pattern <+: symbol :: text then some 0 else (firstOccurrence pattern text).map (· + 1)

/-- The last position of a symbol. -/
def lastPosition (symbol : Symbol) : List Symbol → Option Nat
  | [] => none
  | other :: text =>
      match lastPosition symbol text with
      | some position => some (position + 1)
      | none => if other = symbol then some 0 else none

/-! ### First occurrences -/

section Pattern

variable {pattern early late : List Symbol} {separator : Symbol}

/-- An occurrence lies in the text. -/
theorem firstOccurrence_within {text : List Symbol} {position : Nat}
    (found : firstOccurrence pattern text = some position) :
    position + pattern.length ≤ text.length := by
  induction text generalizing position with
  | nil =>
      rw [firstOccurrence] at found
      split at found
      · rename_i empty
        cases found
        rw [empty]
        exact Nat.le_refl 0
      · cases found
  | cons symbol text inductionHypothesis =>
      rw [firstOccurrence] at found
      split at found
      · rename_i here
        cases found
        rw [Nat.zero_add]
        exact here.length_le
      · obtain ⟨rest, foundRest, rfl⟩ := Option.map_eq_some_iff.mp found
        have within := inductionHypothesis foundRest
        rw [List.length_cons]
        omega

theorem firstOccurrence_of_infix (there : pattern <:+: early) (late : List Symbol) :
    ∃ position, firstOccurrence pattern (early ++ late) = some position ∧
      position + pattern.length ≤ early.length := by
  induction early with
  | nil =>
      have empty := List.eq_nil_of_infix_nil there
      apply Exists.intro 0
      rw [empty]
      refine ⟨?_, Nat.le_refl 0⟩
      cases late with
      | nil => rfl
      | cons symbol late => exact if_pos (List.nil_prefix)
  | cons symbol early inductionHypothesis =>
      rw [List.cons_append, firstOccurrence]
      by_cases here : pattern <+: symbol :: (early ++ late)
      · rw [if_pos here]
        apply Exists.intro 0
        apply And.intro rfl
        rw [Nat.zero_add]
        exact there.length_le
      · have notFirst : ¬ pattern <+: symbol :: early := by
          intro first
          exact here (first.trans (List.prefix_append (symbol :: early) late))
        have inRest : pattern <:+: early :=
          (List.infix_cons_iff.mp there).resolve_left notFirst
        obtain ⟨position, found, within⟩ := inductionHypothesis inRest
        apply Exists.intro (position + 1)
        rw [if_neg here, found, List.length_cons]
        exact ⟨rfl, by omega⟩

omit [DecidableEq Symbol] in
theorem prefix_of_prefix_separated (absent : separator ∉ pattern)
    (isPrefix : pattern <+: early ++ separator :: late) : pattern <+: early := by
  by_cases short : pattern.length ≤ early.length
  · exact List.prefix_of_prefix_length_le isPrefix (List.prefix_append _ _) short
  · have reaches : early ++ [separator] <+: early ++ separator :: late := ⟨late, by simp⟩
    have across : early ++ [separator] <+: pattern := by
      apply List.prefix_of_prefix_length_le reaches isPrefix
      rw [List.length_append, List.length_singleton]
      omega
    have member : separator ∈ early ++ [separator] := by simp
    exact absurd (across.subset member) absent

/-- A pattern that is not in front of the separator is searched for behind it. -/
theorem firstOccurrence_separated (nonempty : pattern ≠ []) (absent : separator ∉ pattern)
    (notThere : ¬ pattern <:+: early) :
    firstOccurrence pattern (early ++ separator :: late) =
      (firstOccurrence pattern late).map (· + (early.length + 1)) := by
  induction early with
  | nil =>
      have notHere : ¬ pattern <+: separator :: late := by
        intro here
        exact nonempty (List.prefix_nil.mp (prefix_of_prefix_separated absent here))
      exact if_neg notHere
  | cons symbol early inductionHypothesis =>
      have notHere : ¬ pattern <+: symbol :: (early ++ separator :: late) := by
        intro here
        rw [← List.cons_append] at here
        exact notThere (prefix_of_prefix_separated absent here).isInfix
      have notInRest : ¬ pattern <:+: early := by
        intro inRest
        exact notThere (List.infix_cons inRest)
      rw [List.cons_append, firstOccurrence, if_neg notHere, inductionHypothesis notInRest,
        Option.map_map, List.length_cons]
      rfl

end Pattern

/-- A pattern whose first symbol is not in a name is found behind the name. -/
theorem firstOccurrence_behind {first : Symbol} {name : List Symbol} (absent : first ∉ name)
    (rest : List Symbol) : firstOccurrence (first :: rest) (name ++ first :: rest) =
      some name.length := by
  induction name with
  | nil => exact if_pos List.prefix_rfl
  | cons symbol name inductionHypothesis =>
      obtain ⟨other, notInRest⟩ := List.ne_and_not_mem_of_not_mem_cons absent
      have notHere : ¬ first :: rest <+: symbol :: (name ++ first :: rest) := by
        intro here
        exact other (List.cons_prefix_cons.mp here).1
      rw [List.cons_append, firstOccurrence, if_neg notHere, inductionHypothesis notInRest]
      rfl

theorem firstOccurrence_of_notMem {first : Symbol} {name : List Symbol} (absent : first ∉ name)
    (rest : List Symbol) : firstOccurrence (first :: rest) name = none := by
  induction name with
  | nil => rfl
  | cons symbol name inductionHypothesis =>
      obtain ⟨other, notInRest⟩ := List.ne_and_not_mem_of_not_mem_cons absent
      have notHere : ¬ first :: rest <+: symbol :: name := by
        intro here
        exact other (List.cons_prefix_cons.mp here).1
      rw [firstOccurrence, if_neg notHere, inductionHypothesis notInRest]
      rfl

/-! ### Last positions -/

theorem lastPosition_of_notMem {symbol : Symbol} {text : List Symbol} (absent : symbol ∉ text) :
    lastPosition symbol text = none := by
  induction text with
  | nil => rfl
  | cons other text inductionHypothesis =>
      obtain ⟨different, notInRest⟩ := List.ne_and_not_mem_of_not_mem_cons absent
      rw [lastPosition, inductionHypothesis notInRest]
      exact if_neg different.symm

theorem lastPosition_append {symbol : Symbol} {late : List Symbol} (absent : symbol ∉ late)
    (early : List Symbol) : lastPosition symbol (early ++ symbol :: late) = some early.length := by
  induction early with
  | nil =>
      rw [List.nil_append, lastPosition, lastPosition_of_notMem absent]
      exact if_pos rfl
  | cons other early inductionHypothesis =>
      rw [List.cons_append, lastPosition, inductionHypothesis]
      rfl

theorem lastPosition_lt {symbol : Symbol} {text : List Symbol} {position : Nat}
    (found : lastPosition symbol text = some position) : position < text.length := by
  induction text generalizing position with
  | nil => cases found
  | cons other text inductionHypothesis =>
      rw [List.length_cons]
      rw [lastPosition] at found
      split at found
      · rename_i rest foundRest
        cases found
        exact Nat.succ_lt_succ (inductionHypothesis foundRest)
      · split at found
        · cases found
          exact Nat.succ_pos _
        · cases found

/-! ### C strings -/

def nul : Char := Char.ofNat 0

/-- What `StdString` makes of a raw buffer. -/
def cString (memory : List Char) : List Char := memory.takeWhile (· ≠ nul)

theorem all_ne_of_notMem {absent : Char} {chars : List Char} (notMem : absent ∉ chars) :
    ∀ c ∈ chars, decide (c ≠ absent) = true :=
  fun _ there => decide_eq_true fun same => notMem (same ▸ there)

theorem cString_terminated (chars more : List Char) :
    cString (chars ++ nul :: more) = cString chars := by
  induction chars with
  | nil => simp [cString]
  | cons c cs hypothesis =>
      unfold cString at hypothesis ⊢
      rw [List.cons_append, List.takeWhile_cons, List.takeWhile_cons, hypothesis]

end Somr.Foundation
