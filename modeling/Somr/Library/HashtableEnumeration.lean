import Somr.Library.HashtableMap

/-!
Owns the enumeration of a `Hashtable`: what its messages `keys` and `values`
answer.

Both compare their local variable with a new vector instead of assigning it, so
that they work on nil.
-/

namespace Somr.Library

open Somr.Foundation Somr.Primitives

variable {Object : Type} (messages : Messages Object) {Float64 : Type}
  (arithmetic : DoubleArithmetic Float64)

/-- The keys and the values of a table that has the stored pairs: a vector of `size`
elements each, with every key once and with the value of every key. -/
structure Hashtable.Enumerates (hashtable : Hashtable Object) (stored : List (Object × Object)) :
    Prop where
  keys : ∃ vector contents, hashtable.keys messages = some (some vector) ∧
    vector.Represents contents ∧ vector.size = hashtable.size ∧
    (contents.Pairwise fun first second => messages.equal first second = false) ∧
    ∀ pair ∈ stored, ∃ key ∈ contents, messages.equal key pair.1 = true
  values : ∃ vector contents, hashtable.values messages = some (some vector) ∧
    vector.Represents contents ∧ vector.size = hashtable.size ∧
    ∀ pair ∈ stored, ∃ value ∈ contents, hashtable.get_ messages arithmetic pair.1 = some value

/-- The local is nil throughout. -/
theorem foldlM_appendLocal (elements : List Object) :
    elements.foldlM (Hashtable.appendLocal messages) none =
      if elements = [] then some none else none := by
  cases elements with
  | nil => rfl
  | cons element elements => rfl

/-- An enumeration answers nil if the table is empty, and does not end otherwise. -/
theorem Hashtable.enumerate_eq (hashtable : Hashtable Object)
    {parts : HashEntry Object → Option (Vector Object)}
    (nonempty : ∀ entry, ∃ vector contents, parts entry = some vector ∧
      vector.Represents contents ∧ contents ≠ []) :
    hashtable.enumerate messages parts =
      if hashtable.table.all Option.isNone then some none else none := by
  obtain ⟨empty, isNew, -⟩ := Vector.represents_new messages.nil
  unfold enumerate
  rw [Elements.visited_eq, isNew]
  simp only [Option.bind_eq_bind, Option.bind_some]
  induction hashtable.table with
  | nil => rfl
  | cons slot slots inductionHypothesis =>
      rw [List.foldlM_cons, List.all_cons]
      cases slot with
      | none => exact inductionHypothesis
      | some entry =>
          obtain ⟨vector, contents, made, represents, some⟩ := nonempty entry
          simp only [made, represents.visited, Option.bind_eq_bind, Option.bind_some,
            foldlM_appendLocal, if_neg some]
          rfl

theorem Hashtable.keys_eq (hashtable : Hashtable Object) : hashtable.keys messages =
    if hashtable.table.all Option.isNone then some none else none := by
  apply enumerate_eq
  intro entry
  obtain ⟨keys, made, represents⟩ := entry.keys_represents messages
  refine ⟨keys, _, made, represents, ?_⟩
  cases entry <;> simp [HashEntry.entries]

theorem Hashtable.values_eq (hashtable : Hashtable Object) : hashtable.values messages =
    if hashtable.table.all Option.isNone then some none else none := by
  apply enumerate_eq
  intro entry
  obtain ⟨values, made, represents⟩ := entry.values_represents messages
  refine ⟨values, _, made, represents, ?_⟩
  cases entry <;> simp [HashEntry.entries]

/-- No table is enumerated, by `keys` or by `values`. -/
theorem hashtable_never_enumerated (hashtable : Hashtable Object)
    (stored : List (Object × Object)) :
    ¬ hashtable.Enumerates messages arithmetic stored ∧
      (∀ vector, hashtable.keys messages ≠ some (some vector)) ∧
      ∀ vector, hashtable.values messages ≠ some (some vector) := by
  have noVector : ∀ vector : Vector Object,
      (if hashtable.table.all Option.isNone then some none else none) ≠ some (some vector) := by
    intro vector
    split <;> simp
  have noKeys : ∀ vector, hashtable.keys messages ≠ some (some vector) := by
    rw [hashtable.keys_eq messages]
    exact noVector
  have noValues : ∀ vector, hashtable.values messages ≠ some (some vector) := by
    rw [hashtable.values_eq messages]
    exact noVector
  refine ⟨fun enumerates => ?_, noKeys, noValues⟩
  obtain ⟨vector, contents, answered, -⟩ := enumerates.keys
  exact noKeys vector answered

/-- A table with one pair. -/
theorem one_pair_not_enumerated :
    ¬ ∀ received hashtable, Hashtable.afterAll integralDoubles integerMessages received =
        some hashtable →
      hashtable.Enumerates integerMessages integralDoubles (sinceClear received) := by
  intro always
  obtain ⟨hashtable, reached⟩ : ∃ hashtable, Hashtable.afterAll integralDoubles integerMessages
      [.at_put_ 3 4] = some hashtable :=
    ⟨_, (Option.some_get (by decide +kernel)).symm⟩
  obtain ⟨vector, contents, answered, -⟩ := (always _ hashtable reached).keys
  rw [hashtable.keys_eq integerMessages] at answered
  split at answered <;> simp at answered

end Somr.Library
