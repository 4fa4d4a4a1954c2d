import Mathlib.Data.List.Range
import Somr.Library.Set

/-!
Owns the class `Dictionary` of the core library and the finite map behind it.

The pairs of a dictionary are objects that `at:put:` makes and changes. They are
named by their positions in a list of all pairs made; the set holds these names,
where none is nil. A pair is equal to itself only.
-/

namespace Somr.Library

open Foundation

variable {Object : Type} (equal : Object → Object → Bool)

/-! ### Methods -/

/-- An object of class `Pair`. -/
structure Pair (Object : Type) where
  key : Object
  value : Object
deriving DecidableEq, Repr

abbrev PairReference := Option Nat

structure Dictionary (Object : Type) where
  pairs : Set PairReference
  /-- The objects of class `Pair`. -/
  made : List (Pair Object)
deriving DecidableEq, Repr

namespace Dictionary

/-- `Dictionary class>>new`. -/
def new : Option (Dictionary Object) := do return ⟨← Set.new none, []⟩

def pair? (dictionary : Dictionary Object) (p : PairReference) : Option (Pair Object) :=
  p.bind fun address => dictionary.made[address]?

/-- `pairs do: [ :p | p key = aKey ifTrue: [ ^answer ] ]` and `^otherwise`. -/
def search {Answer : Type} (dictionary : Dictionary Object) (aKey : Object)
    (answer : PairReference → Pair Object → Answer) (otherwise : Answer) : Option Answer :=
  answering do
    dictionary.pairs.do_ (fun p _ => do
      let pair ← demand (dictionary.pair? p)
      if equal pair.key aKey then leave (answer p pair) else .ok ()) ()
    return otherwise

/-- `Dictionary>>at:`. -/
def at_ (nil : Object) (dictionary : Dictionary Object) (aKey : Object) : Option Object :=
  dictionary.search equal aKey (fun _ pair => pair.value) nil

/-- `Dictionary>>containsKey:`. -/
def containsKey_ (dictionary : Dictionary Object) (aKey : Object) : Option Bool :=
  dictionary.search equal aKey (fun _ _ => true) false

/-- `Dictionary>>pairAt:`. -/
def pairAt_ (dictionary : Dictionary Object) (aKey : Object) : Option PairReference :=
  dictionary.search equal aKey (fun p _ => p) none

/-- `Dictionary>>at:put:`. -/
def at_put_ (dictionary : Dictionary Object) (aKey aValue : Object) :
    Option (Dictionary Object) := do
  if ← dictionary.containsKey_ equal aKey then
    let address ← (← dictionary.pairAt_ equal aKey)
    let pair ← dictionary.made[address]?
    return { dictionary with made := dictionary.made.set address { pair with value := aValue } }
  else
    let pairs ← dictionary.pairs.add_ none (some dictionary.made.length)
    return ⟨pairs, dictionary.made ++ [⟨aKey, aValue⟩]⟩

/-- `Dictionary>>do:`, for a block that leaves the dictionary alone. -/
def do_ {Answer State : Type} (dictionary : Dictionary Object)
    (block : PairReference → State → Statement Answer State) (state : State) :
    Statement Answer State :=
  dictionary.pairs.do_ block state

/-- A new dictionary after some pairs are stored. -/
def afterAll (stored : List (Object × Object)) : Option (Dictionary Object) := do
  stored.foldlM (fun dictionary pair => dictionary.at_put_ equal pair.1 pair.2) (← new)

end Dictionary

/-! ### The finite map -/

/-- The dictionary answers as the finite map of the stored pairs: for each key the value
stored last under an equal key, and one pair for each class of equal keys. -/
structure IsDictionaryOf (Keys : Object → Prop) (nil : Object) (dictionary : Dictionary Object)
    (stored : List (Object × Object)) : Prop where
  at_ : ∀ {key}, Keys key →
    dictionary.at_ equal nil key = some ((valueOf equal key stored.reverse).getD nil)
  containsKey_ : ∀ {key}, Keys key → ∃ answer, dictionary.containsKey_ equal key = some answer ∧
    (answer = true ↔ ∃ pair ∈ stored, equal key pair.1 = true)
  visits : ∃ (visited : List PairReference) (pairs : List (Pair Object)),
    (∀ {Answer State : Type} (block : PairReference → State → Statement Answer State)
        (state : State), dictionary.do_ block state =
      visited.foldlM (fun state p => block p state) state) ∧
    visited.map dictionary.pair? = pairs.map some ∧
    (pairs.Pairwise fun first second => equal first.key second.key = false) ∧
    (∀ pair ∈ pairs, pair.key ∈ stored.map Prod.fst ∧
      valueOf equal pair.key stored.reverse = some pair.value) ∧
    ∀ key ∈ stored.map Prod.fst, ∃ pair ∈ pairs, equal key pair.key = true

/-- The references to the first pairs made. -/
def references (count : Nat) : List PairReference := (List.range count).map some

/-- The dictionary has these entries, in the order in which their pairs were made. -/
structure Dictionary.Holds (dictionary : Dictionary Object) (entries : List (Object × Object)) :
    Prop where
  items : dictionary.pairs.items.Represents (references entries.length)
  made : dictionary.made = entries.map fun entry => ⟨entry.1, entry.2⟩

section

variable {equal} {Keys : Object → Prop} {dictionary : Dictionary Object}
  {entries : List (Object × Object)}

theorem Dictionary.Holds.pair? (holds : dictionary.Holds entries) (address : Nat) :
    dictionary.pair? (some address) =
      (entries[address]?).map fun entry => ⟨entry.1, entry.2⟩ := by
  rw [Dictionary.pair?, Option.bind_some, holds.made, List.getElem?_map]

/-- Whether the pair of a reference has a key equal to a key. -/
def Dictionary.hasKey (equal : Object → Object → Bool) (dictionary : Dictionary Object)
    (aKey : Object) (p : PairReference) : Bool :=
  (dictionary.pair? p).any fun pair => equal pair.key aKey

/-- A search answers for the first reference to a pair with an equal key. -/
theorem Dictionary.Holds.search (holds : dictionary.Holds entries) {Answer : Type} (aKey : Object)
    (answer : PairReference → Pair Object → Answer) (otherwise : Answer) :
    dictionary.search equal aKey answer otherwise =
      some ((((references entries.length).find? (dictionary.hasKey equal aKey)).bind
        fun p => (dictionary.pair? p).map (answer p)).getD otherwise) := by
  unfold Dictionary.search Set.do_
  rw [holds.items.do_]
  have isSearch : ∀ p ∈ references entries.length,
      (do
        let pair ← demand (dictionary.pair? p)
        if equal pair.key aKey then leave (answer p pair) else .ok () : Statement Answer Unit) =
      if dictionary.hasKey equal aKey p then
        leave (((dictionary.pair? p).map (answer p)).getD otherwise)
      else .ok () := by
    intro p member
    obtain ⟨address, inside, rfl⟩ := List.mem_map.mp member
    rw [hasKey, holds.pair?, List.getElem?_eq_getElem (List.mem_range.mp inside)]
    rfl
  refine (answering_search (dictionary.hasKey equal aKey)
    (fun p => ((dictionary.pair? p).map (answer p)).getD otherwise) otherwise
    isSearch).trans (congrArg some ?_)
  cases found : (references entries.length).find? (dictionary.hasKey equal aKey) with
  | none => rfl
  | some p =>
      have hasKey := List.find?_some found
      obtain ⟨pair, isPair⟩ : ∃ pair, dictionary.pair? p = some pair := by
        cases isPair : dictionary.pair? p with
        | none =>
            rw [Dictionary.hasKey, isPair] at hasKey
            exact absurd hasKey Bool.false_ne_true
        | some pair => exact ⟨pair, rfl⟩
      simp [isPair]

theorem Dictionary.Holds.hasKey (holds : dictionary.Holds entries) (aKey : Object) (address : Nat) :
    dictionary.hasKey equal aKey (some address) =
      (entries[address]?).any fun entry => equal entry.1 aKey := by
  rw [Dictionary.hasKey, holds.pair?, Option.any_map]

/-- What a search for a key finds: the reference of the first entry of the key, if there
is one. -/
theorem Dictionary.Holds.first (holds : dictionary.Holds entries)
    (equivalence : EquivalenceOn equal Keys) (inUse : KeysIn Keys entries) {aKey : Object}
    (isIn : Keys aKey) :
    (∃ position entry, IsFirst equal aKey entries position entry ∧
      (references entries.length).find? (dictionary.hasKey equal aKey) =
        some (some position)) ∨
    (isKey equal aKey entries = false ∧
      (references entries.length).find? (dictionary.hasKey equal aKey) = none) := by
  have comm : ∀ {position : Nat} {entry : Object × Object}, entries[position]? = some entry →
      equal entry.1 aKey = equal aKey entry.1 := fun there =>
    equivalence.comm (inUse _ (List.mem_of_getElem? there)) isIn
  rw [references, List.find?_map]
  cases found : (List.range entries.length).find? (dictionary.hasKey equal aKey ∘ some) with
  | none =>
      refine .inr ⟨Bool.eq_false_iff.mpr fun present => ?_, rfl⟩
      obtain ⟨entry, member, same⟩ := isKey_iff.mp present
      obtain ⟨position, inside, rfl⟩ := List.mem_iff_getElem.mp member
      have there := List.getElem?_eq_getElem inside
      have absent := List.find?_range_eq_none.mp found position inside
      rw [Function.comp_apply, holds.hasKey, there, Option.any_some, comm there, same] at absent
      exact Bool.false_ne_true absent
  | some position =>
      obtain ⟨has, member, earlier⟩ := List.find?_range_eq_some.mp found
      have there := List.getElem?_eq_getElem (List.mem_range.mp member)
      rw [Function.comp_apply, holds.hasKey, there, Option.any_some, comm there] at has
      refine .inl ⟨position, _, ⟨there, has, fun other less before isBefore => ?_⟩, rfl⟩
      have differs := earlier other less
      rw [Function.comp_apply, holds.hasKey, isBefore, Option.any_some, comm isBefore] at differs
      exact (Bool.not_eq_true' _).mp differs

theorem Dictionary.Holds.at_ (holds : dictionary.Holds entries)
    (equivalence : EquivalenceOn equal Keys) (inUse : KeysIn Keys entries) {aKey : Object}
    (isIn : Keys aKey) (nil : Object) :
    dictionary.at_ equal nil aKey = some ((valueOf equal aKey entries).getD nil) := by
  rw [Dictionary.at_, holds.search]
  obtain ⟨position, entry, isFirst, found⟩ | ⟨absent, found⟩ :=
    holds.first equivalence inUse isIn
  · rw [found, Option.bind_some, holds.pair?, isFirst.found, isFirst.valueOf]
    rfl
  · rw [found, valueOf_eq_none absent]
    rfl

theorem Dictionary.Holds.containsKey_ (holds : dictionary.Holds entries)
    (equivalence : EquivalenceOn equal Keys) (inUse : KeysIn Keys entries) {aKey : Object}
    (isIn : Keys aKey) :
    dictionary.containsKey_ equal aKey = some (isKey equal aKey entries) := by
  rw [Dictionary.containsKey_, holds.search]
  obtain ⟨position, entry, isFirst, found⟩ | ⟨absent, found⟩ :=
    holds.first equivalence inUse isIn
  · rw [found, Option.bind_some, holds.pair?, isFirst.found, isKey, isFirst.valueOf]
    rfl
  · rw [found, absent]
    rfl

/-- `at:put:` changes the pair of an equal key, or makes one more pair. -/
theorem Dictionary.Holds.at_put (holds : dictionary.Holds entries)
    (equivalence : EquivalenceOn equal Keys) (inUse : KeysIn Keys entries) {aKey : Object}
    (isIn : Keys aKey) (aValue : Object) :
    ∃ later, dictionary.at_put_ equal aKey aValue = some later ∧
      later.Holds (assign equal aKey aValue entries) := by
  unfold Dictionary.at_put_
  rw [holds.containsKey_ equivalence inUse isIn]
  obtain ⟨position, entry, isFirst, found⟩ | ⟨absent, found⟩ :=
    holds.first equivalence inUse isIn
  · have present : isKey equal aKey entries = true := by rw [isKey, isFirst.valueOf]; rfl
    have isPair : dictionary.pairAt_ equal aKey = some (some position) := by
      rw [pairAt_, holds.search, found, Option.bind_some, holds.pair?, isFirst.found]
      rfl
    have made : dictionary.made[position]? = some ⟨entry.1, entry.2⟩ := by
      rw [holds.made, List.getElem?_map, isFirst.found]
      rfl
    refine ⟨{ dictionary with made := dictionary.made.set position ⟨entry.1, aValue⟩ }, ?_, ?_, ?_⟩
    · simp only [Option.bind_eq_bind, Option.bind_some, present, if_true, isPair, made]
      rfl
    · rw [isFirst.assign, List.length_set]
      exact holds.items
    · rw [isFirst.assign, List.map_set, holds.made]
  · obtain ⟨pairs, added, stands⟩ :=
      Set.add_represents holds.items none (some dictionary.made.length)
    have length : dictionary.made.length = entries.length := by
      rw [holds.made, List.length_map]
    have new : some dictionary.made.length ∉ references entries.length := by
      intro member
      obtain ⟨address, inside, same⟩ := List.mem_map.mp member
      have below := List.mem_range.mp inside
      have atEnd := Option.some.inj same
      omega
    rw [if_neg new, length] at stands
    refine ⟨⟨pairs, dictionary.made ++ [⟨aKey, aValue⟩]⟩, ?_, ?_, ?_⟩
    · simp only [Option.bind_eq_bind, Option.bind_some, absent, Bool.false_eq_true, if_false, added]
      rfl
    · rw [assign_of_new absent, List.length_append, List.length_singleton, references,
        List.range_succ, List.map_append]
      exact stands
    · rw [assign_of_new absent, List.map_append, holds.made]
      rfl

/-! ### Runs -/

theorem Dictionary.new_holds : ∃ dictionary : Dictionary Object, new = some dictionary ∧
    dictionary.Holds [] := by
  obtain ⟨pairs, isNew, empty⟩ := Set.represents_new (none : PairReference)
  exact ⟨⟨pairs, []⟩, by rw [new, isNew]; rfl, empty, rfl⟩

theorem Dictionary.afterAll_holds (equivalence : EquivalenceOn equal Keys)
    {stored : List (Object × Object)} (inUse : KeysIn Keys stored) :
    ∃ dictionary, afterAll equal stored = some dictionary ∧
      dictionary.Holds (assignAll equal stored) := by
  induction stored using List.reverseRecOn with
  | nil =>
      obtain ⟨dictionary, isNew, holds⟩ : ∃ dictionary : Dictionary Object,
        new = some dictionary ∧ dictionary.Holds [] := new_holds
      exact ⟨dictionary, by rw [afterAll, isNew]; rfl, holds⟩
  | append_singleton stored pair inductionHypothesis =>
      have earlier : KeysIn Keys stored :=
        fun entry there => inUse entry (List.mem_append_left _ there)
      obtain ⟨dictionary, reached, holds⟩ := inductionHypothesis earlier
      obtain ⟨later, put, stands⟩ := holds.at_put equivalence (keysIn_assignAll earlier)
        (inUse pair (List.mem_append_right _ (List.mem_singleton_self _))) pair.2
      refine ⟨later, ?_, by rw [assignAll_append]; exact stands⟩
      unfold afterAll at reached ⊢
      simp only [List.foldlM_append, List.foldlM_cons, List.foldlM_nil]
      rw [← bind_assoc, reached]
      simpa using put

/-- The references made so far stand for the entries. -/
theorem Dictionary.Holds.map_pair? (holds : dictionary.Holds entries) :
    (references entries.length).map dictionary.pair? =
      (entries.map fun entry => (⟨entry.1, entry.2⟩ : Pair Object)).map some := by
  apply List.ext_getElem (by simp [references])
  intro address inside inside'
  have below : address < entries.length := by simpa [references] using inside
  simp only [references, List.getElem_map, List.getElem_range, holds.pair?,
    List.getElem?_eq_getElem below, Option.map_some]

theorem Dictionary.Holds.isDictionaryOf (equivalence : EquivalenceOn equal Keys)
    {stored : List (Object × Object)} (inUse : KeysIn Keys stored)
    (holds : dictionary.Holds (assignAll equal stored)) (nil : Object) :
    IsDictionaryOf equal Keys nil dictionary stored := by
  have inUse' : KeysIn Keys (assignAll equal stored) := keysIn_assignAll inUse
  have distinct : Distinct equal (assignAll equal stored) := distinct_assignAll equivalence inUse
  have lastStored : ∀ {key}, Keys key →
      valueOf equal key (assignAll equal stored) = valueOf equal key stored.reverse :=
    fun isIn => valueOf_assignAll equivalence isIn inUse
  constructor
  · intro key isIn
    rw [holds.at_ equivalence inUse' isIn, lastStored isIn]
  · intro key isIn
    refine ⟨_, holds.containsKey_ equivalence inUse' isIn, ?_⟩
    rw [isKey, lastStored isIn]
    have present : (valueOf equal key stored.reverse).isSome = true ↔
        ∃ pair ∈ stored.reverse, equal key pair.1 = true := isKey_iff
    simpa only [List.mem_reverse] using present
  · refine ⟨_, _, holds.items.do_, holds.map_pair?, ?_, ?_, ?_⟩
    · rw [List.pairwise_map]
      exact distinct
    · intro pair member
      obtain ⟨entry, assigned, rfl⟩ := List.mem_map.mp member
      have isIn := inUse' entry assigned
      refine ⟨keys_assignAll stored _ (List.mem_map.mpr ⟨entry, assigned, rfl⟩), ?_⟩
      rw [← lastStored isIn]
      exact (valueOf_eq_some_iff equivalence isIn inUse' distinct).mpr
        ⟨entry, assigned, equivalence.refl isIn, rfl⟩
    · intro key there
      obtain ⟨entry, assigned, same⟩ := exists_entry_assignAll equivalence inUse there
      exact ⟨⟨entry.1, entry.2⟩, List.mem_map.mpr ⟨entry, assigned, rfl⟩, same⟩

end

/-- After any pairs are stored a dictionary is the finite map of them. -/
theorem dictionary_is_finite_map {Keys : Object → Prop} (equivalence : EquivalenceOn equal Keys)
    (nil : Object) {stored : List (Object × Object)} (inUse : KeysIn Keys stored) :
    ∃ dictionary, Dictionary.afterAll equal stored = some dictionary ∧
      IsDictionaryOf equal Keys nil dictionary stored := by
  obtain ⟨dictionary, reached, holds⟩ := Dictionary.afterAll_holds equivalence inUse
  exact ⟨dictionary, reached, holds.isDictionaryOf equivalence inUse nil⟩

/-- The second value of 1 is the one it has. -/
theorem dictionary_of_numbers :
    ∃ dictionary, Dictionary.afterAll (fun a b => a == b) [(1, 5), (2, 6), (1, 7)] =
        some dictionary ∧
      IsDictionaryOf (fun a b : Nat => a == b) (fun _ => True) 0 dictionary
        [(1, 5), (2, 6), (1, 7)] :=
  dictionary_is_finite_map _ equivalenceOn_beq 0 fun _ _ => trivial

end Somr.Library
