import Mathlib.Data.List.Basic
import Mathlib.Data.List.Induction
import Mathlib.Data.List.Perm.Basic

/-!
Owns lists of entries kept under an equality of keys that a program decides:
assigning a value to a key, reading the value of a key, and what is preserved.

The equality need not be lawful; it is an equivalence on the keys in use.
-/

namespace Somr.Foundation

variable {Key Value : Type} (equal : Key → Key → Bool)

/-- An equality that is an equivalence relation on the keys in use. -/
structure EquivalenceOn (Keys : Key → Prop) : Prop where
  refl : ∀ {a}, Keys a → equal a a = true
  symm : ∀ {a b}, Keys a → Keys b → equal a b = true → equal b a = true
  trans : ∀ {a b c}, Keys a → Keys b → Keys c → equal a b = true → equal b c = true →
    equal a c = true

/-- The value of the first entry whose key is equal to `key`. -/
def valueOf (key : Key) : List (Key × Value) → Option Value
  | [] => none
  | entry :: entries => if equal key entry.1 then some entry.2 else valueOf key entries

/-- Give `key` a value: in the entry it has, or in a new one at the end. -/
def assign (key : Key) (value : Value) : List (Key × Value) → List (Key × Value)
  | [] => [(key, value)]
  | entry :: entries =>
      if equal key entry.1 then (entry.1, value) :: entries
      else entry :: assign key value entries

/-- Do some entries have a key equal to `key`? -/
def isKey (key : Key) (entries : List (Key × Value)) : Bool := (valueOf equal key entries).isSome

/-- No two keys are equal. -/
def Distinct (entries : List (Key × Value)) : Prop :=
  entries.Pairwise fun first second => equal first.1 second.1 = false

/-- All keys are in use. -/
def KeysIn (Keys : Key → Prop) (entries : List (Key × Value)) : Prop :=
  ∀ entry ∈ entries, Keys entry.1

variable {equal} {Keys : Key → Prop} {key other : Key} {value : Value}
  {entries : List (Key × Value)}

theorem EquivalenceOn.congr (equivalence : EquivalenceOn equal Keys) {a b c : Key} (isA : Keys a)
    (isB : Keys b) (isC : Keys c) (same : equal a b = true) : equal a c = equal b c := by
  rw [Bool.eq_iff_iff]
  exact ⟨equivalence.trans isB isA isC (equivalence.symm isA isB same),
    equivalence.trans isA isB isC same⟩

theorem EquivalenceOn.comm (equivalence : EquivalenceOn equal Keys) {a b : Key} (isA : Keys a)
    (isB : Keys b) : equal a b = equal b a := by
  rw [Bool.eq_iff_iff]
  exact ⟨equivalence.symm isA isB, equivalence.symm isB isA⟩

theorem isKey_iff : isKey equal key entries = true ↔ ∃ entry ∈ entries, equal key entry.1 = true := by
  unfold isKey
  induction entries with
  | nil => simp [valueOf]
  | cons entry entries hypothesis =>
      by_cases same : equal key entry.1 = true <;> simp [valueOf, same, hypothesis]

theorem valueOf_eq_none (absent : isKey equal key entries = false) :
    valueOf equal key entries = none := by
  simpa [isKey] using absent

theorem KeysIn.tail {entry : Key × Value} (inUse : KeysIn Keys (entry :: entries)) :
    KeysIn Keys entries :=
  fun other there => inUse other (List.mem_cons_of_mem entry there)

/-- In distinct entries a key has the value of any entry equal to it. -/
theorem valueOf_eq_some_iff (equivalence : EquivalenceOn equal Keys) (isIn : Keys key)
    (inUse : KeysIn Keys entries) (distinct : Distinct equal entries) :
    valueOf equal key entries = some value ↔
      ∃ entry ∈ entries, equal key entry.1 = true ∧ entry.2 = value := by
  induction entries with
  | nil => simp [valueOf]
  | cons entry entries hypothesis =>
      obtain ⟨apart, distinct⟩ := List.pairwise_cons.mp distinct
      have first := inUse entry (by simp)
      by_cases same : equal key entry.1 = true
      · simp only [valueOf, same, if_true, Option.some.injEq, List.mem_cons, exists_eq_or_imp,
          true_and]
        refine ⟨Or.inl, fun holds => holds.resolve_right ?_⟩
        rintro ⟨later, there, alsoSame, _⟩
        have second := inUse.tail later there
        have clash := equivalence.trans first isIn second (equivalence.symm isIn first same) alsoSame
        rw [apart later there] at clash
        exact Bool.noConfusion clash
      · simp [valueOf, same, hypothesis inUse.tail distinct]

/-! ### Assigning -/

theorem assign_of_new (absent : isKey equal key entries = false) :
    assign equal key value entries = entries ++ [(key, value)] := by
  induction entries with
  | nil => rfl
  | cons entry entries hypothesis =>
      by_cases same : equal key entry.1 = true
      · simp [isKey, valueOf, same] at absent
      · simp only [isKey, valueOf, same] at absent
        simp [assign, same, hypothesis absent]

/-- Assigning to a key of distinct entries updates the one entry equal to it. -/
theorem assign_of_key (equivalence : EquivalenceOn equal Keys) (isIn : Keys key)
    (inUse : KeysIn Keys entries) (distinct : Distinct equal entries)
    (present : isKey equal key entries = true) :
    assign equal key value entries =
      entries.map fun entry => if equal key entry.1 then (entry.1, value) else entry := by
  induction entries with
  | nil => simp [isKey, valueOf] at present
  | cons entry entries hypothesis =>
      obtain ⟨apart, distinct⟩ := List.pairwise_cons.mp distinct
      have first := inUse entry (by simp)
      by_cases same : equal key entry.1 = true
      · have unchanged : entries.map (fun entry => if equal key entry.1 then (entry.1, value)
            else entry) = entries := by
          conv_rhs => rw [← List.map_id entries]
          apply List.map_congr_left
          intro later there
          have second := inUse.tail later there
          rw [equivalence.congr isIn first second same, apart later there]
          rfl
        simp [assign, same, unchanged]
      · have present' : isKey equal key entries = true := by
          simpa [isKey, valueOf, same] using present
        simp [assign, same, hypothesis inUse.tail distinct present']

theorem keys_assign (entries : List (Key × Value)) :
    (assign equal key value entries).map Prod.fst =
      if isKey equal key entries then entries.map Prod.fst else entries.map Prod.fst ++ [key] := by
  induction entries with
  | nil => rfl
  | cons entry entries hypothesis =>
      by_cases same : equal key entry.1 = true
      · simp [assign, isKey, valueOf, same]
      · have tails : isKey equal key (entry :: entries) = isKey equal key entries := by
          simp [isKey, valueOf, same]
        rw [tails]
        simp only [assign, same, Bool.false_eq_true, if_false, List.map_cons, hypothesis]
        split <;> rfl

theorem length_assign (entries : List (Key × Value)) :
    (assign equal key value entries).length =
      entries.length + if isKey equal key entries then 0 else 1 := by
  have keys := congrArg List.length
    (keys_assign entries : (assign equal key value entries).map Prod.fst = _)
  rw [List.length_map] at keys
  rw [keys]
  split <;> simp

theorem keysIn_iff : KeysIn Keys entries ↔ ∀ key ∈ entries.map Prod.fst, Keys key := by
  simp [KeysIn]

theorem KeysIn.assign (inUse : KeysIn Keys entries) (isIn : Keys key) :
    KeysIn Keys (assign equal key value entries) := by
  rw [keysIn_iff] at inUse ⊢
  rw [keys_assign]
  split
  · exact inUse
  · intro other there
    rcases List.mem_append.mp there with there | there
    · exact inUse other there
    · rwa [List.mem_singleton.mp there]

theorem distinct_iff : Distinct equal entries ↔
    (entries.map Prod.fst).Pairwise fun first second => equal first second = false := by
  unfold Distinct
  rw [List.pairwise_map]

theorem Distinct.assign (equivalence : EquivalenceOn equal Keys) (isIn : Keys key)
    (inUse : KeysIn Keys entries) (distinct : Distinct equal entries) :
    Distinct equal (assign equal key value entries) := by
  rw [distinct_iff] at distinct ⊢
  rw [keys_assign]
  split
  · exact distinct
  · next absent =>
      refine List.pairwise_append.mpr ⟨distinct, List.pairwise_singleton _ _, ?_⟩
      intro first there second last
      obtain ⟨entry, listed, rfl⟩ := List.mem_map.mp there
      rw [List.mem_singleton.mp last, equivalence.comm (inUse entry listed) isIn]
      by_contra same
      exact absent (isKey_iff.mpr ⟨entry, listed, by simpa using same⟩)

theorem valueOf_assign (equivalence : EquivalenceOn equal Keys) (isIn : Keys key)
    (otherIn : Keys other) (inUse : KeysIn Keys entries) :
    valueOf equal other (assign equal key value entries) =
      if equal other key then some value else valueOf equal other entries := by
  induction entries with
  | nil => simp [assign, valueOf]
  | cons entry entries hypothesis =>
      have first := inUse entry (by simp)
      by_cases same : equal key entry.1 = true
      · have swap : equal other entry.1 = equal other key := by
          rw [equivalence.comm otherIn first, equivalence.comm otherIn isIn,
            equivalence.congr isIn first otherIn same]
        simp only [assign, same, if_true, valueOf, swap]
        split <;> rfl
      · simp only [assign, same, Bool.false_eq_true, if_false, valueOf, hypothesis inUse.tail]
        by_cases both : equal other key = true
        · have noEntry : equal other entry.1 = false := by
            rw [equivalence.congr otherIn isIn first both]
            simpa using same
          simp [both, noEntry]
        · simp [both]

theorem mem_assign {entry : Key × Value} (there : entry ∈ assign equal key value entries) :
    entry ∈ entries ∨ entry.2 = value := by
  induction entries with
  | nil => exact Or.inr (List.mem_singleton.mp there ▸ rfl)
  | cons first entries hypothesis =>
      by_cases same : equal key first.1 = true
      · simp only [assign, same, if_true] at there
        rcases List.mem_cons.mp there with rfl | there
        · exact Or.inr rfl
        · exact Or.inl (List.mem_cons_of_mem _ there)
      · simp only [assign, same, Bool.false_eq_true, if_false] at there
        rcases List.mem_cons.mp there with rfl | there
        · exact Or.inl List.mem_cons_self
        · exact (hypothesis there).imp_left (List.mem_cons_of_mem _)

/-- A value that a key has already is assigned for nothing. -/
theorem assign_of_valueOf (found : valueOf equal key entries = some value) :
    assign equal key value entries = entries := by
  induction entries with
  | nil => simp [valueOf] at found
  | cons entry entries hypothesis =>
      by_cases same : equal key entry.1 = true
      · simp only [valueOf, same, if_true, Option.some.injEq] at found
        simp [assign, same, ← found]
      · simp only [valueOf, same, Bool.false_eq_true, if_false] at found
        simp [assign, same, hypothesis found]

/-! ### The first entry of a key -/

/-- The entry at this position has a key equal to the key, and no entry before it has. -/
structure IsFirst (equal : Key → Key → Bool) (key : Key) (entries : List (Key × Value))
    (position : Nat) (entry : Key × Value) : Prop where
  found : entries[position]? = some entry
  same : equal key entry.1 = true
  earlier : ∀ other < position, ∀ before, entries[other]? = some before →
    equal key before.1 = false

theorem IsFirst.tail {first entry : Key × Value} {position : Nat}
    (isFirst : IsFirst equal key (first :: entries) (position + 1) entry) :
    equal key first.1 = false ∧ IsFirst equal key entries position entry where
  left := isFirst.earlier 0 (Nat.succ_pos _) first rfl
  right := ⟨isFirst.found, isFirst.same, fun other less before there =>
    isFirst.earlier (other + 1) (Nat.succ_lt_succ less) before there⟩

theorem IsFirst.valueOf {position : Nat} {entry : Key × Value}
    (isFirst : IsFirst equal key entries position entry) :
    valueOf equal key entries = some entry.2 := by
  induction entries generalizing position with
  | nil => exact absurd isFirst.found (by simp)
  | cons first entries inductionHypothesis =>
      cases position with
      | zero =>
          obtain rfl := Option.some.inj isFirst.found
          rw [Foundation.valueOf, if_pos isFirst.same]
      | succ position =>
          obtain ⟨differs, isFirst'⟩ := isFirst.tail
          rw [Foundation.valueOf, if_neg (by simp [differs]), inductionHypothesis isFirst']

theorem IsFirst.assign {position : Nat} {entry : Key × Value}
    (isFirst : IsFirst equal key entries position entry) (value : Value) :
    assign equal key value entries = entries.set position (entry.1, value) := by
  induction entries generalizing position with
  | nil => exact absurd isFirst.found (by simp)
  | cons first entries inductionHypothesis =>
      cases position with
      | zero =>
          obtain rfl := Option.some.inj isFirst.found
          rw [Foundation.assign, if_pos isFirst.same, List.set_cons_zero]
      | succ position =>
          obtain ⟨differs, isFirst'⟩ := isFirst.tail
          rw [Foundation.assign, if_neg (by simp [differs]), inductionHypothesis isFirst',
            List.set_cons_succ]

/-! ### Lawful keys -/

section Lawful

variable [BEq Key] [LawfulBEq Key]

theorem equivalenceOn_beq : EquivalenceOn (fun a b : Key => a == b) fun _ => True :=
  ⟨fun _ => beq_self_eq_true _, fun _ _ same => BEq.symm same,
    fun _ _ _ first second => PartialEquivBEq.trans first second⟩

theorem valueOf_beq_assign (key other : Key) (value : Value) (entries : List (Key × Value)) :
    valueOf (fun a b => a == b) other (assign (fun a b => a == b) key value entries) =
      if other == key then some value else valueOf (fun a b => a == b) other entries :=
  valueOf_assign equivalenceOn_beq trivial trivial fun _ _ => trivial

theorem valueOf_beq_mem {key : Key} {value : Value} {entries : List (Key × Value)}
    (found : valueOf (fun a b => a == b) key entries = some value) : (key, value) ∈ entries := by
  induction entries with
  | nil => simp [valueOf] at found
  | cons entry entries hypothesis =>
      by_cases same : (key == entry.1) = true
      · simp only [valueOf, same, if_true, Option.some.injEq] at found
        rw [eq_of_beq same, ← found]
        exact List.mem_cons_self
      · simp only [valueOf, same, Bool.false_eq_true, if_false] at found
        exact List.mem_cons_of_mem entry (hypothesis found)

theorem valueOf_beq_isSome {key : Key} {entries : List (Key × Value)} :
    (valueOf (fun a b => a == b) key entries).isSome = true ↔ key ∈ entries.map Prod.fst := by
  have present : (valueOf (fun a b => a == b) key entries).isSome = true ↔
      ∃ entry ∈ entries, (key == entry.1) = true := isKey_iff
  rw [present, List.mem_map]
  exact exists_congr fun entry => and_congr_right fun _ =>
    ⟨fun same => (eq_of_beq same).symm, fun same => same ▸ beq_self_eq_true _⟩

theorem assign_beq_assign (key : Key) (first value : Value) (entries : List (Key × Value)) :
    assign (fun a b => a == b) key value (assign (fun a b => a == b) key first entries) =
      assign (fun a b => a == b) key value entries := by
  induction entries with
  | nil => simp [assign]
  | cons entry entries hypothesis =>
      by_cases same : (key == entry.1) = true
      · simp [assign, same]
      · simp [assign, same, hypothesis]

/-- Keeping entries by their keys keeps the values of the keys that are kept. -/
theorem valueOf_beq_filter (keep : Key → Bool) (key : Key) (entries : List (Key × Value)) :
    valueOf (fun a b => a == b) key (entries.filter fun entry => keep entry.1) =
      if keep key then valueOf (fun a b => a == b) key entries else none := by
  induction entries with
  | nil => simp [valueOf]
  | cons entry entries hypothesis =>
      by_cases same : (key == entry.1) = true
      · rw [eq_of_beq same] at hypothesis ⊢
        by_cases kept : keep entry.1 = true <;> simp_all [valueOf]
      · by_cases kept : keep entry.1 = true <;> simp_all [valueOf]

end Lawful

/-! ### Names of keys -/

section Names

variable {Name : Type} [BEq Name] {name : Key → Name}

/-- Where keys are compared by their names, a key is looked up by its name. -/
theorem valueOf_map
    (byName : ∀ entry ∈ entries, equal key entry.1 = (name key == name entry.1)) :
    valueOf (fun a b => a == b) (name key)
        (entries.map fun entry => (name entry.1, entry.2)) = valueOf equal key entries := by
  induction entries with
  | nil => rfl
  | cons entry entries hypothesis =>
      rw [List.map_cons, valueOf, valueOf, byName entry List.mem_cons_self,
        hypothesis fun other there => byName other (List.mem_cons_of_mem entry there)]

theorem map_assign
    (byName : ∀ entry ∈ entries, equal key entry.1 = (name key == name entry.1)) :
    (assign equal key value entries).map (fun entry => (name entry.1, entry.2)) =
      assign (fun a b => a == b) (name key) value
        (entries.map fun entry => (name entry.1, entry.2)) := by
  induction entries with
  | nil => rfl
  | cons entry entries hypothesis =>
      have tail := hypothesis fun other there => byName other (List.mem_cons_of_mem entry there)
      rw [List.map_cons, assign, assign, byName entry List.mem_cons_self]
      by_cases same : (name key == name entry.1) = true
      · rw [if_pos same, if_pos same]
        rfl
      · rw [if_neg same, if_neg same, List.map_cons, tail]

end Names

/-! ### Assigning a list of pairs -/

/-- The entries after assigning the pairs in order. -/
def assignAll (equal : Key → Key → Bool) (pairs : List (Key × Value)) : List (Key × Value) :=
  pairs.foldl (fun entries pair => assign equal pair.1 pair.2 entries) []

theorem assignAll_append (pairs : List (Key × Value)) (pair : Key × Value) :
    assignAll equal (pairs ++ [pair]) = assign equal pair.1 pair.2 (assignAll equal pairs) := by
  simp [assignAll]

theorem keysIn_assignAll {pairs : List (Key × Value)} (inUse : KeysIn Keys pairs) :
    KeysIn Keys (assignAll equal pairs) := by
  induction pairs using List.reverseRecOn with
  | nil => exact inUse
  | append_singleton pairs pair hypothesis =>
      rw [assignAll_append]
      exact (hypothesis fun entry there => inUse entry (List.mem_append_left _ there)).assign
        (inUse pair (by simp))

/-- A key has the value of the last pair whose key is equal to it. -/
theorem valueOf_assignAll (equivalence : EquivalenceOn equal Keys) (otherIn : Keys other)
    {pairs : List (Key × Value)} (inUse : KeysIn Keys pairs) :
    valueOf equal other (assignAll equal pairs) = valueOf equal other pairs.reverse := by
  induction pairs using List.reverseRecOn with
  | nil => rfl
  | append_singleton pairs pair hypothesis =>
      have earlier : KeysIn Keys pairs :=
        fun entry there => inUse entry (List.mem_append_left _ there)
      rw [assignAll_append, valueOf_assign equivalence (inUse pair (by simp)) otherIn
        (keysIn_assignAll earlier), hypothesis earlier, List.reverse_append]
      rfl

theorem distinct_assignAll (equivalence : EquivalenceOn equal Keys) {pairs : List (Key × Value)}
    (inUse : KeysIn Keys pairs) : Distinct equal (assignAll equal pairs) := by
  induction pairs using List.reverseRecOn with
  | nil => exact List.Pairwise.nil
  | append_singleton pairs pair hypothesis =>
      have earlier : KeysIn Keys pairs :=
        fun entry there => inUse entry (List.mem_append_left _ there)
      rw [assignAll_append]
      exact (hypothesis earlier).assign equivalence (inUse pair (by simp))
        (keysIn_assignAll earlier)

/-- One key of each class of equal keys, and how many there are. -/
def CountsClasses (equal : Key → Key → Bool) (keys : List Key) (count : Nat) : Prop :=
  ∃ representatives : List Key, (∀ key ∈ representatives, key ∈ keys) ∧
    representatives.Pairwise (fun first second => equal first second = false) ∧
    (∀ key ∈ keys, ∃ representative ∈ representatives, equal key representative = true) ∧
    representatives.length = count

theorem keys_assignAll (pairs : List (Key × Value)) :
    ∀ key ∈ (assignAll equal pairs).map Prod.fst, key ∈ pairs.map Prod.fst := by
  induction pairs using List.reverseRecOn with
  | nil => exact fun _ there => there
  | append_singleton pairs pair hypothesis =>
      intro key there
      rw [assignAll_append, keys_assign] at there
      rw [List.map_append, List.mem_append]
      split at there
      · exact Or.inl (hypothesis key there)
      · exact (List.mem_append.mp there).imp (hypothesis key) fun last => by simpa using last

/-- Every key assigned is equal to that of an entry. -/
theorem exists_entry_assignAll (equivalence : EquivalenceOn equal Keys)
    {pairs : List (Key × Value)} (inUse : KeysIn Keys pairs) {key : Key}
    (there : key ∈ pairs.map Prod.fst) :
    ∃ entry ∈ assignAll equal pairs, equal key entry.1 = true := by
  obtain ⟨pair, listed, rfl⟩ := List.mem_map.mp there
  have isIn := inUse pair listed
  have stored : isKey equal pair.1 pairs.reverse = true :=
    isKey_iff.mpr ⟨pair, List.mem_reverse.mpr listed, equivalence.refl isIn⟩
  rw [isKey, ← valueOf_assignAll equivalence isIn inUse] at stored
  exact isKey_iff.mp stored

theorem countsClasses_assignAll (equivalence : EquivalenceOn equal Keys)
    {pairs : List (Key × Value)} (inUse : KeysIn Keys pairs)
    (distinct : Distinct equal (assignAll equal pairs)) :
    CountsClasses equal (pairs.map Prod.fst) (assignAll equal pairs).length := by
  refine ⟨(assignAll equal pairs).map Prod.fst, keys_assignAll pairs, distinct_iff.mp distinct, ?_,
    List.length_map _⟩
  intro key there
  obtain ⟨entry, assigned, same⟩ := exists_entry_assignAll equivalence inUse there
  exact ⟨entry.1, List.mem_map.mpr ⟨entry, assigned, rfl⟩, same⟩

/-! ### Entries in another order -/

theorem isKey_perm {others : List (Key × Value)} (perm : entries.Perm others) :
    isKey equal key entries = isKey equal key others := by
  rw [Bool.eq_iff_iff, isKey_iff, isKey_iff]
  simp only [perm.mem_iff]

theorem Distinct.perm (equivalence : EquivalenceOn equal Keys) (inUse : KeysIn Keys entries)
    (distinct : Distinct equal entries) {others : List (Key × Value)}
    (perm : entries.Perm others) : Distinct equal others := by
  let Apart (first second : Key × Value) : Prop :=
    (Keys first.1 ∧ Keys second.1) ∧ equal first.1 second.1 = false
  have symmetric : ∀ {first second}, Apart first second → Apart second first := by
    rintro first second ⟨⟨firstIn, secondIn⟩, apart⟩
    exact ⟨⟨secondIn, firstIn⟩, by rw [equivalence.comm secondIn firstIn, apart]⟩
  have pairwise : entries.Pairwise Apart := List.Pairwise.imp_of_mem
    (fun first second apart => ⟨⟨inUse _ first, inUse _ second⟩, apart⟩) distinct
  exact ((perm.pairwise_iff symmetric).mp pairwise).imp And.right

theorem assign_perm (equivalence : EquivalenceOn equal Keys) (isIn : Keys key)
    (inUse : KeysIn Keys entries) (distinct : Distinct equal entries)
    {others : List (Key × Value)} (perm : entries.Perm others) :
    (assign equal key value entries).Perm (assign equal key value others) := by
  have inUse' : KeysIn Keys others := fun entry there => inUse entry (perm.mem_iff.mpr there)
  by_cases present : isKey equal key entries = true
  · rw [assign_of_key equivalence isIn inUse distinct present,
      assign_of_key equivalence isIn inUse' (distinct.perm equivalence inUse perm)
        ((isKey_perm perm).symm.trans present)]
    exact perm.map _
  · have absent : isKey equal key entries = false := by simpa using present
    rw [assign_of_new absent, assign_of_new ((isKey_perm perm).symm.trans absent)]
    exact perm.append_right _

theorem valueOf_perm (equivalence : EquivalenceOn equal Keys) (isIn : Keys key)
    (inUse : KeysIn Keys entries) (distinct : Distinct equal entries)
    {others : List (Key × Value)} (perm : entries.Perm others) :
    valueOf equal key entries = valueOf equal key others := by
  have inUse' : KeysIn Keys others := fun entry there => inUse entry (perm.mem_iff.mpr there)
  apply Option.ext
  intro value
  rw [valueOf_eq_some_iff equivalence isIn inUse distinct,
    valueOf_eq_some_iff equivalence isIn inUse' (distinct.perm equivalence inUse perm)]
  simp only [perm.mem_iff]

/-! ### Parts of the entries -/

theorem valueOf_append (before behind : List (Key × Value)) :
    valueOf equal key (before ++ behind) =
      if isKey equal key before then valueOf equal key before else valueOf equal key behind := by
  induction before with
  | nil => rfl
  | cons entry before hypothesis =>
      by_cases same : equal key entry.1 = true
      · simp [valueOf, isKey, same]
      · simp only [isKey, List.cons_append, valueOf, same, Bool.false_eq_true, if_false]
          at hypothesis ⊢
        exact hypothesis

theorem assign_append (before behind : List (Key × Value)) :
    assign equal key value (before ++ behind) =
      if isKey equal key before then assign equal key value before ++ behind
      else before ++ assign equal key value behind := by
  induction before with
  | nil => rfl
  | cons entry before hypothesis =>
      by_cases same : equal key entry.1 = true
      · simp [assign, valueOf, isKey, same]
      · simp only [isKey, List.cons_append, assign, valueOf, same, Bool.false_eq_true, if_false]
          at hypothesis ⊢
        rw [hypothesis]
        by_cases present : (valueOf equal key before).isSome = true <;> simp [present]

/-- A part of the entries that holds all entries of a key can be assigned to alone. -/
theorem assign_middle {before behind : List (Key × Value)} (middle : List (Key × Value))
    (absentBefore : isKey equal key before = false)
    (absentBehind : isKey equal key behind = false) :
    (before ++ assign equal key value middle ++ behind).Perm
      (assign equal key value (before ++ middle ++ behind)) := by
  rw [List.append_assoc, List.append_assoc, assign_append, absentBefore, if_neg Bool.false_ne_true,
    assign_append]
  refine List.Perm.append_left before ?_
  by_cases present : isKey equal key middle = true
  · rw [if_pos present]
  · have absent : isKey equal key middle = false := by simpa using present
    rw [if_neg present, assign_of_new absent, assign_of_new absentBehind, List.append_assoc]
    exact List.Perm.append_left middle List.perm_append_comm

/-- The value of a key in the part that holds all its entries. -/
theorem valueOf_middle {before behind : List (Key × Value)} (middle : List (Key × Value))
    (absentBefore : isKey equal key before = false)
    (absentBehind : isKey equal key behind = false) :
    valueOf equal key (before ++ middle ++ behind) = valueOf equal key middle := by
  rw [List.append_assoc, valueOf_append, absentBefore, if_neg Bool.false_ne_true, valueOf_append]
  by_cases present : isKey equal key middle = true
  · rw [if_pos present]
  · have absent : isKey equal key middle = false := by simpa using present
    rw [if_neg present, valueOf_eq_none absent, valueOf_eq_none absentBehind]

/-! ### Association lists -/

theorem mem_of_lookup [BEq Key] [LawfulBEq Key] {table : List (Key × Value)} {key : Key}
    {value : Value} (found : table.lookup key = some value) : (key, value) ∈ table := by
  obtain ⟨before, behind, split, _⟩ := List.lookup_eq_some_iff.mp found
  simp [split]

end Somr.Foundation
