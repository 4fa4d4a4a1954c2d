import Somr.Foundation.KeyedEntries
import Somr.Library.Hashtable
import Somr.Primitives.IntegerArithmetic

/-!
Owns the finite map behind `Hashtable`: which entries a table stands for, that
every method keeps to them, and what a table answers after any sequence of
`at:put:` and `clear`.

The entries of a table are those of its chains. A chain holds the keys of one
bucket, so that reading and writing a key concern one chain only.
-/

namespace Somr.Library

open Somr.Foundation Somr.Primitives

variable {Object : Type} {messages : Messages Object} {Float64 : Type}
  (arithmetic : DoubleArithmetic Float64)

/-! ### Bucket indexes -/

theorem integerSend_exact (op : IntegerOperator) (left right : Int32)
    (divisor : op.divides = true → right.toInt ≠ 0)
    (fits : Fits32 (op.exact left.toInt right.toInt)) :
    ∃ result, integerSend arithmetic op.selector left right = some result ∧
      result.toInt = op.exact left.toInt right.toInt := by
  obtain ⟨number, pushed, value, canonical⟩ :=
    (op.pushesExactly_integer divisor fits.fits64 :
      PushesExactly (.ofWord Integer.pushResult (op.word? left.toInt64 right.toInt64) :
        Completion Float64) _)
  have isInteger := canonical.mpr fits
  cases number with
  | integer result =>
      refine ⟨result, ?_, Option.some.inj value⟩
      rw [integerSend, op.send_integer, pushed]
  | bigInteger result => exact Bool.noConfusion isInteger
  | double result => exact Bool.noConfusion isInteger

theorem integerLess_eq (left right : Int32) :
    integerLess arithmetic left right = some (decide (left.toInt < right.toInt)) := rfl

theorem plus_exact (left right : Int32) (fits : Fits32 (left.toInt + right.toInt)) :
    ∃ result, integerSend arithmetic "+" left right = some result ∧
      result.toInt = left.toInt + right.toInt :=
  integerSend_exact arithmetic .plus left right nofun fits

theorem minus_exact (left right : Int32) (fits : Fits32 (left.toInt - right.toInt)) :
    ∃ result, integerSend arithmetic "-" left right = some result ∧
      result.toInt = left.toInt - right.toInt :=
  integerSend_exact arithmetic .minus left right nofun fits

theorem percent_exact (left right : Int32) (divisor : right.toInt ≠ 0)
    (fits : Fits32 (left.toInt.tmod right.toInt)) :
    ∃ result, integerSend arithmetic "%" left right = some result ∧
      result.toInt = left.toInt.tmod right.toInt :=
  integerSend_exact arithmetic .percent left right (fun _ => divisor) fits

theorem abs_exact (self : Int32) (small : Fits32 (-self.toInt)) :
    ∃ result, abs arithmetic self = some result ∧ result.toInt = self.toInt.natAbs := by
  have zero : (0 : Int32).toInt = 0 := rfl
  unfold abs
  rw [integerLess_eq, zero]
  by_cases negative : self.toInt < 0
  · obtain ⟨result, sent, same⟩ := minus_exact arithmetic 0 self (by rwa [zero, Int.zero_sub])
    refine ⟨result, ?_, by omega⟩
    simpa [negative] using sent
  · exact ⟨self, by simp [negative], by omega⟩

/-- The bucket of a hash code in a table of length 11. -/
def bucket (hashcode : Int32) : Nat := (hashcode.toInt.tmod 11).natAbs

theorem bucket_lt (hashcode : Int32) : bucket hashcode < 11 := by
  have absolute : (hashcode.toInt.tmod 11).natAbs = hashcode.toInt.natAbs % 11 :=
    Int.natAbs_tmod hashcode.toInt 11
  unfold bucket
  omega

/-- The remainder may be negative; its absolute value is a bucket. -/
theorem indexForHash_eq (hashcode : Int32) :
    indexForHash arithmetic hashcode 11 = some (bucket hashcode + 1) := by
  have eleven : (11 : Int32).toInt = 11 := rfl
  have one : (1 : Int32).toInt = 1 := rfl
  have less := bucket_lt hashcode
  unfold bucket at less
  obtain ⟨remainder, divided, sameRemainder⟩ :=
    percent_exact arithmetic hashcode 11 (by decide) (by rw [eleven]; exact ⟨by omega, by omega⟩)
  rw [eleven] at sameRemainder
  obtain ⟨positive, absolute, samePositive⟩ :=
    abs_exact arithmetic remainder (by rw [sameRemainder]; exact ⟨by omega, by omega⟩)
  rw [sameRemainder] at samePositive
  obtain ⟨index, added, sameIndex⟩ :=
    plus_exact arithmetic positive 1 (by rw [one, samePositive]; exact ⟨by omega, by omega⟩)
  rw [one, samePositive] at sameIndex
  simp only [indexForHash, divided, absolute, added, Option.bind_eq_bind, Option.bind_some,
    sameIndex]
  rfl

/-! ### Chains -/

namespace HashEntry

/-- The keys and values of a chain. -/
def entries : HashEntry Object → List (Object × Object)
  | .last key value _ => [(key, value)]
  | .link key value _ next => (key, value) :: entries next

theorem setKey_entries (messages : Messages Object) (key value : Object) (entry : HashEntry Object) :
    (entry.setKey_value_ messages key value).1.entries =
        assign messages.equal key value entry.entries ∧
      (entry.setKey_value_ messages key value).2 =
        !isKey messages.equal key entry.entries := by
  induction entry with
  | last ownKey ownValue hash =>
      by_cases same : messages.equal key ownKey = true <;>
        simp [setKey_value_, entries, assign, isKey, valueOf, newKey, same]
  | link ownKey ownValue hash next hypothesis =>
      by_cases same : messages.equal key ownKey = true
      · simp [setKey_value_, entries, assign, isKey, valueOf, same]
      · simpa [setKey_value_, entries, assign, isKey, valueOf, same] using hypothesis

theorem getValue_eq (key : Object) (entry : HashEntry Object) :
    entry.getValue_ messages key =
      (valueOf messages.equal key entry.entries).getD messages.nil := by
  induction entry with
  | last ownKey ownValue hash =>
      by_cases same : messages.equal key ownKey = true <;>
        simp [getValue_, entries, valueOf, same]
  | link ownKey ownValue hash next hypothesis =>
      by_cases same : messages.equal key ownKey = true
      · simp [getValue_, entries, valueOf, same]
      · simpa [getValue_, entries, valueOf, same] using hypothesis

theorem keys_represents (messages : Messages Object) (entry : HashEntry Object) :
    ∃ keys, entry.keys messages = some keys ∧
      keys.Represents (entry.entries.map Prod.fst).reverse := by
  induction entry with
  | last key value hash =>
      obtain ⟨empty, made, represents⟩ := Vector.represents_new messages.nil
      obtain ⟨grown, appended, contents⟩ := represents.append (Vector.canGrow_anySize _) messages.nil key
      exact ⟨grown, by simp [keys, made, appended], by simpa [entries] using contents⟩
  | link key value hash next hypothesis =>
      obtain ⟨later, made, represents⟩ := hypothesis
      obtain ⟨grown, appended, contents⟩ := represents.append (Vector.canGrow_anySize _) messages.nil key
      exact ⟨grown, by simp [keys, made, appended], by simpa [entries] using contents⟩

theorem values_represents (messages : Messages Object) (entry : HashEntry Object) :
    ∃ values, entry.values messages = some values ∧
      values.Represents (entry.entries.map Prod.snd).reverse := by
  induction entry with
  | last key value hash =>
      obtain ⟨empty, made, represents⟩ := Vector.represents_new messages.nil
      obtain ⟨grown, appended, contents⟩ := represents.append (Vector.canGrow_anySize _) messages.nil value
      exact ⟨grown, by simp [values, made, appended], by simpa [entries] using contents⟩
  | link key value hash next hypothesis =>
      obtain ⟨later, made, represents⟩ := hypothesis
      obtain ⟨grown, appended, contents⟩ := represents.append (Vector.canGrow_anySize _) messages.nil value
      exact ⟨grown, by simp [values, made, appended], by simpa [entries] using contents⟩

end HashEntry

/-- The entries of a table slot. -/
def slotEntries : Option (HashEntry Object) → List (Object × Object)
  | none => []
  | some entry => entry.entries

/-! ### Tables -/

/-- The rule of `Object.som` for keys: `=` is an equivalence and equal keys have
equal hash codes. -/
structure KeyRule (messages : Messages Object) (Keys : Object → Prop) : Prop where
  equivalence : EquivalenceOn messages.equal Keys
  hashcodes : ∀ {a b}, Keys a → Keys b → messages.equal a b = true →
    messages.hashcode a = messages.hashcode b

variable {Keys : Object → Prop} {hashtable : Hashtable Object}
  {entries : List (Object × Object)} {key : Object}

/-- The table stands for the entries, each in the chain of its bucket. -/
structure Refines (messages : Messages Object) (Keys : Object → Prop)
    (hashtable : Hashtable Object) (entries : List (Object × Object)) : Prop where
  length : hashtable.table.length = 11
  count : hashtable.count = entries.length
  inUse : KeysIn Keys entries
  distinct : Distinct messages.equal entries
  perm : (hashtable.table.flatMap slotEntries).Perm entries
  placed : ∀ (index : Nat) (slot : Option (HashEntry Object)),
    hashtable.table[index]? = some slot →
    ∀ entry ∈ slotEntries slot, bucket (messages.hashcode entry.1) = index

/-- The slot of a key, with no entry of the key before or behind it. -/
structure SlotOf (messages : Messages Object) (hashtable : Hashtable Object) (key : Object)
    (before : List (Option (HashEntry Object))) (slot : Option (HashEntry Object))
    (behind : List (Option (HashEntry Object))) : Prop where
  split : hashtable.table = before ++ slot :: behind
  position : before.length = bucket (messages.hashcode key)
  absentBefore : isKey messages.equal key (before.flatMap slotEntries) = false
  absentBehind : isKey messages.equal key (behind.flatMap slotEntries) = false

/-- A chain that has an entry of the key is that of the key's bucket. -/
theorem Refines.bucket_of_isKey (rule : KeyRule messages Keys)
    (refines : Refines messages Keys hashtable entries) (isIn : Keys key) {index : Nat}
    {slot : Option (HashEntry Object)} (there : hashtable.table[index]? = some slot)
    (present : isKey messages.equal key (slotEntries slot) = true) :
    index = bucket (messages.hashcode key) := by
  obtain ⟨entry, listed, same⟩ := isKey_iff.mp present
  have inTable : entry ∈ hashtable.table.flatMap slotEntries :=
    List.mem_flatMap.mpr ⟨slot, List.mem_of_getElem? there, listed⟩
  have entryIn := refines.inUse entry (refines.perm.mem_iff.mp inTable)
  rw [rule.hashcodes isIn entryIn same]
  exact (refines.placed index slot there entry listed).symm

theorem isKey_flatMap {slots : List (Option (HashEntry Object))}
    (absent : ∀ (index : Nat) (slot : Option (HashEntry Object)), slots[index]? = some slot →
      isKey messages.equal key (slotEntries slot) = false) :
    isKey messages.equal key (slots.flatMap slotEntries) = false := by
  rw [Bool.eq_false_iff]
  intro present
  obtain ⟨entry, listed, same⟩ := isKey_iff.mp present
  obtain ⟨slot, inSlots, inSlot⟩ := List.mem_flatMap.mp listed
  obtain ⟨index, there⟩ := List.mem_iff_getElem?.mp inSlots
  have found := isKey_iff.mpr ⟨entry, inSlot, same⟩
  rw [absent index slot there] at found
  exact Bool.noConfusion found

theorem Refines.slotOf (rule : KeyRule messages Keys)
    (refines : Refines messages Keys hashtable entries) (isIn : Keys key) :
    ∃ before slot behind, SlotOf messages hashtable key before slot behind := by
  have inside : bucket (messages.hashcode key) < hashtable.table.length := by
    rw [refines.length]
    exact bucket_lt _
  have elsewhere : ∀ (index : Nat) (slot : Option (HashEntry Object)),
      hashtable.table[index]? = some slot →
      index ≠ bucket (messages.hashcode key) →
        isKey messages.equal key (slotEntries slot) = false := by
    intro index slot there other
    rw [Bool.eq_false_iff]
    exact fun present => other (refines.bucket_of_isKey rule isIn there present)
  refine ⟨hashtable.table.take (bucket (messages.hashcode key)), hashtable.table[bucket _],
    hashtable.table.drop (bucket (messages.hashcode key) + 1), ?_, ?_, ?_, ?_⟩
  · rw [List.getElem_cons_drop, List.take_append_drop]
  · rw [List.length_take]
    omega
  · refine isKey_flatMap fun index slot there => ?_
    have less : index < bucket (messages.hashcode key) := by
      have bound := (List.getElem?_eq_some_iff.mp there).1
      rw [List.length_take] at bound
      omega
    rw [List.getElem?_take_of_lt less] at there
    exact elsewhere index slot there (by omega)
  · refine isKey_flatMap fun index slot there => ?_
    rw [List.getElem?_drop] at there
    exact elsewhere _ slot there (by omega)

namespace SlotOf

variable {before behind : List (Option (HashEntry Object))} {slot : Option (HashEntry Object)}

theorem entries_eq (slotOf : SlotOf messages hashtable key before slot behind) :
    hashtable.table.flatMap slotEntries =
      before.flatMap slotEntries ++ slotEntries slot ++ behind.flatMap slotEntries := by
  rw [slotOf.split, List.flatMap_append, List.flatMap_cons, List.append_assoc]

theorem indexForKey (slotOf : SlotOf messages hashtable key before slot behind)
    (length : hashtable.table.length = 11) :
    hashtable.indexForKey_ messages arithmetic key = some ((before.length : Int) + 1) := by
  unfold Hashtable.indexForKey_
  rw [length, slotOf.position]
  exact indexForHash_eq arithmetic (messages.hashcode key)

theorem at_eq (slotOf : SlotOf messages hashtable key before slot behind) :
    hashtable.table.at_ ((before.length : Int) + 1) = some slot := by
  rw [Elements.at_succ, slotOf.split]
  simp

theorem at_put_eq (slotOf : SlotOf messages hashtable key before slot behind)
    (changed : Option (HashEntry Object)) :
    hashtable.table.at_put_ ((before.length : Int) + 1) changed =
      some (before ++ changed :: behind) := by
  rw [Elements.at_put_succ _ _ (by rw [slotOf.split]; simp), slotOf.split,
    List.set_append_right _ _ (Nat.le_refl _), Nat.sub_self, List.set_cons_zero]

end SlotOf

/-- The value of a key is the one in its chain. -/
theorem Refines.valueOf_eq (rule : KeyRule messages Keys)
    (refines : Refines messages Keys hashtable entries) (isIn : Keys key)
    {before behind : List (Option (HashEntry Object))} {slot : Option (HashEntry Object)}
    (slotOf : SlotOf messages hashtable key before slot behind) :
    valueOf messages.equal key entries = valueOf messages.equal key (slotEntries slot) := by
  rw [valueOf_perm rule.equivalence isIn refines.inUse refines.distinct refines.perm.symm,
    slotOf.entries_eq, valueOf_middle _ slotOf.absentBefore slotOf.absentBehind]

theorem Refines.get (rule : KeyRule messages Keys)
    (refines : Refines messages Keys hashtable entries) (isIn : Keys key) :
    hashtable.get_ messages arithmetic key =
      some ((valueOf messages.equal key entries).getD messages.nil) := by
  obtain ⟨before, slot, behind, slotOf⟩ := refines.slotOf rule isIn
  rw [refines.valueOf_eq rule isIn slotOf]
  unfold Hashtable.get_
  rw [slotOf.indexForKey arithmetic refines.length]
  simp only [Option.bind_eq_bind, Option.bind_some, slotOf.at_eq]
  cases slot with
  | none => rfl
  | some entry => exact congrArg some (entry.getValue_eq key)

theorem any_keys (rule : KeyRule messages Keys) (isIn : Keys key)
    {chain : List (Object × Object)} (inUse : KeysIn Keys chain) :
    (chain.map Prod.fst).reverse.any (fun k => messages.equal k key) =
      isKey messages.equal key chain := by
  rw [Bool.eq_iff_iff, isKey_iff]
  simp only [List.any_reverse, List.any_map, List.any_eq_true, Function.comp]
  constructor
  · rintro ⟨entry, listed, same⟩
    exact ⟨entry, listed, rule.equivalence.symm (inUse entry listed) isIn same⟩
  · rintro ⟨entry, listed, same⟩
    exact ⟨entry, listed, rule.equivalence.symm isIn (inUse entry listed) same⟩

theorem Refines.containsKey (rule : KeyRule messages Keys)
    (refines : Refines messages Keys hashtable entries) (isIn : Keys key) :
    hashtable.containsKey_ messages arithmetic key =
      some (isKey messages.equal key entries) := by
  obtain ⟨before, slot, behind, slotOf⟩ := refines.slotOf rule isIn
  have value := refines.valueOf_eq rule isIn slotOf
  unfold Hashtable.containsKey_ isKey
  rw [slotOf.indexForKey arithmetic refines.length, value]
  simp only [Option.bind_eq_bind, Option.bind_some, slotOf.at_eq]
  cases slot with
  | none => rfl
  | some entry =>
      obtain ⟨keys, made, represents⟩ := entry.keys_represents messages
      have inUse : KeysIn Keys entry.entries := by
        intro own listed
        have inTable : own ∈ hashtable.table.flatMap slotEntries := by
          rw [slotOf.entries_eq]
          simp [slotEntries, listed]
        exact refines.inUse own (refines.perm.mem_iff.mp inTable)
      simp only [made, represents.visited, Option.bind_some, any_keys rule isIn inUse]
      rfl

/-- Replacing the chain of a key by one with the key assigned. -/
theorem Refines.update (rule : KeyRule messages Keys)
    (refines : Refines messages Keys hashtable entries) (isIn : Keys key) (value : Object)
    {before behind : List (Option (HashEntry Object))} {slot : Option (HashEntry Object)}
    (slotOf : SlotOf messages hashtable key before slot behind)
    {changed : Option (HashEntry Object)}
    (assigned : slotEntries changed = assign messages.equal key value (slotEntries slot)) :
    Refines messages Keys
      ⟨before ++ changed :: behind,
        hashtable.count + if isKey messages.equal key entries then 0 else 1⟩
      (assign messages.equal key value entries) := by
  have sameLength : (before ++ changed :: behind).length = hashtable.table.length := by
    rw [slotOf.split]
    simp
  refine ⟨sameLength.trans refines.length, ?_, refines.inUse.assign isIn,
    refines.distinct.assign rule.equivalence isIn refines.inUse, ?_, ?_⟩
  · simp only
    rw [length_assign, refines.count]
    split <;> simp
  · have inside : (before.flatMap slotEntries ++ assign messages.equal key value (slotEntries slot) ++
        behind.flatMap slotEntries).Perm _ :=
      assign_middle (slotEntries slot) slotOf.absentBefore slotOf.absentBehind
    rw [← slotOf.entries_eq, ← assigned] at inside
    simp only
    rw [List.flatMap_append, List.flatMap_cons, ← List.append_assoc]
    exact inside.trans (assign_perm rule.equivalence isIn
      (fun entry there => refines.inUse entry (refines.perm.mem_iff.mp there))
      (refines.distinct.perm rule.equivalence refines.inUse refines.perm.symm) refines.perm)
  · intro index here there entry listed
    have position := slotOf.position
    have wasPlaced := refines.placed
    rw [slotOf.split] at wasPlaced
    by_cases own : index = before.length
    · rw [own, List.getElem?_append_right (Nat.le_refl _), Nat.sub_self] at there
      obtain rfl : changed = here := Option.some.inj there
      rw [assigned] at listed
      have among := (List.mem_map_of_mem listed : Prod.fst entry ∈ _)
      rw [keys_assign] at among
      have old : ∀ own ∈ (slotEntries slot).map Prod.fst,
          bucket (messages.hashcode own) = before.length := by
        intro own there
        obtain ⟨entry, listed, rfl⟩ := List.mem_map.mp there
        exact wasPlaced before.length slot (by simp) entry listed
      split at among
      · exact (old _ among).trans own.symm
      · rcases List.mem_append.mp among with among | among
        · exact (old _ among).trans own.symm
        · rw [List.mem_singleton.mp among, own, position]
    · have same : (before ++ changed :: behind)[index]? = (before ++ slot :: behind)[index]? := by
        rw [List.getElem?_append, List.getElem?_append]
        split
        · rfl
        · obtain ⟨later, far⟩ : ∃ later, index - before.length = later + 1 :=
            ⟨index - before.length - 1, by omega⟩
          rw [far, List.getElem?_cons_succ, List.getElem?_cons_succ]
      exact wasPlaced index here (same.symm.trans there) entry listed

theorem Refines.at_put (rule : KeyRule messages Keys)
    (refines : Refines messages Keys hashtable entries) (isIn : Keys key) (value : Object) :
    ∃ later, hashtable.at_put_ messages arithmetic key value = some later ∧
      Refines messages Keys later (assign messages.equal key value entries) := by
  obtain ⟨before, slot, behind, slotOf⟩ := refines.slotOf rule isIn
  have known : isKey messages.equal key entries = isKey messages.equal key (slotEntries slot) :=
    congrArg Option.isSome (refines.valueOf_eq rule isIn slotOf)
  unfold Hashtable.at_put_
  rw [slotOf.indexForKey arithmetic refines.length]
  simp only [Option.bind_eq_bind, Option.bind_some, slotOf.at_eq]
  cases slot with
  | none =>
      have updated := refines.update rule isIn value slotOf
        (show slotEntries (some (.newKey messages key value)) = _ from rfl)
      rw [known] at updated
      simp only [slotOf.at_put_eq, Option.bind_some]
      exact ⟨_, rfl, updated⟩
  | some entry =>
      obtain ⟨assigned, added⟩ := entry.setKey_entries messages key value
      have updated := refines.update rule isIn value slotOf
        (show slotEntries (some (entry.setKey_value_ messages key value).1) = _ from assigned)
      rw [known] at updated
      simp only [slotOf.at_put_eq, Option.bind_some, added]
      refine ⟨_, rfl, ?_⟩
      by_cases present : isKey messages.equal key entry.entries = true
      · simpa [slotEntries, present] using updated
      · simpa [slotEntries, present] using updated

theorem refines_clear : ∃ cleared, Hashtable.clear = some cleared ∧
    Refines messages Keys cleared ([] : List (Object × Object)) := by
  refine ⟨⟨List.replicate 11 none, 0⟩, rfl, rfl, rfl, nofun, List.Pairwise.nil, List.Perm.nil, ?_⟩
  intro index slot there entry listed
  obtain rfl : slot = none := List.eq_of_mem_replicate (List.mem_of_getElem? there)
  exact absurd listed List.not_mem_nil

theorem valuesOfSlot_eq (slot : Option (HashEntry Object)) :
    Hashtable.valuesOfSlot messages slot = some ((slotEntries slot).map Prod.snd).reverse := by
  cases slot with
  | none => rfl
  | some entry =>
      obtain ⟨values, made, represents⟩ := entry.values_represents messages
      simp [Hashtable.valuesOfSlot, made, represents.visited, slotEntries]

/-- `containsValue:` finds the values of the entries. -/
theorem Refines.containsValue (refines : Refines messages Keys hashtable entries)
    (value : Object) :
    hashtable.containsValue_ messages value =
      some (entries.any fun entry => messages.equal entry.2 value) := by
  have slots : hashtable.table.mapM (Hashtable.valuesOfSlot messages) =
      some (hashtable.table.map fun slot => ((slotEntries slot).map Prod.snd).reverse) := by
    rw [funext valuesOfSlot_eq]
    exact List.mapM_pure
  unfold Hashtable.containsValue_
  rw [Elements.visited_eq]
  simp only [Option.bind_eq_bind, Option.bind_some, slots, Option.pure_def]
  rw [← refines.perm.any_eq, List.any_flatMap, List.any_map]
  simp [Function.comp_def]

/-! ### Runs -/

/-- A message that changes a table. -/
inductive TableMessage (Object : Type) where
  | at_put_ (key value : Object)
  | clear
deriving DecidableEq, Repr

/-- Send the message to the table. -/
def Hashtable.receive (messages : Messages Object) (hashtable : Hashtable Object) :
    TableMessage Object → Option (Hashtable Object)
  | .at_put_ key value => hashtable.at_put_ messages arithmetic key value
  | .clear => Hashtable.clear

/-- A new table after the messages. -/
def Hashtable.afterAll (messages : Messages Object) (received : List (TableMessage Object)) :
    Option (Hashtable Object) := do
  received.foldlM (Hashtable.receive arithmetic messages) (← Hashtable.new)

/-- The keys and values of the `at:put:` messages since the last `clear`. -/
def sinceClear (received : List (TableMessage Object)) : List (Object × Object) :=
  received.foldl (fun stored message =>
    match message with
    | .at_put_ key value => stored ++ [(key, value)]
    | .clear => []) []

/-- The value of the last pair whose key is equal to `key`. -/
def lastValue (messages : Messages Object) (key : Object) (stored : List (Object × Object)) :
    Option Object :=
  valueOf messages.equal key stored.reverse

/-- What a table answers when it is the finite map of the stored pairs. -/
structure IsFiniteMap (messages : Messages Object) (Keys : Object → Prop)
    (hashtable : Hashtable Object) (stored : List (Object × Object)) : Prop where
  get : ∀ key, Keys key → hashtable.get_ messages arithmetic key =
    some ((lastValue messages key stored).getD messages.nil)
  containsKey : ∀ key, Keys key → ∃ contained,
    hashtable.containsKey_ messages arithmetic key = some contained ∧
      (contained = true ↔ ∃ pair ∈ stored, messages.equal key pair.1 = true)
  containsValue : ∀ value, ∃ contained,
    hashtable.containsValue_ messages value = some contained ∧
      (contained = true ↔ ∃ pair ∈ stored, ∃ last,
        lastValue messages pair.1 stored = some last ∧ messages.equal last value = true)
  size : ∃ classes : Nat, hashtable.size = classes ∧
    CountsClasses messages.equal (stored.map Prod.fst) classes
  isEmpty : hashtable.isEmpty = true ↔ hashtable.size = 0
  undisturbed : ∀ key value other, Keys key → Keys other → messages.equal other key = false →
    ∃ later, hashtable.at_put_ messages arithmetic key value = some later ∧
      later.get_ messages arithmetic other = hashtable.get_ messages arithmetic other ∧
      later.containsKey_ messages arithmetic other =
        hashtable.containsKey_ messages arithmetic other
  indexes : ∀ hashcode : Int32, ∃ index,
    indexForHash arithmetic hashcode (Int32.ofInt hashtable.table.length) = some index ∧
      1 ≤ index ∧ index ≤ hashtable.table.length

theorem sinceClear_append (received : List (TableMessage Object)) (key value : Object) :
    sinceClear (received ++ [.at_put_ key value]) = sinceClear received ++ [(key, value)] := by
  simp [sinceClear]

theorem sinceClear_clear (received : List (TableMessage Object)) :
    sinceClear (received ++ [.clear]) = ([] : List (Object × Object)) := by
  simp [sinceClear]

/-- The keys of the `at:put:` messages are in use. -/
def KeysReceived (Keys : Object → Prop) (received : List (TableMessage Object)) : Prop :=
  ∀ key value, .at_put_ key value ∈ received → Keys key

theorem keysIn_sinceClear {received : List (TableMessage Object)}
    (inUse : KeysReceived Keys received) : KeysIn Keys (sinceClear received) := by
  induction received using List.reverseRecOn with
  | nil => exact nofun
  | append_singleton received message hypothesis =>
      have earlier := hypothesis fun key value there => inUse key value (List.mem_append_left _ there)
      cases message with
      | at_put_ key value =>
          rw [sinceClear_append]
          intro pair there
          rcases List.mem_append.mp there with there | last
          · exact earlier pair there
          · rw [List.mem_singleton.mp last]
            exact inUse key value (by simp)
      | clear =>
          rw [sinceClear_clear]
          exact nofun

/-- A run of messages reaches the table of the pairs stored since the last `clear`. -/
theorem afterAll_refines (rule : KeyRule messages Keys) {received : List (TableMessage Object)}
    (inUse : KeysReceived Keys received) :
    ∃ hashtable, Hashtable.afterAll arithmetic messages received = some hashtable ∧
      Refines messages Keys hashtable (assignAll messages.equal (sinceClear received)) := by
  induction received using List.reverseRecOn with
  | nil =>
      exact refines_clear
  | append_singleton received message hypothesis =>
      obtain ⟨hashtable, reached, refines⟩ :=
        hypothesis fun key value there => inUse key value (List.mem_append_left _ there)
      have continues : Hashtable.afterAll arithmetic messages (received ++ [message]) =
          hashtable.receive arithmetic messages message := by
        unfold Hashtable.afterAll at reached ⊢
        simp only [List.foldlM_append, List.foldlM_cons, List.foldlM_nil]
        rw [← bind_assoc, reached]
        simp
      rw [continues]
      cases message with
      | at_put_ key value =>
          rw [sinceClear_append, assignAll_append]
          exact refines.at_put arithmetic rule (inUse key value (by simp)) value
      | clear =>
          rw [sinceClear_clear]
          exact refines_clear

/-- The table of the stored pairs answers as the finite map of them. -/
theorem Refines.isFiniteMap (rule : KeyRule messages Keys) {stored : List (Object × Object)}
    (inUse : KeysIn Keys stored)
    (refines : Refines messages Keys hashtable (assignAll messages.equal stored)) :
    IsFiniteMap arithmetic messages Keys hashtable stored := by
  have valueOf_eq : ∀ {key}, Keys key →
      valueOf messages.equal key (assignAll messages.equal stored) = lastValue messages key stored :=
    fun isIn => valueOf_assignAll rule.equivalence isIn inUse
  refine ⟨?_, ?_, ?_, ?_, ?_, ?_, ?_⟩
  · intro key isIn
    rw [refines.get arithmetic rule isIn, valueOf_eq isIn]
  · intro key isIn
    refine ⟨_, refines.containsKey arithmetic rule isIn, ?_⟩
    rw [isKey, valueOf_eq isIn]
    have present : (lastValue messages key stored).isSome = true ↔
        ∃ pair ∈ stored.reverse, messages.equal key pair.1 = true := isKey_iff
    simpa only [List.mem_reverse] using present
  · intro value
    refine ⟨_, refines.containsValue value, ?_⟩
    rw [List.any_eq_true]
    constructor
    · rintro ⟨entry, listed, same⟩
      obtain ⟨pair, there, sameKey⟩ :=
        List.mem_map.mp (keys_assignAll stored _ (List.mem_map.mpr ⟨entry, listed, rfl⟩))
      refine ⟨pair, there, entry.2, ?_, same⟩
      rw [← valueOf_eq (inUse pair there), sameKey]
      have isIn := refines.inUse entry listed
      exact (valueOf_eq_some_iff rule.equivalence isIn refines.inUse refines.distinct).mpr
        ⟨entry, listed, rule.equivalence.refl isIn, rfl⟩
    · rintro ⟨pair, there, last, isLast, same⟩
      have isIn := inUse pair there
      rw [← valueOf_eq isIn, valueOf_eq_some_iff rule.equivalence isIn refines.inUse
        refines.distinct] at isLast
      obtain ⟨entry, listed, _, rfl⟩ := isLast
      exact ⟨entry, listed, same⟩
  · exact ⟨_, refines.count, countsClasses_assignAll rule.equivalence inUse refines.distinct⟩
  · exact beq_iff_eq
  · intro key value other isIn otherIn apart
    obtain ⟨later, put, refines'⟩ := refines.at_put arithmetic rule isIn value
    have same : valueOf messages.equal other
        (assign messages.equal key value (assignAll messages.equal stored)) =
          valueOf messages.equal other (assignAll messages.equal stored) := by
      rw [valueOf_assign rule.equivalence isIn otherIn refines.inUse, apart]
      rfl
    refine ⟨later, put, ?_, ?_⟩
    · rw [refines'.get arithmetic rule otherIn, refines.get arithmetic rule otherIn, same]
    · rw [refines'.containsKey arithmetic rule otherIn, refines.containsKey arithmetic rule otherIn,
        isKey, same, isKey]
  · intro hashcode
    rw [refines.length]
    have inside := bucket_lt hashcode
    exact ⟨_, indexForHash_eq arithmetic hashcode, by omega, by omega⟩

/-- After any messages a table is the finite map of the pairs stored since the last `clear`. -/
theorem hashtable_is_finite_map (rule : KeyRule messages Keys)
    (received : List (TableMessage Object)) (inUse : KeysReceived Keys received) :
    ∃ hashtable, Hashtable.afterAll arithmetic messages received = some hashtable ∧
      IsFiniteMap arithmetic messages Keys hashtable (sinceClear received) := by
  obtain ⟨hashtable, reached, refines⟩ := afterAll_refines arithmetic rule inUse
  exact ⟨hashtable, reached, refines.isFiniteMap arithmetic rule (keysIn_sinceClear inUse)⟩

/-- Integers that answer themselves as hash codes; 0 is nil. -/
def integerMessages : Messages Int32 := ⟨0, fun a b => a == b, id⟩

theorem integerMessages_keyRule : KeyRule integerMessages fun _ => True := by
  refine ⟨⟨fun _ => beq_self_eq_true _, fun _ _ same => ?_, fun _ _ _ first second => ?_⟩,
    fun _ _ same => eq_of_beq same⟩
  · exact BEq.symm same
  · exact PartialEquivBEq.trans first second

/-- The keys -1 and 12 share a bucket; the second value of -1 is the one it has. -/
theorem finite_map_of_integers :
    ∃ hashtable, Hashtable.afterAll integralDoubles integerMessages
        [.at_put_ 3 4, .clear, .at_put_ (-1) 5, .at_put_ 12 6, .at_put_ (-1) 7] = some hashtable ∧
      IsFiniteMap integralDoubles integerMessages (fun _ => True) hashtable
        [(-1, 5), (12, 6), (-1, 7)] :=
  hashtable_is_finite_map integralDoubles integerMessages_keyRule
    [.at_put_ 3 4, .clear, .at_put_ (-1) 5, .at_put_ 12 6, .at_put_ (-1) 7] fun _ _ _ => trivial

end Somr.Library
