import Somr.Library.Vector

/-!
Owns the comparison of `Vector` with a list that grows and shrinks at its end,
over every sequence of messages.

A vector keeps a free slot behind its last element, except one of capacity 0,
which never gets a slot. The bounds check of `at:` and `at:put:` takes the index
of the free slot for valid. A full vector grows to twice its slots, if an array can
have as many.
-/

namespace Somr.Library

open Foundation

variable {Object : Type}

/-! ### Messages -/

inductive VectorMessage (Object : Type) where
  | append_ (element : Object)
  | remove
  | at_ (index : Int)
  | at_put_ (index : Int) (value : Object)
deriving DecidableEq, Repr

/-- What a vector answers to a message, if that is an element, and how it is afterwards.
No result if an error is reported. -/
def Vector.receive (fits : Nat → Bool) (nil : Object) (vector : Vector Object) :
    VectorMessage Object → Option (Option Object × Vector Object)
  | .append_ element => do return (none, ← vector.append_ fits nil element)
  | .remove => do
      let removed ← vector.remove
      return (some removed.1, removed.2)
  | .at_ index => do return (some (← vector.at_ index), vector)
  | .at_put_ index value => do return (none, ← vector.at_put_ index value)

/-- The same for a list: it is pushed and popped at its end, and has the indexes from 1
to its length. -/
def VectorMessage.applyTo (contents : List Object) :
    VectorMessage Object → Option (Option Object × List Object)
  | .append_ element => some (none, contents ++ [element])
  | .remove => contents.getLast?.map fun element => (some element, contents.dropLast)
  | .at_ index =>
      if 1 ≤ index then contents[(index - 1).toNat]?.map fun element => (some element, contents)
      else none
  | .at_put_ index value =>
      if 1 ≤ index ∧ index ≤ contents.length then
        some (none, contents.set (index - 1).toNat value)
      else none

/-- The vector shows the list: its size, what is at each index, and what `do:` visits. -/
structure Vector.Shows (vector : Vector Object) (contents : List Object) : Prop where
  size : vector.size = contents.length
  elements : ∀ (index : Nat) (inside : index < contents.length),
    vector.at_ (index + 1) = some contents[index]
  visits : ∀ {Answer State : Type} (block : Object → State → Statement Answer State)
    (state : State), vector.do_ block state =
      contents.foldlM (fun state element => block element state) state

/-- The vector shows the list, and after each message the changed list. It reports an
error exactly where the list does not have what the message asks for. -/
def Vector.BehavesAs (fits : Nat → Bool) (nil : Object) (vector : Vector Object)
    (contents : List Object) : List (VectorMessage Object) → Prop
  | [] => vector.Shows contents
  | message :: messages => vector.Shows contents ∧
      (message.applyTo contents).elim (vector.receive fits nil message = none) fun expected =>
        ∃ after, vector.receive fits nil message = some (expected.1, after) ∧
          Vector.BehavesAs fits nil after expected.2 messages

/-- The slots of a vector with `capacity` slots and `size` elements after a message. A full
one is doubled; the free slot counts as used. -/
def VectorMessage.capacityAfter (capacity size : Nat) : VectorMessage Object → Nat
  | .append_ _ => if capacity ≤ size + 1 then 2 * capacity else capacity
  | _ => capacity

/-- The message neither needs a slot that the vector cannot get nor reads or writes the
free slot by its index: nothing is appended to a vector of capacity 0, or to a full one
that cannot be doubled. -/
def VectorMessage.AvoidsFreeSlot (fits : Nat → Bool) (capacity size : Nat) :
    VectorMessage Object → Prop
  | .append_ _ => capacity ≠ 0 ∧ (capacity ≤ size + 1 → fits (2 * capacity) = true)
  | .remove => True
  | .at_ index => capacity ≠ 0 → index ≠ size + 1
  | .at_put_ index _ => capacity ≠ 0 → index ≠ size + 1

instance VectorMessage.decidableAvoidsFreeSlot (fits : Nat → Bool) (capacity size : Nat) :
    (message : VectorMessage Object) → Decidable (message.AvoidsFreeSlot fits capacity size)
  | .append_ _ => inferInstanceAs
      (Decidable (capacity ≠ 0 ∧ (capacity ≤ size + 1 → fits (2 * capacity) = true)))
  | .remove => inferInstanceAs (Decidable True)
  | .at_ index => inferInstanceAs (Decidable (capacity ≠ 0 → index ≠ size + 1))
  | .at_put_ index _ => inferInstanceAs (Decidable (capacity ≠ 0 → index ≠ size + 1))

/-- All messages do, up to the first that the list does not have an answer to. -/
def AllAvoidFreeSlot (fits : Nat → Bool) (capacity : Nat) (contents : List Object) :
    List (VectorMessage Object) → Prop
  | [] => True
  | message :: messages => message.AvoidsFreeSlot fits capacity contents.length ∧
      (message.applyTo contents).elim True fun expected =>
        AllAvoidFreeSlot fits (message.capacityAfter capacity contents.length) expected.2 messages

/-! ### Vectors with a free slot -/

/-- The vector stands for the list and has a free slot. -/
structure Vector.Spare (vector : Vector Object) (contents : List Object) : Prop
    extends vector.Represents contents where
  free : vector.last ≤ vector.storage.length

namespace Vector

variable {vector : Vector Object} {contents : List Object}

theorem Represents.shows (represents : vector.Represents contents) : vector.Shows contents where
  size := represents.size
  elements _ inside := represents.at_succ inside
  visits := represents.do_

/-- The bounds check passes the indexes from 1 to the one of the free slot. -/
theorem Represents.checkIndex (represents : vector.Represents contents) (index : Int) :
    (vector.first ≤ index ∧ index ≤ vector.last) ↔ 1 ≤ index ∧ index ≤ contents.length + 1 := by
  rw [represents.first, represents.last]

theorem Spare.slots (spare : vector.Spare contents) : vector.storage.length ≠ 0 := by
  have free := spare.free
  have last := spare.last
  omega

/-- The free slot is the last one where the vector has to grow. -/
theorem Spare.canGrow_iff (spare : vector.Spare contents) {fits : Nat → Bool} :
    vector.CanGrow fits ↔
      (vector.storage.length ≤ contents.length + 1 → fits (2 * vector.storage.length) = true) := by
  have last := spare.last
  unfold CanGrow
  rw [last]
  constructor
  · exact fun grows full => grows (by omega)
  · exact fun grows full => grows (by omega)

theorem Spare.length_lt (spare : vector.Spare contents) :
    contents.length < vector.storage.length := by
  have free := spare.free
  have last := spare.last
  omega

theorem spare_new (nil : Object) {fits : Nat → Bool} {initialSize : Int}
    (positive : 0 < initialSize) (allocated : fits initialSize.toNat = true) :
    ∃ vector, new_ fits nil initialSize = some vector ∧ vector.Spare [] ∧
      vector.storage.length = initialSize.toNat := by
  have length : (List.replicate initialSize.toNat nil).length = initialSize.toNat := by simp
  refine ⟨⟨1, 1, List.replicate initialSize.toNat nil⟩, ?_,
    ⟨⟨rfl, rfl, List.nil_prefix, ?_⟩, ?_⟩, length⟩
  · rw [new_, Elements.new_, if_pos ⟨by omega, allocated⟩]
    rfl
  · apply List.ne_nil_of_length_pos
    rw [length]
    omega
  · change (1 : Int) ≤ ((List.replicate initialSize.toNat nil).length : Int)
    rw [length]
    omega

/-- A storage that is full is doubled. -/
theorem Spare.expanded_length (spare : vector.Spare contents) {fits : Nat → Bool} {nil : Object}
    {storage : Elements Object} (canGrow : vector.CanGrow fits)
    (expanded : vector.expanded fits nil = some storage) :
    storage.length =
      if vector.storage.length ≤ contents.length + 1 then 2 * vector.storage.length
      else vector.storage.length := by
  have last := spare.last
  unfold Vector.expanded at expanded
  by_cases full : vector.last ≥ vector.storage.length
  · have double : (2 * (vector.storage.length : Int)).toNat = 2 * vector.storage.length := by omega
    rw [if_pos full, Elements.new_, double, if_pos ⟨by omega, canGrow full⟩] at expanded
    simp only [Option.bind_eq_bind, Option.bind_some] at expanded
    rw [Elements.copyInto_eq _ _ (by simp; omega)] at expanded
    obtain rfl := Option.some.inj expanded
    rw [if_pos (by omega)]
    simp only [List.length_append, List.length_drop, List.length_replicate]
    omega
  · rw [if_neg full] at expanded
    obtain rfl := Option.some.inj expanded
    rw [if_neg (by omega)]

theorem Spare.append (spare : vector.Spare contents) {fits : Nat → Bool}
    (canGrow : vector.CanGrow fits) (nil element : Object) :
    ∃ grown, vector.append_ fits nil element = some grown ∧
      grown.Spare (contents ++ [element]) ∧ grown.storage.length =
        if vector.storage.length ≤ contents.length + 1 then 2 * vector.storage.length
        else vector.storage.length := by
  obtain ⟨grown, appended, represents⟩ := spare.toRepresents.append canGrow nil element
  obtain ⟨slot, others, expanded⟩ := spare.toRepresents.expanded canGrow nil
  have length := spare.expanded_length canGrow expanded
  have before := spare.length_lt
  have last := spare.last
  have room : contents.length + 1 < (contents ++ slot :: others).length := by
    rw [length]
    split <;> omega
  unfold append_ at appended
  simp only [expanded, Option.bind_eq_bind, Option.bind_some] at appended
  rw [last, Elements.at_put_succ _ _ (by omega), Option.bind_some] at appended
  obtain rfl := Option.some.inj appended
  refine ⟨_, ?_, ⟨represents, ?_⟩, ?_⟩
  · unfold append_
    simp only [expanded, Option.bind_eq_bind, Option.bind_some]
    rw [last, Elements.at_put_succ _ _ (by omega), Option.bind_some]
    rfl
  · simp only [List.length_set]
    omega
  · simp only [List.length_set]
    exact length

/-- A full storage that cannot be doubled takes no element. -/
theorem append_none {fits : Nat → Bool} (cannot : ¬ vector.CanGrow fits) (nil element : Object) :
    vector.append_ fits nil element = none := by
  obtain ⟨full, tooLarge⟩ := Classical.not_imp.mp cannot
  have double : (2 * (vector.storage.length : Int)).toNat = 2 * vector.storage.length := by omega
  rw [append_, expanded, if_pos full, Elements.new_, double, if_neg fun both => tooLarge both.2]
  rfl

theorem Spare.remove (spare : vector.Spare contents) {element : Object}
    (isLast : contents.getLast? = some element) :
    ∃ shorter, vector.remove = some (element, shorter) ∧ shorter.Spare contents.dropLast ∧
      shorter.storage = vector.storage := by
  obtain ⟨removed, represents⟩ := spare.toRepresents.remove isLast
  exact ⟨_, removed, ⟨represents, Int.le_trans (Int.sub_le_self _ (by decide)) spare.free⟩, rfl⟩

/-- Both `at:` and `at:put:` refuse an index that is neither of an element nor of the free
slot. -/
theorem Represents.at_outside (represents : vector.Represents contents) {index : Int}
    (outside : ¬ (1 ≤ index ∧ index ≤ contents.length + 1)) : vector.at_ index = none := by
  rw [at_, if_neg ((represents.checkIndex index).not.mpr outside)]

theorem Represents.at_put_outside (represents : vector.Represents contents) {index : Int}
    (outside : ¬ (1 ≤ index ∧ index ≤ contents.length + 1)) (value : Object) :
    vector.at_put_ index value = none := by
  rw [at_put_, if_neg ((represents.checkIndex index).not.mpr outside)]

/-- The free slot can be read. -/
theorem Spare.at_free (spare : vector.Spare contents) :
    ∃ slot, vector.at_ (contents.length + 1) = some slot := by
  have length := spare.length_lt
  rw [at_, if_pos ((spare.toRepresents.checkIndex _).mpr ⟨by omega, by omega⟩),
    Elements.at_succ]
  exact ⟨_, List.getElem?_eq_getElem length⟩

/-- The free slot and the slots of the elements can be written. -/
theorem Spare.at_put (spare : vector.Spare contents) {position : Nat}
    (inside : position ≤ contents.length) (value : Object) :
    vector.at_put_ (position + 1) value =
      some { vector with storage := vector.storage.set position value } := by
  have length := spare.length_lt
  rw [at_put_, if_pos ((spare.toRepresents.checkIndex _).mpr ⟨by omega, by omega⟩),
    Elements.at_put_succ _ _ (by omega)]
  rfl

theorem Spare.set (spare : vector.Spare contents) {position : Nat}
    (inside : position < contents.length) (value : Object) :
    Spare { vector with storage := vector.storage.set position value }
      (contents.set position value) := by
  obtain ⟨rest, stored⟩ := spare.stored
  refine ⟨⟨spare.first, ?_, ⟨rest, ?_⟩, ?_⟩, ?_⟩
  · rw [List.length_set]
    exact spare.last
  · rw [← stored, List.set_append_left _ _ inside]
  · rw [ne_eq, List.set_eq_nil_iff]
    exact spare.room
  · rw [List.length_set]
    exact spare.free

end Vector

/-! ### Messages to a list -/

section

variable {contents : List Object}

/-- An index is that of an element, or of the free slot, or neither. -/
theorem index_cases (size : Nat) (index : Int) :
    (∃ position < size, index = (position : Int) + 1) ∨ index = size + 1 ∨
      ¬ (1 ≤ index ∧ index ≤ (size : Int) + 1) := by
  by_cases inside : 1 ≤ index ∧ index ≤ size
  · exact .inl ⟨(index - 1).toNat, by omega, by omega⟩
  · by_cases free : index = size + 1
    · exact .inr (.inl free)
    · exact .inr (.inr (by omega))

theorem VectorMessage.applyTo_at {position : Nat} (inside : position < contents.length) :
    (VectorMessage.at_ (position + 1)).applyTo contents =
      some (some contents[position], contents) := by
  rw [applyTo, if_pos (by omega), Int.add_sub_cancel, Int.toNat_natCast,
    List.getElem?_eq_getElem inside]
  rfl

theorem VectorMessage.applyTo_at_outside {index : Int}
    (outside : ¬ (1 ≤ index ∧ index ≤ contents.length)) :
    (VectorMessage.at_ index).applyTo contents = none := by
  rw [applyTo]
  by_cases positive : 1 ≤ index
  · rw [if_pos positive, List.getElem?_eq_none (by omega)]
    rfl
  · rw [if_neg positive]

theorem VectorMessage.applyTo_at_put {position : Nat} (inside : position < contents.length)
    (value : Object) : (VectorMessage.at_put_ (position + 1) value).applyTo contents =
      some (none, contents.set position value) := by
  rw [applyTo, if_pos (by omega), Int.add_sub_cancel, Int.toNat_natCast]

theorem VectorMessage.applyTo_at_put_outside {index : Int} (value : Object)
    (outside : ¬ (1 ≤ index ∧ index ≤ contents.length)) :
    (VectorMessage.at_put_ index value).applyTo contents = none := by
  rw [applyTo, if_neg outside]

end

/-! ### Steps -/

section

variable {vector : Vector Object} {contents : List Object} {fits : Nat → Bool} (nil : Object)

/-- A vector without any slot answers nothing. -/
theorem Vector.receive_of_capacityZero (message : VectorMessage Object) :
    (⟨1, 1, []⟩ : Vector Object).receive fits nil message = none := by
  have noRoom : ∀ index : Int, ¬ (1 ≤ index ∧ index ≤ (([] : Elements Object).length : Int)) := by
    intro index
    simp only [List.length_nil]
    omega
  cases message with
  | append_ element =>
      have full : ((1 : Int) ≥ (([] : Elements Object).length : Int)) := Int.zero_le_ofNat 1
      have refused : (⟨1, 1, []⟩ : Vector Object).append_ fits nil element = none := by
        rw [Vector.append_, Vector.expanded, if_pos full]
        cases made : Elements.new_ fits nil (2 * (([] : Elements Object).length : Int)) with
        | none => rfl
        | some slots =>
            unfold Elements.new_ at made
            split at made
            · obtain rfl := Option.some.inj made
              rfl
            · cases made
      rw [receive, refused]
      rfl
  | remove => rfl
  | at_ index =>
      have refused : (⟨1, 1, []⟩ : Vector Object).at_ index = none := by
        unfold Vector.at_ Elements.at_
        rw [if_neg (noRoom index)]
        exact ite_self _
      rw [receive, refused]
      rfl
  | at_put_ index value =>
      have refused : (⟨1, 1, []⟩ : Vector Object).at_put_ index value = none := by
        unfold Vector.at_put_ Elements.at_put_
        rw [if_neg (noRoom index)]
        exact ite_self _
      rw [receive, refused]
      rfl

/-- A message that avoids the free slot is refused by both or does the same to both. -/
theorem Vector.Spare.receive (spare : vector.Spare contents)
    {message : VectorMessage Object}
    (avoids : message.AvoidsFreeSlot fits vector.storage.length contents.length) :
    (message.applyTo contents = none ∧ vector.receive fits nil message = none) ∨
      ∃ answer changed after, message.applyTo contents = some (answer, changed) ∧
        vector.receive fits nil message = some (answer, after) ∧ after.Spare changed ∧
          after.storage.length =
            message.capacityAfter vector.storage.length contents.length := by
  have positive := spare.slots
  cases message with
  | append_ element =>
      obtain ⟨grown, appended, stands, slots⟩ := spare.append (spare.canGrow_iff.mpr avoids.2) nil element
      exact .inr ⟨none, _, grown, rfl, by rw [Vector.receive, appended]; rfl, stands, slots⟩
  | remove =>
      cases isLast : contents.getLast? with
      | none =>
          obtain rfl := List.getLast?_eq_none_iff.mp isLast
          exact .inl ⟨rfl, by rw [Vector.receive, spare.toRepresents.remove_empty]; rfl⟩
      | some element =>
          obtain ⟨shorter, removed, stands, same⟩ := spare.remove isLast
          exact .inr ⟨some element, _, shorter, by rw [VectorMessage.applyTo, isLast]; rfl,
            by rw [Vector.receive, removed]; rfl, stands, congrArg List.length same⟩
  | at_ index =>
      obtain ⟨position, inside, rfl⟩ | free | outside := index_cases contents.length index
      · exact .inr ⟨_, contents, vector, VectorMessage.applyTo_at inside,
          by rw [Vector.receive, spare.toRepresents.at_succ inside]; rfl, spare, rfl⟩
      · exact absurd free (avoids positive)
      · exact .inl ⟨VectorMessage.applyTo_at_outside (by omega),
          by rw [Vector.receive, spare.toRepresents.at_outside outside]; rfl⟩
  | at_put_ index value =>
      obtain ⟨position, inside, rfl⟩ | free | outside := index_cases contents.length index
      · exact .inr ⟨none, _, _, VectorMessage.applyTo_at_put inside value,
          by rw [Vector.receive, spare.at_put (Nat.le_of_lt inside)]; rfl, spare.set inside value,
          List.length_set ..⟩
      · exact absurd free (avoids positive)
      · exact .inl ⟨VectorMessage.applyTo_at_put_outside value (by omega),
          by rw [Vector.receive, spare.toRepresents.at_put_outside outside]; rfl⟩

/-- Of a message that does not avoid the free slot the list or the vector knows nothing, but
not both. -/
theorem Vector.Spare.receive_free (spare : vector.Spare contents)
    {message : VectorMessage Object}
    (concerns : ¬ message.AvoidsFreeSlot fits vector.storage.length contents.length) :
    ((message.applyTo contents).isSome = !(vector.receive fits nil message).isSome) := by
  cases message with
  | append_ element =>
      have cannot : ¬ vector.CanGrow fits := fun canGrow =>
        concerns ⟨spare.slots, spare.canGrow_iff.mp canGrow⟩
      rw [Vector.receive, Vector.append_none cannot]
      rfl
  | remove => exact absurd trivial concerns
  | at_ index =>
      obtain ⟨-, free⟩ := Classical.not_imp.mp concerns
      obtain rfl := not_not.mp free
      obtain ⟨slot, read⟩ := spare.at_free
      rw [VectorMessage.applyTo_at_outside (by omega), Vector.receive, read]
      rfl
  | at_put_ index value =>
      obtain ⟨-, free⟩ := Classical.not_imp.mp concerns
      obtain rfl := not_not.mp free
      rw [VectorMessage.applyTo_at_put_outside value (by omega), Vector.receive,
        spare.at_put (Nat.le_refl _)]
      rfl

/-! ### Runs -/

theorem Vector.Spare.behavesAs_iff (messages : List (VectorMessage Object)) :
    ∀ {vector : Vector Object} {contents}, vector.Spare contents →
      (vector.BehavesAs fits nil contents messages ↔
        AllAvoidFreeSlot fits vector.storage.length contents messages) := by
  induction messages with
  | nil =>
      intro vector contents spare
      exact iff_of_true spare.toRepresents.shows trivial
  | cons message messages inductionHypothesis =>
      intro vector contents spare
      rw [Vector.BehavesAs, AllAvoidFreeSlot, and_iff_right spare.toRepresents.shows]
      by_cases avoids : message.AvoidsFreeSlot fits vector.storage.length contents.length
      · rw [and_iff_right avoids]
        obtain ⟨noAnswer, refused⟩ | ⟨answer, changed, after, expected, received, stands, slots⟩ :=
          spare.receive nil avoids
        · rw [noAnswer]
          exact iff_of_true refused trivial
        · rw [expected, Option.elim_some, Option.elim_some, ← slots, ← inductionHypothesis stands]
          refine ⟨fun ⟨other, same, behaves⟩ => ?_, fun behaves => ⟨after, received, behaves⟩⟩
          obtain ⟨-, rfl⟩ := Prod.mk.inj (Option.some.inj (received.symm.trans same))
          exact behaves
      · refine iff_of_false (fun behaves => ?_) fun both => avoids both.1
        have differ := spare.receive_free nil avoids
        cases expected : message.applyTo contents with
        | none =>
            rw [expected, Option.elim_none] at behaves
            rw [expected, behaves] at differ
            cases differ
        | some result =>
            rw [expected, Option.elim_some] at behaves
            obtain ⟨after, received, -⟩ := behaves
            rw [expected, received] at differ
            cases differ

/-- A vector of capacity 0 behaves as a list until something is appended. -/
theorem behavesAs_capacityZero_iff (messages : List (VectorMessage Object)) :
    (⟨1, 1, []⟩ : Vector Object).BehavesAs fits nil [] messages ↔
      AllAvoidFreeSlot fits 0 [] messages := by
  have shows : (⟨1, 1, []⟩ : Vector Object).Shows [] :=
    ⟨rfl, fun _ inside => absurd inside (Nat.not_lt_zero _), fun _ _ => rfl⟩
  cases messages with
  | nil => exact iff_of_true shows trivial
  | cons message messages =>
      rw [Vector.BehavesAs, AllAvoidFreeSlot, and_iff_right shows,
        Vector.receive_of_capacityZero nil message]
      cases message with
      | append_ element =>
          refine iff_of_false ?_ fun both => both.1.1 rfl
          rintro ⟨after, impossible, -⟩
          exact Option.some_ne_none _ impossible.symm
      | remove => exact iff_of_true rfl ⟨trivial, trivial⟩
      | at_ index =>
          rw [VectorMessage.applyTo_at_outside (by simp only [List.length_nil]; omega)]
          exact iff_of_true rfl ⟨fun positive => absurd rfl positive, trivial⟩
      | at_put_ index value =>
          rw [VectorMessage.applyTo_at_put_outside value (by simp only [List.length_nil]; omega)]
          exact iff_of_true rfl ⟨fun positive => absurd rfl positive, trivial⟩

end

/-- In every heap a new vector behaves as an empty list under any messages, if and only if
the heap has the slots it begins with and the messages avoid the free slot. -/
theorem vector_behavesAs_list_iff (memory : Nat → Bool) (nil : Object) {initialSize : Int}
    (valid : 0 ≤ initialSize) (messages : List (VectorMessage Object)) :
    (∃ vector, Vector.new_ (fitsHeap memory) nil initialSize = some vector ∧
        vector.BehavesAs (fitsHeap memory) nil [] messages) ↔
      fitsHeap memory initialSize.toNat = true ∧
        AllAvoidFreeSlot (fitsHeap memory) initialSize.toNat [] messages := by
  cases allocated : fitsHeap memory initialSize.toNat with
  | false =>
      refine iff_of_false ?_ fun both => Bool.false_ne_true both.1
      rintro ⟨vector, new, -⟩
      rw [Vector.new_, Elements.new_, if_neg (by simp [allocated])] at new
      cases new
  | true =>
      rw [and_iff_right rfl]
      obtain rfl | positive := valid.eq_or_lt'
      · have new : Vector.new_ (fitsHeap memory) nil 0 = some ⟨1, 1, []⟩ := by
          rw [Vector.new_, Elements.new_, if_pos ⟨Int.le_refl 0, allocated⟩]
          rfl
        rw [Int.toNat_zero, ← behavesAs_capacityZero_iff nil]
        constructor
        · rintro ⟨vector, isNew, behaves⟩
          obtain rfl := Option.some.inj (new.symm.trans isNew)
          exact behaves
        · exact fun behaves => ⟨_, new, behaves⟩
      · obtain ⟨vector, new, spare, slots⟩ := Vector.spare_new nil positive allocated
        rw [← slots, ← spare.behavesAs_iff nil messages]
        constructor
        · rintro ⟨other, isNew, behaves⟩
          obtain rfl := Option.some.inj (new.symm.trans isNew)
          exact behaves
        · exact fun behaves => ⟨vector, new, behaves⟩

/-- Memory for small arrays. -/
def smallMemory (size : Nat) : Bool := decide (size ≤ 100)

/-- Two elements with capacity 1, so that the vector grows. -/
theorem behavesAs_two_elements :
    ∃ vector, Vector.new_ (fitsHeap smallMemory) 0 1 = some vector ∧
      vector.BehavesAs (fitsHeap smallMemory) 0 []
        [.append_ 7, .append_ 8, .at_ 2, .remove, .at_put_ 1 9, .at_ 0] :=
  (vector_behavesAs_list_iff smallMemory 0 (by decide) _).mpr
    ⟨by decide, by decide, by decide, by decide, trivial, by decide, by decide, trivial⟩

/-- A new vector with room answers its free slot to `at: 1`. -/
theorem empty_vector_answers :
    ¬ ∀ (nil : Nat) (initialSize : Int), 0 ≤ initialSize → ∀ messages,
      ∃ vector, Vector.new_ (fitsHeap smallMemory) nil initialSize = some vector ∧
        vector.BehavesAs (fitsHeap smallMemory) nil [] messages := by
  intro always
  obtain ⟨vector, new, -, refused⟩ := always 0 5 (by decide) [.at_ 1]
  obtain rfl := Option.some.inj new
  have read : Vector.receive (fitsHeap smallMemory) 0 ⟨1, 1, List.replicate 5 0⟩ (.at_ 1) =
      none := refused
  exact absurd read (by decide)

end Somr.Library
