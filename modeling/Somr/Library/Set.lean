import Mathlib.Data.List.Nodup
import Mathlib.Data.List.Pairwise
import Somr.Foundation.KeyedEntries
import Somr.Library.Vector

/-!
Owns the class `Set` of the core library and the equality its methods use.

Objects are told apart by identity, the equality of `Object`; the messages `=` of
the elements are a parameter. `contains:` and `add:` compare by identity, `remove:`
compares with `=`. The items are different objects, so a 32-bit heap is full before the
vector that holds them gets too large for an array.
-/

namespace Somr.Library

open Foundation

variable {Object : Type} [DecidableEq Object] (equal : Object → Object → Bool)

structure Set (Object : Type) where
  items : Vector Object
deriving DecidableEq, Repr

namespace Set

/-- `Set class>>new`. -/
def new (nil : Object) : Option (Set Object) := do return ⟨← Vector.new anySize nil⟩

/-- `Set>>contains:`. -/
def contains_ (set : Set Object) (anObject : Object) : Option Bool :=
  answering do
    set.items.do_ (fun it _ => if it = anObject then leave true else .ok ()) ()
    return false

/-- `Set>>add:`. -/
def add_ (nil : Object) (set : Set Object) (anObject : Object) : Option (Set Object) := do
  if ← set.contains_ anObject then return set
  else return ⟨← set.items.append_ anySize nil anObject⟩

/-- The body of the loop of `remove:`, on the items left and the new items. -/
def moveItem (nil anObject : Object) (loop : Vector Object × Vector Object) :
    Statement Unit (Vector Object × Vector Object) := do
  let removed ← demand loop.1.remove
  if equal removed.1 anObject then return (removed.2, loop.2)
  else return (removed.2, ← demand (loop.2.append_ anySize nil removed.1))

/-- `Set>>remove:`. The loop takes an item away in each round. -/
def remove_ (nil : Object) (set : Set Object) (anObject : Object) : Option (Set Object) := do
  let newItems ← Vector.new anySize nil
  match whileTrue (fun loop => !loop.1.isEmpty) (moveItem equal nil anObject)
      (set.items.size.toNat + 1) (set.items, newItems) with
  | .ok loop => some ⟨loop.2⟩
  | .error _ => none

/-- `Set>>do:`, for a block that leaves the set alone. -/
def do_ {Answer State : Type} (set : Set Object)
    (block : Object → State → Statement Answer State) (state : State) :
    Statement Answer State :=
  set.items.do_ block state

end Set

/-! ### What the methods do to the items -/

namespace Set

variable {set : Set Object} {contents : List Object}

theorem contains_eq (represents : set.items.Represents contents) (anObject : Object) :
    set.contains_ anObject = some (decide (anObject ∈ contents)) := by
  unfold contains_
  rw [represents.do_]
  have isSearch : ∀ it ∈ contents, (if it = anObject then leave true else .ok () :
      Statement Bool Unit) = if decide (it = anObject) then leave true else .ok () :=
    fun it _ => by simp only [decide_eq_true_eq]
  refine (answering_search (fun it => decide (it = anObject)) (fun _ => true) false
    isSearch).trans (congrArg some ?_)
  by_cases member : anObject ∈ contents
  · have isFound : (contents.find? fun it => decide (it = anObject)).isSome = true := by
      simpa using member
    obtain ⟨it, isIt⟩ := Option.isSome_iff_exists.mp isFound
    rw [isIt, decide_eq_true member]
    rfl
  · have notFound : (contents.find? fun it => decide (it = anObject)) = none := by
      rw [List.find?_eq_none]
      rintro it there same
      exact member (of_decide_eq_true same ▸ there)
    rw [notFound, decide_eq_false member]
    rfl

omit [DecidableEq Object] in
theorem represents_new (nil : Object) : ∃ set, new nil = some set ∧ set.items.Represents [] := by
  obtain ⟨items, isNew, represents⟩ := Vector.represents_new nil
  exact ⟨⟨items⟩, by rw [new, isNew]; rfl, represents⟩

theorem add_represents (represents : set.items.Represents contents) (nil anObject : Object) :
    ∃ later, set.add_ nil anObject = some later ∧ later.items.Represents
      (if anObject ∈ contents then contents else contents ++ [anObject]) := by
  unfold add_
  rw [contains_eq represents]
  by_cases member : anObject ∈ contents
  · refine ⟨set, ?_, ?_⟩
    · rw [decide_eq_true member]
      rfl
    · rw [if_pos member]
      exact represents
  · obtain ⟨grown, appended, stands⟩ := represents.append (Vector.canGrow_anySize _) nil anObject
    refine ⟨⟨grown⟩, ?_, ?_⟩
    · rw [decide_eq_false member, appended]
      rfl
    · rw [if_neg member]
      exact stands

omit [DecidableEq Object] in
/-- One round moves the last item, unless it is equal to the object. -/
theorem moveItem_represents {items newItems : Vector Object} {before kept : List Object}
    {item : Object} (left : items.Represents (before ++ [item]))
    (moved : newItems.Represents kept) (nil anObject : Object) :
    ∃ loop, moveItem equal nil anObject (items, newItems) = .ok loop ∧
      loop.1.Represents before ∧
      loop.2.Represents (kept ++ [item].filter fun it => !equal it anObject) := by
  have isLast : (before ++ [item]).getLast? = some item := List.getLast?_concat
  obtain ⟨removed, fewer⟩ := left.remove isLast
  rw [List.dropLast_concat] at fewer
  have moves : moveItem equal nil anObject (items, newItems) =
      if equal item anObject then .ok ({ items with last := items.last - 1 }, newItems)
      else do
        return ({ items with last := items.last - 1 }, ← demand (newItems.append_ anySize nil item)) := by
    rw [moveItem, removed]
    rfl
  rw [moves]
  cases isEqual : equal item anObject with
  | true =>
      refine ⟨_, rfl, fewer, ?_⟩
      simpa [isEqual] using moved
  | false =>
      obtain ⟨grown, appended, stands⟩ := moved.append (Vector.canGrow_anySize _) nil item
      refine ⟨(_, grown), by rw [appended]; rfl, fewer, ?_⟩
      simpa [isEqual] using stands

omit [DecidableEq Object] in
theorem moveItems_represents (nil anObject : Object) (contents : List Object) :
    ∀ {items newItems : Vector Object} {kept : List Object} (rounds : Nat),
      items.Represents contents → newItems.Represents kept → contents.length < rounds →
      ∃ loop, whileTrue (fun loop => !loop.1.isEmpty) (moveItem equal nil anObject) rounds
          (items, newItems) = .ok loop ∧
        loop.2.Represents (kept ++ contents.reverse.filter fun it => !equal it anObject) := by
  induction contents using List.reverseRecOn with
  | nil =>
      intro items newItems kept rounds left moved enough
      obtain ⟨rounds, rfl⟩ := Nat.exists_eq_succ_of_ne_zero (Nat.ne_zero_of_lt enough)
      refine ⟨(items, newItems), whileTrue_of_false ?_ rounds, ?_⟩
      · simp [left.isEmpty]
      · simpa using moved
  | append_singleton before item inductionHypothesis =>
      intro items newItems kept rounds left moved enough
      obtain ⟨rounds, rfl⟩ := Nat.exists_eq_succ_of_ne_zero (Nat.ne_zero_of_lt enough)
      obtain ⟨⟨items', newItems'⟩, moves, left', moved'⟩ :=
        moveItem_represents equal left moved nil anObject
      obtain ⟨loop, ends, stands⟩ := inductionHypothesis rounds left' moved'
        (by simp only [List.length_append, List.length_singleton] at enough; omega)
      refine ⟨loop, ?_, ?_⟩
      · have more : (!items.isEmpty) = true := by simp [left.isEmpty]
        have goesOn := @whileTrue_of_true _ _ (fun loop => !loop.1.isEmpty)
          (moveItem equal nil anObject) (items, newItems) more rounds
        rw [goesOn, moves]
        exact ends
      · rw [List.reverse_append, List.reverse_singleton, List.filter_append, ← List.append_assoc]
        exact stands

omit [DecidableEq Object] in
/-- `remove:` keeps the items that are not equal to the object, in the other order. -/
theorem remove_represents (represents : set.items.Represents contents) (nil anObject : Object) :
    ∃ later, set.remove_ equal nil anObject = some later ∧
      later.items.Represents (contents.reverse.filter fun it => !equal it anObject) := by
  obtain ⟨newItems, isNew, empty⟩ := Vector.represents_new nil
  have enough : contents.length < set.items.size.toNat + 1 := by
    rw [represents.size]
    omega
  obtain ⟨loop, ends, stands⟩ :=
    moveItems_represents equal nil anObject contents _ represents empty enough
  refine ⟨⟨loop.2⟩, ?_, stands⟩
  unfold remove_
  rw [isNew]
  simp only [Option.bind_eq_bind, Option.bind_some, ends]

end Set

/-! ### Runs -/

inductive SetMessage (Object : Type) where
  | add_ (anObject : Object)
  | remove_ (anObject : Object)
deriving DecidableEq, Repr

def SetMessage.anObject : SetMessage Object → Object
  | .add_ anObject => anObject
  | .remove_ anObject => anObject

def Set.receive (nil : Object) (set : Set Object) : SetMessage Object → Option (Set Object)
  | .add_ anObject => set.add_ nil anObject
  | .remove_ anObject => set.remove_ equal nil anObject

/-- A new set after messages. -/
def Set.afterAll (nil : Object) (messages : List (SetMessage Object)) :
    Option (Set Object) := do
  messages.foldlM (Set.receive equal nil) (← Set.new nil)

/-- The set with these items uses the one equality `=`, in what it holds and answers and
in what the next message does. -/
structure Set.UsesEqual (Elements : Object → Prop) (nil : Object) (set : Set Object)
    (contents : List Object) : Prop where
  distinct : contents.Pairwise fun x y => equal x y = false
  contains : ∀ x, Elements x → set.contains_ x = some (contents.any fun item => equal item x)
  add : ∀ x, Elements x → ∃ later changed, set.add_ nil x = some later ∧
    later.items.Represents changed ∧ later.contains_ x = some true ∧
    ∀ y, Elements y → equal y x = false → (y ∈ changed ↔ y ∈ contents)
  remove : ∀ x, Elements x → ∃ later changed, set.remove_ equal nil x = some later ∧
    later.items.Represents changed ∧ later.contains_ x = some false ∧
    ∀ y, Elements y → equal y x = false → (y ∈ changed ↔ y ∈ contents)

/-- Every set on the way uses `=`. -/
def UsesEqualThroughout (Elements : Object → Prop) (nil : Object)
    (messages : List (SetMessage Object)) : Prop :=
  ∀ received, received <+: messages → ∃ set contents,
    Set.afterAll equal nil received = some set ∧ set.items.Represents contents ∧
      set.UsesEqual equal Elements nil contents

section

/-- The items after a message. -/
def SetMessage.applyTo (contents : List Object) :
    SetMessage Object → List Object
  | .add_ x => if x ∈ contents then contents else contents ++ [x]
  | .remove_ x => contents.reverse.filter fun it => !equal it x

theorem Set.receive_represents {set : Set Object} {contents : List Object}
    (represents : set.items.Represents contents) (nil : Object) (message : SetMessage Object) :
    ∃ later, set.receive equal nil message = some later ∧
      later.items.Represents (message.applyTo equal contents) := by
  cases message with
  | add_ x => exact add_represents represents nil x
  | remove_ x => exact remove_represents equal represents nil x

/-- The items after all messages. -/
def itemsAfter (messages : List (SetMessage Object)) :
    List Object :=
  messages.foldl (SetMessage.applyTo equal) []

theorem itemsAfter_concat (messages : List (SetMessage Object)) (message : SetMessage Object) :
    itemsAfter equal (messages ++ [message]) = message.applyTo equal (itemsAfter equal messages) := by
  simp [itemsAfter]

theorem Set.afterAll_represents (nil : Object) (messages : List (SetMessage Object)) :
    ∃ set, Set.afterAll equal nil messages = some set ∧
      set.items.Represents (itemsAfter equal messages) := by
  induction messages using List.reverseRecOn with
  | nil =>
      obtain ⟨set, isNew, represents⟩ := Set.represents_new nil
      exact ⟨set, by rw [Set.afterAll, isNew]; rfl, represents⟩
  | append_singleton messages message inductionHypothesis =>
      obtain ⟨set, reached, represents⟩ := inductionHypothesis
      obtain ⟨later, received, stands⟩ := Set.receive_represents equal represents nil message
      refine ⟨later, ?_, itemsAfter_concat equal messages message ▸ stands⟩
      cases isNew : Set.new nil with
      | none =>
          rw [Set.afterAll, isNew] at reached
          exact absurd reached.symm (Option.some_ne_none _)
      | some set₀ =>
          rw [Set.afterAll, isNew, Option.bind_eq_bind, Option.bind_some] at reached ⊢
          rw [List.foldlM_append, reached]
          simpa using received

/-- Only what was added is an item, and only once. -/
theorem itemsAfter_added (messages : List (SetMessage Object)) :
    (itemsAfter equal messages).Nodup ∧
      ∀ x ∈ itemsAfter equal messages, SetMessage.add_ x ∈ messages := by
  induction messages using List.reverseRecOn with
  | nil => exact ⟨List.nodup_nil, fun x member => absurd member List.not_mem_nil⟩
  | append_singleton messages message inductionHypothesis =>
      obtain ⟨nodup, added⟩ := inductionHypothesis
      have earlier : ∀ x ∈ itemsAfter equal messages,
          SetMessage.add_ x ∈ messages ++ [message] :=
        fun x member => List.mem_append_left _ (added x member)
      rw [itemsAfter_concat]
      cases message with
      | add_ x =>
          rw [SetMessage.applyTo]
          split
          · next member => exact ⟨nodup, earlier⟩
          · next new =>
              refine ⟨List.concat_eq_append ▸ nodup.concat new, fun y member => ?_⟩
              rcases List.mem_append.mp member with old | isNew
              · exact earlier y old
              · rw [List.mem_singleton.mp isNew]
                exact List.mem_append_right _ (List.mem_singleton_self _)
      | remove_ x =>
          refine ⟨(List.nodup_reverse.mpr nodup).filter _, fun y member => ?_⟩
          exact earlier y (List.mem_reverse.mp (List.mem_of_mem_filter member))

/-! ### One equality -/

variable {equal} {Elements : Object → Prop} {nil : Object}

omit [DecidableEq Object] in
/-- Items that are equal to themselves only make `contains:` the search with `=`. -/
theorem contains_equal_iff (equivalence : EquivalenceOn equal Elements) {contents : List Object}
    (inUse : ∀ item ∈ contents, Elements item)
    (alone : ∀ item ∈ contents, ∀ y, Elements y → equal y item = true → y = item) {x : Object}
    (isIn : Elements x) : x ∈ contents ↔ (contents.any fun item => equal item x) = true := by
  rw [List.any_eq_true]
  constructor
  · intro member
    exact ⟨x, member, equivalence.refl isIn⟩
  · rintro ⟨item, member, same⟩
    have isItem := alone item member x isIn (equivalence.symm (inUse item member) isIn same)
    exact isItem ▸ member

theorem Set.usesEqual (equivalence : EquivalenceOn equal Elements) {set : Set Object}
    {contents : List Object} (represents : set.items.Represents contents)
    (nodup : contents.Nodup) (inUse : ∀ item ∈ contents, Elements item)
    (alone : ∀ item ∈ contents, ∀ y, Elements y → equal y item = true → y = item) :
    set.UsesEqual equal Elements nil contents where
  distinct := by
    apply List.Pairwise.imp_of_mem _ nodup
    intro x y isX isY different
    exact Bool.eq_false_iff.mpr fun same => different (alone y isY x (inUse x isX) same)
  contains x isIn := by
    rw [contains_eq represents]
    refine congrArg some (Bool.eq_iff_iff.mpr ?_)
    rw [decide_eq_true_iff]
    exact contains_equal_iff equivalence inUse alone isIn
  add x isIn := by
    obtain ⟨later, added, stands⟩ := add_represents represents nil x
    refine ⟨later, _, added, stands, ?_, fun y _ apart => ?_⟩
    · have member : x ∈ if x ∈ contents then contents else contents ++ [x] := by
        split
        · next there => exact there
        · next new => exact List.mem_append_right _ (List.mem_singleton_self x)
      rw [contains_eq stands, decide_eq_true member]
    · have different : y ≠ x := by
        rintro rfl
        exact Bool.false_ne_true (apart.symm.trans (equivalence.refl isIn))
      split
      · next there => exact Iff.rfl
      · next new => simp [different]
  remove x isIn := by
    obtain ⟨later, removed, stands⟩ := remove_represents equal represents nil x
    refine ⟨later, _, removed, stands, ?_, fun y _ apart => ?_⟩
    · have gone : x ∉ contents.reverse.filter fun it => !equal it x := by
        simp [equivalence.refl isIn]
      rw [contains_eq stands, decide_eq_false gone]
    · simp [apart]

/-- An object that is in a set that uses `=` is equal to itself only. -/
theorem Set.UsesEqual.alone (equivalence : EquivalenceOn equal Elements) {set : Set Object}
    {contents : List Object} (uses : set.UsesEqual equal Elements nil contents)
    (represents : set.items.Represents contents) {x y : Object} (member : x ∈ contents)
    (isX : Elements x) (isY : Elements y) (same : equal y x = true) : y = x := by
  by_contra different
  have found : (contents.any fun item => equal item y) = true :=
    List.any_eq_true.mpr ⟨x, member, equivalence.symm isY isX same⟩
  have answers := uses.contains y isY
  rw [contains_eq represents, found] at answers
  have isItem : y ∈ contents := of_decide_eq_true (Option.some.inj answers)
  have apart : contents.Pairwise fun a b => equal a b = false ∨ equal b a = false :=
    uses.distinct.imp Or.inl
  have : Std.Symm fun a b => equal a b = false ∨ equal b a = false := ⟨fun _ _ => Or.symm⟩
  rcases apart.forall isItem member different with other | other
  · exact Bool.false_ne_true (other.symm.trans same)
  · exact Bool.false_ne_true (other.symm.trans (equivalence.symm isY isX same))

/-- A set uses `=` throughout if and only if no object that is added has an equal that is
another object. -/
theorem usesEqualThroughout_iff (equivalence : EquivalenceOn equal Elements)
    {messages : List (SetMessage Object)}
    (inUse : ∀ message ∈ messages, Elements message.anObject) :
    UsesEqualThroughout equal Elements nil messages ↔
      ∀ x, .add_ x ∈ messages → ∀ y, Elements y → equal y x = true → y = x := by
  constructor
  · intro throughout x added y isY same
    obtain ⟨before, after, rfl⟩ := List.append_of_mem added
    obtain ⟨set, contents, reached, represents, uses⟩ :=
      throughout (before ++ [.add_ x]) ⟨after, by simp⟩
    obtain ⟨set', reached', represents'⟩ :=
      Set.afterAll_represents equal nil (before ++ [.add_ x])
    obtain rfl := Option.some.inj (reached.symm.trans reached')
    obtain rfl := represents.unique represents'
    have member : x ∈ itemsAfter equal (before ++ [.add_ x]) := by
      rw [itemsAfter_concat, SetMessage.applyTo]
      split
      · next there => exact there
      · next new => exact List.mem_append_right _ (List.mem_singleton_self x)
    exact uses.alone equivalence represents member (inUse _ added) isY same
  · intro alone received isPrefix
    obtain ⟨set, reached, represents⟩ := Set.afterAll_represents equal nil received
    obtain ⟨nodup, added⟩ := itemsAfter_added equal received
    have inMessages : ∀ item ∈ itemsAfter equal received, SetMessage.add_ item ∈ messages :=
      fun item member => isPrefix.subset (added item member)
    exact ⟨set, _, reached, represents, Set.usesEqual equivalence represents nodup
      (fun item member => inUse _ (inMessages item member))
      fun item member => alone item (inMessages item member)⟩

end

/-- Objects of which no two are equal. -/
theorem usesEqual_of_single_objects :
    UsesEqualThroughout (fun a b : Nat => a == b) (fun _ => True) 0
      [.add_ 3, .add_ 4, .remove_ 3] :=
  (usesEqualThroughout_iff equivalenceOn_beq fun _ _ => trivial).mpr
    fun _ _ _ _ same => eq_of_beq same

/-- Integers: the value of each, and which object with this value it is. -/
def sameInteger (left right : Int × Nat) : Bool := left.1 == right.1

theorem sameInteger_equivalence : EquivalenceOn sameInteger fun _ => True :=
  ⟨fun _ => beq_self_eq_true _, fun _ _ same => BEq.symm same,
    fun _ _ _ first second => PartialEquivBEq.trans first second⟩

/-- After one 3 is added, another 3 is not contained. -/
theorem other_integer_not_contained :
    ¬ ∀ messages : List (SetMessage (Int × Nat)),
      UsesEqualThroughout sameInteger (fun _ => True) (0, 0) messages := by
  intro throughout
  obtain ⟨set, contents, reached, represents, uses⟩ :=
    throughout [.add_ (3, 0)] _ (List.prefix_refl _)
  obtain ⟨set', reached', represents'⟩ :=
    Set.afterAll_represents sameInteger (0, 0) [.add_ (3, 0)]
  obtain rfl := Option.some.inj (reached.symm.trans reached')
  obtain rfl := represents.unique represents'
  have member : (3, 0) ∈ itemsAfter sameInteger [.add_ (3, 0)] := List.mem_singleton_self _
  have same : ((3, 1) : Int × Nat) = (3, 0) :=
    uses.alone sameInteger_equivalence represents member trivial trivial rfl
  exact absurd same (by decide)

end Somr.Library
