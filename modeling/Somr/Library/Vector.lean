import Mathlib.Data.List.Induction
import Somr.Foundation.Loops
import Somr.Memory.ArraySizes

/-!
Owns arrays and the class `Vector` of the core library: indexing with its bounds,
growth by doubling, and iteration.

An operation that reports an error to the program, or ends it, has no result.
Which sizes an array can have is a parameter: those that the byte count of an array
and the memory of a heap allow, or any size. `Represents` says which list a vector
stands for.
-/

namespace Somr.Library

open Foundation Memory

variable {Object : Type}

/-! ### Arrays -/

/-- The elements of an `Array`; the first index is 1. -/
abbrev Elements (Object : Type) := List Object

/-- Sizes without a bound. -/
def anySize (_ : Nat) : Bool := true

/-- The sizes whose byte count does not wrap around, and for which there is memory. -/
def fitsHeap (memory : Nat → Bool) (size : Nat) : Bool :=
  decide (48 + 4 * size < 4294967292) && memory size

theorem fitsHeap_iff {memory : Nat → Bool} {size : Nat} :
    fitsHeap memory size = true ↔ 48 + 4 * size < 4294967292 ∧ memory size = true := by
  rw [fitsHeap, Bool.and_eq_true, decide_eq_true_eq]

/-- Reading all positions of a list gives the list. -/
theorem mapM_range_eq {read : Nat → Option Object} (contents : List Object)
    (reads : ∀ index < contents.length, read index = contents[index]?) :
    (List.range contents.length).mapM read = some contents := by
  induction contents using List.reverseRecOn with
  | nil => rfl
  | append_singleton contents element hypothesis =>
      have initial : ∀ index < contents.length, read index = contents[index]? := by
        intro index inside
        rw [reads index (by simp; omega), List.getElem?_append_left inside]
      have last : read contents.length = some element := by
        rw [reads _ (by simp)]
        simp
      rw [List.length_append, List.length_singleton, List.range_succ, List.mapM_append,
        hypothesis initial]
      simp [last]

namespace Elements

/-- `Array class>>new:`, for the sizes that an array can have. -/
def new_ (fits : Nat → Bool) (nil : Object) (length : Int) : Option (Elements Object) :=
  if 0 ≤ length ∧ fits length.toNat = true then some (List.replicate length.toNat nil) else none

/-- `Array>>at:`, with the bounds check of `VMArray::operator[]`. -/
def at_ (elements : Elements Object) (index : Int) : Option Object :=
  if 1 ≤ index ∧ index ≤ elements.length then elements[(index - 1).toNat]? else none

/-- `Array>>at:put:`. -/
def at_put_ (elements : Elements Object) (index : Int) (value : Object) :
    Option (Elements Object) :=
  if 1 ≤ index ∧ index ≤ elements.length then some (elements.set (index - 1).toNat value)
  else none

/-- The sizes that the allocator has memory for. -/
def hasMemory (allocator : VMArray.Allocator Object) (size : Nat) : Bool :=
  (allocator.allocate (VMArray.adjustSizeInBytes (VMArray.requestedBytes (Int32.ofNat size)))).isSome

/-- `new:` answers the elements of the array that `NewArray` makes, if that has the size it
was given. -/
theorem new_iff_newArray (allocator : VMArray.Allocator Object) (nil : Object) {size : Int32}
    (valid : 0 ≤ size.toInt) (elements : Elements Object) :
    new_ (fitsHeap (hasMemory allocator)) nil size.toInt = some elements ↔
      elements.length = size.toInt.toNat ∧
        ∃ array, VMArray.newArray allocator nil size = .ok array ∧ array.Represents elements := by
  have isCount : size.toInt = size.toInt.toNat := (Int.toNat_of_nonneg valid).symm
  have same : Int32.ofNat size.toInt.toNat = size := by
    have below := size.toInt_lt
    exact Int32.toInt.inj ((Int32.toInt_ofNat_of_lt (by omega)).trans isCount.symm)
  have requested := VMArray.toNat_requestedBytes size
  have unsigned := toNat_toUInt32 size
  have fits_iff : fitsHeap (hasMemory allocator) size.toInt.toNat = true ↔
      48 + 4 * size.toInt.toNat < 4294967292 ∧
        (allocator.allocate (VMArray.adjustSizeInBytes (VMArray.requestedBytes size))).isSome =
          true := by
    rw [fitsHeap_iff, hasMemory, same]
  unfold new_
  constructor
  · intro answered
    split at answered
    · next fits =>
        obtain rfl := Option.some.inj answered
        obtain ⟨small, isSome⟩ := fits_iff.mp fits.2
        obtain ⟨words, memory⟩ := Option.isSome_iff_exists.mp isSome
        obtain ⟨array, made, represents⟩ :=
          VMArray.newArray_ok isCount (by omega) (by omega) memory
        exact ⟨List.length_replicate, array, made, represents⟩
    · cases answered
  · rintro ⟨length, array, made, represents⟩
    obtain ⟨other, alsoMade, filled, allocates⟩ | ⟨ending, fails, -⟩ :=
      VMArray.newArray_cases allocator nil isCount
    · obtain rfl := Except.ok.inj (made.symm.trans alsoMade)
      have bytes := filled.size
      have bound : array.bytes < 4294967296 := array.objectSize.toUInt32.toNat_lt
      have aligned := allocates.aligned
      rw [List.length_replicate] at bytes
      have elements_eq : elements = List.replicate size.toInt.toNat nil := by
        rw [← represents.holds, length, ← filled.holds, List.length_replicate]
      rw [if_pos ⟨valid, fits_iff.mpr ⟨by omega, allocates.memory⟩⟩, elements_eq]
    · rw [made] at fails
      cases fails

theorem at_succ (elements : Elements Object) (index : Nat) :
    elements.at_ (index + 1) = elements[index]? := by
  unfold at_
  by_cases inside : index < elements.length
  · rw [if_pos ⟨by omega, by omega⟩]
    congr 1
    omega
  · rw [if_neg (by omega)]
    exact (List.getElem?_eq_none (by omega)).symm

theorem at_put_succ (elements : Elements Object) {index : Nat} (value : Object)
    (inside : index < elements.length) :
    elements.at_put_ (index + 1) value = some (elements.set index value) := by
  rw [at_put_, if_pos ⟨by omega, by omega⟩]
  congr 2
  omega

/-- `target at: i put: (source at: i)`. -/
def copyElement (source target : Elements Object) (index : Nat) : Option (Elements Object) := do
  target.at_put_ (index + 1) (← source.at_ (index + 1))

/-- Copy for all indexes of `source`. -/
def copyInto (source target : Elements Object) : Option (Elements Object) :=
  (List.range source.length).foldlM source.copyElement target

theorem copyInto_eq (source target : Elements Object) (room : source.length ≤ target.length) :
    copyInto source target = some (source ++ target.drop source.length) := by
  have upTo : ∀ count ≤ source.length, (List.range count).foldlM source.copyElement target =
      some (source.take count ++ target.drop count) := by
    intro count
    induction count with
    | zero => intro _; rfl
    | succ count hypothesis =>
        intro enough
        have inside : count < source.length := by omega
        have split := List.drop_eq_getElem_cons (by omega : count < target.length)
        have short : (source.take count).length = count := by simp; omega
        have written : (source.take count ++ target.drop count).set count source[count] =
            source.take (count + 1) ++ target.drop (count + 1) := by
          rw [List.set_append_right _ _ (by omega), short, Nat.sub_self, split,
            List.set_cons_zero, List.take_succ_eq_append_getElem inside, List.append_assoc]
          rfl
        have fits : count < (source.take count ++ target.drop count).length := by
          simp only [List.length_append, List.length_take, List.length_drop]
          omega
        rw [List.range_succ, List.foldlM_append, hypothesis (by omega)]
        simp only [copyElement, Option.bind_eq_bind, Option.bind_some, List.foldlM_cons,
          List.foldlM_nil, at_succ, List.getElem?_eq_getElem inside, at_put_succ _ _ fits, written]
        rfl
  have whole := upTo source.length (Nat.le_refl _)
  rw [List.take_length] at whole
  exact whole

/-- The elements `Array>>do:` evaluates its block with, in order. -/
def visited (elements : Elements Object) : Option (List Object) :=
  (List.range elements.length).mapM fun (index : Nat) => elements.at_ (index + 1)

theorem visited_eq (elements : Elements Object) : elements.visited = some elements :=
  mapM_range_eq elements fun index _ => at_succ elements index

/-- `Array>>do:`, for a block that leaves the array alone. -/
def do_ {Answer State : Type} (elements : Elements Object)
    (block : Object → State → Statement Answer State) (state : State) :
    Statement Answer State :=
  Prod.snd <$> whileTrue (fun loop : Int × State => loop.1 ≤ elements.length)
    (countOn fun i state => do block (← demand (elements.at_ i)) state)
    (elements.length + 1) (1, state)

theorem do_eq {Answer State : Type} (elements : Elements Object)
    (block : Object → State → Statement Answer State) (state : State) :
    elements.do_ block state = elements.foldlM (fun state element => block element state) state := by
  have bound : ∀ (index : Int) (_ : State), True →
      decide (index ≤ (elements.length : Int)) = decide (index < 1 + (elements.length : Int)) := by
    intro index _ _
    rw [decide_eq_decide]
    omega
  unfold do_
  rw [whileTrue_countOn bound (fun _ _ _ _ _ => trivial) _ _ _ trivial (by omega)]
  apply foldlM_range_of_reads
  intro index inside
  rw [Int.add_comm, at_succ, List.getElem?_eq_getElem inside]

end Elements

/-! ### Vectors -/

structure Vector (Object : Type) where
  first : Int
  last : Int
  storage : Elements Object
deriving DecidableEq, Repr

namespace Vector

/-- `Vector class>>new:`. -/
def new_ (fits : Nat → Bool) (nil : Object) (initialSize : Int) : Option (Vector Object) := do
  return ⟨1, 1, ← Elements.new_ fits nil initialSize⟩

/-- `Vector class>>new`. -/
def new (fits : Nat → Bool) (nil : Object) : Option (Vector Object) := new_ fits nil 50

/-- `Vector>>at:`. -/
def at_ (vector : Vector Object) (index : Int) : Option Object :=
  if vector.first ≤ index ∧ index ≤ vector.last then vector.storage.at_ index else none

/-- `Vector>>at:put:`. -/
def at_put_ (vector : Vector Object) (index : Int) (value : Object) : Option (Vector Object) :=
  if vector.first ≤ index ∧ index ≤ vector.last then do
    return { vector with storage := ← vector.storage.at_put_ index value }
  else none

/-- The storage after `append:` has expanded the capacity if needed. -/
def expanded (fits : Nat → Bool) (nil : Object) (vector : Vector Object) :
    Option (Elements Object) :=
  if vector.last ≥ vector.storage.length then do
    vector.storage.copyInto (← Elements.new_ fits nil (2 * vector.storage.length))
  else some vector.storage

/-- `Vector>>append:`. -/
def append_ (fits : Nat → Bool) (nil : Object) (vector : Vector Object) (element : Object) :
    Option (Vector Object) := do
  let storage ← (← vector.expanded fits nil).at_put_ vector.last element
  return { vector with storage := storage, last := vector.last + 1 }

/-- `Vector>>remove`, with its answer and the vector as it is afterwards. -/
def remove (vector : Vector Object) : Option (Object × Vector Object) :=
  if vector.last > vector.first then do
    let last := vector.last - 1
    return (← vector.storage.at_ last, { vector with last := last })
  else none

/-- `Vector>>isEmpty`. -/
def isEmpty (vector : Vector Object) : Bool := vector.last == vector.first

/-- `Vector>>size`. -/
def size (vector : Vector Object) : Int := vector.last - vector.first

section

variable {Answer State : Type}

/-- `Vector>>doIndexes:`. The loop has no more rounds than there are indexes. -/
def doIndexes_ (vector : Vector Object) (block : Int → State → Statement Answer State)
    (state : State) : Statement Answer State :=
  Prod.snd <$> whileTrue (fun loop => loop.1 < vector.last) (countOn block)
    ((vector.last - vector.first).toNat + 1) (vector.first, state)

/-- `Vector>>do:`, for a block that leaves the vector alone. -/
def do_ (vector : Vector Object) (block : Object → State → Statement Answer State)
    (state : State) : Statement Answer State :=
  vector.doIndexes_ (fun i state => do block (← demand (vector.at_ i)) state) state

end

/-- The elements `Vector>>do:` evaluates its block with, in order. -/
def visited (vector : Vector Object) : Option (List Object) :=
  (List.range (vector.last - vector.first).toNat).mapM fun (index : Nat) =>
    vector.at_ (vector.first + index)

/-- The vector stands for the list. -/
structure Represents (vector : Vector Object) (contents : List Object) : Prop where
  first : vector.first = 1
  last : vector.last = contents.length + 1
  stored : contents <+: vector.storage
  room : vector.storage ≠ []

theorem represents_new (nil : Object) :
    ∃ vector, new anySize nil = some vector ∧ vector.Represents [] := by
  refine ⟨⟨1, 1, List.replicate 50 nil⟩, rfl, rfl, rfl, List.nil_prefix, ?_⟩
  exact List.cons_ne_nil _ _

/-- A vector stands for one list. -/
theorem Represents.unique {vector : Vector Object} {contents others : List Object}
    (represents : vector.Represents contents) (other : vector.Represents others) :
    contents = others := by
  have last := represents.last
  have last' := other.last
  rw [List.prefix_iff_eq_take.mp represents.stored, List.prefix_iff_eq_take.mp other.stored]
  congr 1
  omega

/-- A storage that is full can be doubled. -/
def CanGrow (fits : Nat → Bool) (vector : Vector Object) : Prop :=
  vector.last ≥ vector.storage.length → fits (2 * vector.storage.length) = true

theorem canGrow_anySize (vector : Vector Object) : vector.CanGrow anySize := fun _ => rfl

/-- Expanded or not, the storage has the contents and then a free slot. -/
theorem Represents.expanded {vector : Vector Object} {contents : List Object} {fits : Nat → Bool}
    (represents : vector.Represents contents) (canGrow : vector.CanGrow fits) (nil : Object) :
    ∃ slot spare, vector.expanded fits nil = some (contents ++ slot :: spare) := by
  obtain ⟨rest, stored⟩ := represents.stored
  have last := represents.last
  have nonempty := List.length_pos_iff.mpr represents.room
  unfold Vector.expanded
  by_cases full : vector.last ≥ vector.storage.length
  · have spare : rest ++ List.replicate vector.storage.length nil ≠ [] := by
      simp only [ne_eq, List.append_eq_nil_iff, List.replicate_eq_nil_iff]
      omega
    obtain ⟨slot, others, split⟩ := List.exists_cons_of_ne_nil spare
    refine ⟨slot, others, ?_⟩
    have double : (2 * (vector.storage.length : Int)).toNat = 2 * vector.storage.length := by omega
    rw [if_pos full, Elements.new_, double, if_pos ⟨by omega, canGrow full⟩]
    simp only [Option.bind_eq_bind, Option.bind_some]
    have half : 2 * vector.storage.length - vector.storage.length = vector.storage.length := by
      omega
    rw [Elements.copyInto_eq _ _ (by simp; omega), List.drop_replicate, half, ← split]
    have whole : vector.storage ++ List.replicate vector.storage.length nil =
        contents ++ (rest ++ List.replicate vector.storage.length nil) := by
      rw [← List.append_assoc, stored]
    rw [whole]
  · have spare : rest ≠ [] := by
      rintro rfl
      rw [List.append_nil] at stored
      rw [← stored, last] at full
      omega
    obtain ⟨slot, others, rfl⟩ := List.exists_cons_of_ne_nil spare
    exact ⟨slot, others, by rw [if_neg full, stored]⟩

theorem Represents.append {vector : Vector Object} {contents : List Object} {fits : Nat → Bool}
    (represents : vector.Represents contents) (canGrow : vector.CanGrow fits)
    (nil element : Object) :
    ∃ grown, vector.append_ fits nil element = some grown ∧
      grown.Represents (contents ++ [element]) := by
  obtain ⟨slot, spare, storage⟩ := represents.expanded canGrow nil
  have last := represents.last
  have written : (contents ++ slot :: spare).set contents.length element =
      contents ++ [element] ++ spare := by
    rw [List.set_append_right _ _ (Nat.le_refl _), Nat.sub_self]
    simp
  refine ⟨⟨vector.first, vector.last + 1, contents ++ [element] ++ spare⟩, ?_, represents.first,
    ?_, List.prefix_append _ _, by simp⟩
  · unfold append_
    simp only [storage, Option.bind_eq_bind, Option.bind_some]
    rw [last, Elements.at_put_succ _ _ (by simp), written]
    rfl
  · rw [last]
    simp

/-- Every element is at its index. -/
theorem Represents.at_succ {vector : Vector Object} {contents : List Object}
    (represents : vector.Represents contents) {index : Nat} (inside : index < contents.length) :
    vector.at_ (index + 1) = some contents[index] := by
  obtain ⟨rest, stored⟩ := represents.stored
  have first := represents.first
  have last := represents.last
  rw [at_, if_pos ⟨by omega, by omega⟩, Elements.at_succ, ← stored,
    List.getElem?_append_left inside]
  exact List.getElem?_eq_getElem inside

/-- `remove` answers and drops the last element. -/
theorem Represents.remove {vector : Vector Object} {contents : List Object}
    (represents : vector.Represents contents) {element : Object}
    (isLast : contents.getLast? = some element) :
    vector.remove = some (element, { vector with last := vector.last - 1 }) ∧
      Represents { vector with last := vector.last - 1 } contents.dropLast := by
  obtain ⟨before, rfl⟩ := List.getLast?_eq_some_iff.mp isLast
  obtain ⟨rest, stored⟩ := represents.stored
  have first := represents.first
  have last := represents.last
  have position : vector.last - 1 = (before.length : Int) + 1 := by
    rw [last, List.length_append, List.length_singleton]
    omega
  have there : vector.storage[before.length]? = some element := by
    rw [← stored, List.append_assoc, List.getElem?_append_right (Nat.le_refl _), Nat.sub_self]
    rfl
  constructor
  · unfold Vector.remove
    rw [if_pos (by omega), position]
    dsimp only
    rw [Elements.at_succ, there]
    rfl
  · rw [List.dropLast_concat]
    refine ⟨first, position, ?_, represents.room⟩
    rw [← stored, List.append_assoc]
    exact List.prefix_append _ _

theorem Represents.isEmpty {vector : Vector Object} {contents : List Object}
    (represents : vector.Represents contents) : vector.isEmpty = contents.isEmpty := by
  rw [Vector.isEmpty, represents.first, represents.last, Bool.eq_iff_iff, beq_iff_eq,
    List.isEmpty_iff_length_eq_zero]
  omega

theorem Represents.size {vector : Vector Object} {contents : List Object}
    (represents : vector.Represents contents) : vector.size = contents.length := by
  rw [Vector.size, represents.first, represents.last]
  omega

theorem Represents.remove_empty {vector : Vector Object} (represents : vector.Represents []) :
    vector.remove = none := by
  have first := represents.first
  have last := represents.last
  rw [Vector.remove, if_neg]
  simp only [List.length_nil] at last
  omega

theorem Represents.visited {vector : Vector Object} {contents : List Object}
    (represents : vector.Represents contents) : vector.visited = some contents := by
  have count : (vector.last - vector.first).toNat = contents.length := by
    rw [represents.first, represents.last]
    omega
  unfold Vector.visited
  rw [count]
  refine mapM_range_eq contents fun index inside => ?_
  rw [represents.first, Int.add_comm, represents.at_succ inside]
  exact (List.getElem?_eq_getElem inside).symm

/-- `do:` evaluates its block with the elements in order, for any block. -/
theorem Represents.do_ {vector : Vector Object} {contents : List Object}
    (represents : vector.Represents contents) {Answer State : Type}
    (block : Object → State → Statement Answer State) (state : State) :
    vector.do_ block state =
      contents.foldlM (fun state element => block element state) state := by
  have last := represents.last
  unfold Vector.do_ doIndexes_
  have always : ∀ _ : State, True := fun _ => trivial
  rw [whileTrue_countOn (fun _ _ _ => rfl) (fun _ _ after _ _ => always after) _ _ _
    (always state) (Nat.lt_succ_self _), represents.first,
    show vector.last = 1 + (contents.length : Int) by omega]
  apply foldlM_range_of_reads
  intro index inside
  rw [Int.add_comm]
  exact represents.at_succ inside

end Vector
end Somr.Library
