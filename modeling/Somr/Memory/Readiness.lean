import Somr.Memory.Rules

/-!
Owns what an object must have been given before it can be scanned, and that
collections, allocations and assignments keep objects in that state.

`Scannable` is what the collector needs. `Ready` is the invariant behind it: which
slots of an object of each class hold pointers, and that a method's
`numberOfConstants` is the number of its literals.
-/

namespace Somr.Memory

open Somr.Foundation

/-! ### Scanning -/

/-- The slot is `NULL`, nil or a heap object. -/
def Machine.SlotOk (machine : Machine) (slot : Slot) : Prop :=
  ∃ address, slot = .pointer address ∧
    (address = 0 ∨ address = machine.nilObject ∨ address ∈ machine.heap.addresses)

/-- `GetNumberOfMarkableFields` counts only slots of the object, and every slot it
enumerates can be followed. -/
def Machine.Scannable (machine : Machine) (cell : Cell) : Prop :=
  ∃ count, cell.getNumberOfMarkableFields machine.heap = some count ∧
    count ≤ cell.ownSlots.length ∧
      ∀ idx : Nat, (idx : Int) < count →
        ∃ slot, cell.getMarkableFieldObj machine.heap idx = some slot ∧ machine.SlotOk slot

/-- The objects held by the root table and the uninterruptable array can be scanned. -/
def Machine.RootsScannable (machine : Machine) : Prop :=
  ∀ address ∈ machine.roots, ∀ cell, machine.heap.cell? address = some cell →
    machine.Scannable cell

/-! ### Ready objects -/

namespace Cell

/-- The slots that marking enumerates in a finished object. -/
def pointerSlots (cell : Cell) : List Slot :=
  match cell.kind with
  | some .vmPrimitive => cell.fields.take 3
  | some .vmEvaluationPrimitive => cell.fields.take 3 ++ [cell.numberOfArguments]
  | some .vmArray | some .vmFrame | some .vmMethod => cell.fields ++ cell.entries
  | _ => cell.fields

/-- The object has a class, and what marking counts with lies in its memory. -/
structure Counted (heap : Heap) (cell : Cell) : Prop where
  kind : cell.kind ≠ none
  array : cell.kind = some .vmArray ∨ cell.kind = some .vmFrame → cell.unbacked = 0
  primitive : cell.kind = some .vmPrimitive ∨ cell.kind = some .vmEvaluationPrimitive →
    cell.fields.length = 5
  method : cell.kind = some .vmMethod →
    heap.getEmbeddedInteger? cell.fields[Member.numberOfConstants.index]? =
      some cell.entries.length

variable {heap : Heap} {cell : Cell}

theorem Counted.getNumberOfMarkableFields (counted : cell.Counted heap) :
    cell.getNumberOfMarkableFields heap = some (cell.pointerSlots.length : Int) := by
  have array := counted.array
  have primitive := counted.primitive
  have method := counted.method
  unfold Cell.getNumberOfMarkableFields Cell.getNumberOfIndexableFields pointerSlots
  cases kind : cell.kind with
  | none => exact absurd kind counted.kind
  | some kind' =>
      cases kind' with
      | vmPrimitive => simp [primitive (Or.inl kind)]
      | vmEvaluationPrimitive => simp [primitive (Or.inr kind)]
      | vmMethod => simp [method kind]
      | vmArray => simp [array (Or.inl kind)]
      | vmFrame => simp [array (Or.inr kind)]
      | _ => simp

theorem Counted.length_le (counted : cell.Counted heap) :
    cell.pointerSlots.length ≤ cell.ownSlots.length := by
  have primitive := counted.primitive
  unfold pointerSlots ownSlots
  cases kind : cell.kind with
  | none => simp
  | some kind' =>
      cases kind' with
      | vmEvaluationPrimitive => simp [primitive (Or.inr kind)]
      | _ => simp only [List.length_append, List.length_take]; omega

/-- Marking enumerates the slots in order. -/
theorem Counted.getMarkableFieldObj (counted : cell.Counted heap) {idx : Nat}
    (inside : idx < cell.pointerSlots.length) :
    cell.getMarkableFieldObj heap idx = cell.pointerSlots[idx]? := by
  have array := counted.array
  have primitive := counted.primitive
  have method := counted.method
  unfold Cell.getMarkableFieldObj Cell.getNumberOfIndexableFields
  unfold pointerSlots at inside ⊢
  have behind : ∀ count : Int, count = cell.entries.length →
      idx < (cell.fields ++ cell.entries).length →
      (if idx < cell.fields.length then cell.fields[idx]?
        else if (idx : Int) < cell.fields.length + count then
          cell.entries[idx - cell.fields.length]?
        else some (.pointer 0)) = (cell.fields ++ cell.entries)[idx]? := by
    rintro _ rfl inside
    rw [List.length_append] at inside
    rw [List.getElem?_append, if_pos (show (idx : Int) < _ by omega)]
  cases kind : cell.kind with
  | none => exact absurd kind counted.kind
  | some kind' =>
      rw [kind] at inside
      cases kind' with
      | vmPrimitive =>
          simp only [List.length_take, primitive (Or.inl kind)] at inside ⊢
          rw [if_pos (by omega), List.getElem?_take, if_pos (by omega)]
      | vmEvaluationPrimitive =>
          simp only [List.length_append, List.length_take, primitive (Or.inr kind),
            List.length_singleton] at inside ⊢
          rw [List.getElem?_append, List.length_take, primitive (Or.inr kind), List.getElem?_take]
          by_cases last : idx = 3
          · simp [last]
          · have before : idx < 3 := by omega
            simp [before]
      | vmMethod => exact behind _ (by simp [method kind]) inside
      | vmArray => exact behind _ (by simp [array (Or.inl kind)]) inside
      | vmFrame => exact behind _ (by simp [array (Or.inr kind)]) inside
      | _ => simp [show idx < cell.fields.length from inside]

/-- Marking finds every pointer of the object. -/
theorem Counted.mem_scanned (counted : cell.Counted heap) {address : Address}
    (there : .pointer address ∈ cell.pointerSlots) : address ∈ cell.scanned heap := by
  obtain ⟨idx, inside, found⟩ := List.getElem_of_mem there
  unfold Cell.scanned
  rw [counted.getNumberOfMarkableFields]
  refine List.mem_filterMap.mpr ⟨idx, List.mem_range.mpr inside, ?_⟩
  rw [counted.getMarkableFieldObj inside, List.getElem?_eq_getElem inside, found]

end Cell

namespace Machine

/-- A finished object. -/
structure CellReady (machine : Machine) (cell : Cell) : Prop extends
    cell.Counted machine.heap where
  slots : ∀ slot ∈ cell.pointerSlots, machine.SlotOk slot

variable {machine after : Machine} {cell : Cell}

theorem CellReady.scannable (ready : machine.CellReady cell) : machine.Scannable cell := by
  refine ⟨_, ready.getNumberOfMarkableFields, ?_, fun idx inside => ?_⟩
  · exact_mod_cast ready.length_le
  · have inside : idx < cell.pointerSlots.length := by exact_mod_cast inside
    refine ⟨cell.pointerSlots[idx], ?_, ready.slots _ (List.getElem_mem inside)⟩
    rw [ready.getMarkableFieldObj inside, List.getElem?_eq_getElem inside]

/-- What is written is one of the slots, or the slot there was. -/
theorem mem_pointerSlots_write {slot other : Slot} {place : Place}
    (there : other ∈ (cell.write slot place).pointerSlots) :
    other ∈ cell.pointerSlots ∨ other = slot := by
  have fields : ∀ index, other ∈ cell.fields.set index slot → other ∈ cell.fields ∨ other = slot :=
    fun index there => List.mem_or_eq_of_mem_set there
  have first : ∀ index, other ∈ (cell.fields.set index slot).take 3 →
      other ∈ cell.fields.take 3 ∨ other = slot := by
    intro index
    rw [List.take_set]
    exact fun there => List.mem_or_eq_of_mem_set there
  have entries : ∀ index, other ∈ cell.entries.set index slot →
      other ∈ cell.entries ∨ other = slot := fun index there => List.mem_or_eq_of_mem_set there
  unfold Cell.pointerSlots at there ⊢
  rw [(write_kind cell slot place).1] at there
  cases place <;> cases kind : cell.kind <;> rw [kind] at there <;> grind [Cell.write]

/-- An object that is finished stays so when a member is assigned that does not count. -/
theorem CellReady.write (ready : machine.CellReady cell) {slot : Slot} {place : Place}
    (ok : machine.SlotOk slot)
    (counts : cell.kind = some .vmMethod → place ≠ .field Member.numberOfConstants.index) :
    machine.CellReady (cell.write slot place) := by
  have kind := (write_kind cell slot place).1
  refine ⟨⟨kind ▸ ready.kind, fun isArray => ?_, fun isPrimitive => ?_, fun isMethod => ?_⟩,
    fun other there => ?_⟩
  · rw [kind] at isArray
    exact (write_unbacked cell slot place).trans (ready.array isArray)
  · rw [kind] at isPrimitive
    have length := ready.primitive isPrimitive
    cases place <;> simpa [Cell.write] using length
  · rw [kind] at isMethod
    have count := ready.method isMethod
    cases place with
    | field index =>
        have other : index ≠ Member.numberOfConstants.index :=
          fun same => counts isMethod (congrArg Place.field same)
        simpa [Cell.write, List.getElem?_set_ne other] using count
    | entry index => simpa [Cell.write] using count
    | numberOfArguments => exact count
  · rcases mem_pointerSlots_write there with old | rfl
    · exact ready.slots other old
    · exact ok

/-! ### Changes of the heap -/

/-- The objects that are kept, and the values of Integers among them. -/
structure Carries (kept : Address → Prop) (machine after : Machine) : Prop where
  nilObject : after.nilObject = machine.nilObject
  objects : ∀ address ∈ machine.heap.addresses, kept address → address ∈ after.heap.addresses
  integers : ∀ address value, kept address →
    machine.heap.getEmbeddedInteger? (some (.pointer address)) = some value →
      after.heap.getEmbeddedInteger? (some (.pointer address)) = some value

theorem getEmbeddedInteger?_eq_some {heap : Heap} {slot : Option Slot} {value : Int}
    (found : heap.getEmbeddedInteger? slot = some value) :
    ∃ address cell, slot = some (.pointer address) ∧ heap.cell? address = some cell ∧
      cell.kind = some .vmInteger ∧ cell.embeddedInteger = value := by
  unfold Heap.getEmbeddedInteger? at found
  cases slot with
  | none => exact nomatch found
  | some slot =>
      cases slot with
      | raw => exact nomatch found
      | pointer address =>
          simp only at found
          cases there : heap.cell? address with
          | none => rw [there] at found; exact nomatch found
          | some cell =>
              rw [there] at found
              simp only at found
              split at found
              · next isInteger =>
                  exact ⟨address, cell, rfl, there, isInteger, Option.some.inj found⟩
              · exact nomatch found

theorem getEmbeddedInteger?_of_cell {heap : Heap} {address : Address}
    (found : heap.cell? address = some cell) (isInteger : cell.kind = some .vmInteger) :
    heap.getEmbeddedInteger? (some (.pointer address)) = some cell.embeddedInteger := by
  simp [Heap.getEmbeddedInteger?, found, isInteger]

/-- A finished object stays one where the objects it refers to are kept. -/
theorem CellReady.carried {kept : Address → Prop} (ready : machine.CellReady cell)
    (carries : Carries kept machine after)
    (refers : ∀ address ∈ machine.heap.addresses, .pointer address ∈ cell.pointerSlots →
      kept address) : after.CellReady cell := by
  refine ⟨⟨ready.kind, ready.array, ready.primitive, fun isMethod => ?_⟩, fun slot there => ?_⟩
  · have count := ready.method isMethod
    obtain ⟨address, _, isPointer, found, -⟩ := getEmbeddedInteger?_eq_some count
    rw [isPointer] at count ⊢
    refine carries.integers address _ (refers address (Heap.mem_addresses found) ?_) count
    unfold Cell.pointerSlots
    rw [isMethod]
    exact List.mem_append_left _ (List.mem_of_getElem? isPointer)
  · obtain ⟨address, rfl, null | nil | inside⟩ := ready.slots slot there
    · exact ⟨address, rfl, Or.inl null⟩
    · exact ⟨address, rfl, Or.inr (Or.inl (nil.trans carries.nilObject.symm))⟩
    · exact ⟨address, rfl, Or.inr (Or.inr (carries.objects address inside
        (refers address inside there)))⟩

theorem SlotOk.of_addresses {slot : Slot} (ok : machine.SlotOk slot)
    (nilObject : after.nilObject = machine.nilObject)
    (addresses : machine.heap.addresses ⊆ after.heap.addresses) : after.SlotOk slot := by
  obtain ⟨address, rfl, null | nil | inside⟩ := ok
  · exact ⟨address, rfl, Or.inl null⟩
  · exact ⟨address, rfl, Or.inr (Or.inl (nil.trans nilObject.symm))⟩
  · exact ⟨address, rfl, Or.inr (Or.inr (addresses inside))⟩

theorem SlotOk.carried {slot : Slot} (ok : machine.SlotOk slot)
    (carries : Carries (fun _ => True) machine after) : after.SlotOk slot :=
  ok.of_addresses carries.nilObject fun address inside => carries.objects address inside trivial

/-- A change of anything but the heap. -/
theorem carries_of_heap (nilObject : after.nilObject = machine.nilObject)
    (heap : after.heap = machine.heap) : Carries (fun _ => True) machine after :=
  ⟨nilObject, fun _ inside _ => heap ▸ inside, fun _ _ _ value => heap ▸ value⟩

theorem mem_addresses_collected {address : Address} (live : machine.Live address) :
    address ∈ machine.collected.heap.addresses := by
  obtain ⟨cell, found⟩ := Heap.exists_cell live.mem
  have kept : machine.collected.heap.cell? address = some cell := by
    rw [collected_cell, if_pos ((marked_iff machine address).mpr live), found]
  exact Heap.mem_addresses kept

theorem carries_collected (machine : Machine) :
    Carries machine.Live machine machine.collected := by
  refine ⟨rfl, fun address _ live => mem_addresses_collected live, ?_⟩
  intro address value live count
  obtain ⟨_, cell, same, found, isInteger, rfl⟩ := getEmbeddedInteger?_eq_some count
  obtain rfl := Slot.pointer.inj (Option.some.inj same)
  refine getEmbeddedInteger?_of_cell ?_ isInteger
  rw [collected_cell, if_pos ((marked_iff machine address).mpr live), found]

/-- Everything an object of which all slots are counted refers to is live with it. -/
theorem live_of_slot {object address : Address} (live : machine.Live object)
    (found : machine.heap.cell? object = some cell) (counted : cell.Counted machine.heap)
    (inside : address ∈ machine.heap.addresses) (there : .pointer address ∈ cell.pointerSlots) :
    machine.Live address := by
  refine .step live ?_ inside
  unfold Heap.successors
  rw [found]
  exact counted.mem_scanned there

/-- The machine with a new object that the uninterruptable array holds. -/
def extended (machine : Machine) (object : Address) (cell : Cell) : Machine :=
  { machine with
    heap := machine.heap ++ [(object, cell)]
    numAlloc := machine.numAlloc + 1
    uninterruptable := machine.uninterruptable ++ [object] }

theorem extended_cell {object : Address} (free : object ∉ machine.heap.addresses)
    (cell : Cell) (other : Address) :
    (machine.extended object cell).heap.cell? other =
      if other == object then some cell else machine.heap.cell? other :=
  Heap.cell?_append machine.heap object other cell free

theorem addresses_extended (machine : Machine) (object : Address) (cell : Cell) :
    (machine.extended object cell).heap.addresses = machine.heap.addresses ++ [object] :=
  List.map_append

theorem carries_extended {object : Address} (free : object ∉ machine.heap.addresses)
    (cell : Cell) : Carries (fun _ => True) machine (machine.extended object cell) := by
  have kept : ∀ other found, machine.heap.cell? other = some found →
      (machine.extended object cell).heap.cell? other = some found := by
    intro other found there
    have differs : (other == object) = false :=
      beq_false_of_ne fun same => free (same ▸ Heap.mem_addresses there)
    rw [extended_cell free, differs]
    exact there
  refine ⟨rfl, fun address inside _ => ?_, fun address value _ count => ?_⟩
  · obtain ⟨found, there⟩ := Heap.exists_cell inside
    exact Heap.mem_addresses (kept address found there)
  · obtain ⟨_, found, same, there, isInteger, rfl⟩ := getEmbeddedInteger?_eq_some count
    obtain rfl := Slot.pointer.inj (Option.some.inj same)
    exact getEmbeddedInteger?_of_cell (kept address found there) isInteger

/-- An object that is no Integer, or stays the Integer it is, is assigned to. -/
theorem carries_withCell {object : Address} {old : Cell}
    (found : machine.heap.cell? object = some old)
    (integer : old.kind = some .vmInteger →
      cell.kind = some .vmInteger ∧ cell.embeddedInteger = old.embeddedInteger) :
    Carries (fun _ => True) machine (machine.withCell object cell) := by
  refine ⟨rfl, fun address inside _ => ?_, fun address value _ count => ?_⟩
  · rw [addresses_withCell (Heap.mem_addresses found)]
    exact inside
  · obtain ⟨_, other, same, there, isInteger, rfl⟩ := getEmbeddedInteger?_eq_some count
    obtain rfl := Slot.pointer.inj (Option.some.inj same)
    by_cases same : (address == object) = true
    · obtain rfl := eq_of_beq same
      rw [found] at there
      obtain rfl := Option.some.inj there
      rw [← (integer isInteger).2]
      refine getEmbeddedInteger?_of_cell ?_ (integer isInteger).1
      exact (Heap.cell?_assign ..).trans (if_pos same)
    · refine getEmbeddedInteger?_of_cell ?_ isInteger
      exact (Heap.cell?_assign ..).trans ((if_neg same).trans there)

/-! ### Ready machines -/

/-- Every object but the pending ones is finished, and the root table refers to objects. -/
structure ReadyBut (pending : Address → Prop) (machine : Machine) : Prop where
  cells : ∀ address cell, machine.heap.cell? address = some cell → ¬ pending address →
    machine.CellReady cell
  globals : ∀ value ∈ machine.rootTable.map Prod.snd, value = 0 ∨ value ∈ machine.heap.addresses

variable {pending : Address → Prop}

theorem ReadyBut.mono {pending' : Address → Prop} (ready : machine.ReadyBut pending)
    (fewer : ∀ address, pending address → pending' address) : machine.ReadyBut pending' :=
  ⟨fun address cell found finished =>
    ready.cells address cell found fun isPending => finished (fewer address isPending),
    ready.globals⟩

/-- A change of anything but the heap, nil and the root table. -/
theorem ReadyBut.of_heap (ready : machine.ReadyBut pending)
    (nilObject : after.nilObject = machine.nilObject) (heap : after.heap = machine.heap)
    (rootTable : after.rootTable = machine.rootTable) : after.ReadyBut pending := by
  refine ⟨fun address cell found finished => ?_, fun value there => ?_⟩
  · rw [heap] at found
    exact (ready.cells address cell found finished).carried (carries_of_heap nilObject heap)
      fun _ _ _ => trivial
  · rw [rootTable] at there
    rw [heap]
    exact ready.globals value there

theorem ReadyBut.collected (ready : machine.ReadyBut pending) :
    machine.collected.ReadyBut pending := by
  refine ⟨fun address cell found finished => ?_, fun value there => ?_⟩
  · rw [collected_cell] at found
    by_cases marked : machine.marked.contains address = true
    · rw [if_pos marked] at found
      have live := (marked_iff machine address).mp marked
      have cellReady := ready.cells address cell found finished
      exact cellReady.carried (carries_collected machine) fun other inside there =>
        live_of_slot live found cellReady.toCounted inside there
    · exact nomatch (if_neg marked).symm.trans found
  · rcases ready.globals value there with null | inside
    · exact Or.inl null
    · exact Or.inr (mem_addresses_collected (.root (List.mem_append_left _ there) inside))

theorem ReadyBut.extended {object : Address} (ready : machine.ReadyBut pending)
    (free : object ∉ machine.heap.addresses) {cell : Cell} :
    (machine.extended object cell).ReadyBut fun address => pending address ∨ address = object := by
  have carries := carries_extended free cell
  refine ⟨fun address found there finished => ?_, fun value there => ?_⟩
  · have finished := not_or.mp finished
    rw [extended_cell free, beq_false_of_ne finished.2] at there
    exact (ready.cells address found there finished.1).carried carries fun _ _ _ => trivial
  · exact (ready.globals value there).imp_right fun inside => carries.objects value inside trivial

/-- A pending object that is finished by now. -/
theorem ReadyBut.finish {object : Address}
    (ready : machine.ReadyBut fun address => pending address ∨ address = object)
    (finished : ∀ cell, machine.heap.cell? object = some cell → machine.CellReady cell) :
    machine.ReadyBut pending := by
  refine ⟨fun address cell found isFinished => ?_, ready.globals⟩
  by_cases same : address = object
  · exact finished cell (same ▸ found)
  · exact ready.cells address cell found (not_or.mpr ⟨isFinished, same⟩)

/-- The object of a pending address is replaced by a finished one, or stays pending. -/
theorem ReadyBut.withCell {object : Address} {old : Cell} (ready : machine.ReadyBut pending)
    (found : machine.heap.cell? object = some old)
    (integer : old.kind = some .vmInteger →
      cell.kind = some .vmInteger ∧ cell.embeddedInteger = old.embeddedInteger)
    {pending' : Address → Prop} (fewer : ∀ address, pending address → address ≠ object →
      pending' address)
    (finished : ¬ pending' object → (machine.withCell object cell).CellReady cell) :
    (machine.withCell object cell).ReadyBut pending' := by
  have carries := carries_withCell found integer
  refine ⟨fun address other there isFinished => ?_, fun value there => ?_⟩
  · have there : (if (address == object) = true then some cell else machine.heap.cell? address) =
      some other := (Heap.cell?_assign ..).symm.trans there
    by_cases same : (address == object) = true
    · rw [if_pos same] at there
      obtain rfl := Option.some.inj there
      exact finished (eq_of_beq same ▸ isFinished)
    · rw [if_neg same] at there
      refine (ready.cells address other there fun isPending => isFinished ?_).carried carries
        fun _ _ _ => trivial
      exact fewer address isPending fun equal => same (beq_iff_eq.mpr equal)
  · exact (ready.globals value there).imp_right fun inside => carries.objects value inside trivial

end Machine
end Somr.Memory
