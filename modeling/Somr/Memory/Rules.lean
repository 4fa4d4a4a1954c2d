import Somr.Memory.Machine

/-!
Owns the rules of the memory operations: what has to be shown of a relation and
of pre- and postconditions for each of them. Nothing here depends on the
relation.
-/

namespace Somr.Memory

open Somr.Foundation Process

/-! ### Cells -/

namespace Heap

theorem cell?_eq_none {heap : Heap} {address : Address} (free : address ∉ heap.addresses) :
    heap.cell? address = none := by
  unfold cell?
  rw [← Option.not_isSome_iff_eq_none, valueOf_beq_isSome]
  exact free

theorem mem_addresses {heap : Heap} {address : Address} {cell : Cell}
    (found : heap.cell? address = some cell) : address ∈ heap.addresses := by
  unfold cell? at found
  exact valueOf_beq_isSome.mp (by rw [found]; rfl)

theorem exists_cell {heap : Heap} {address : Address} (inside : address ∈ heap.addresses) :
    ∃ cell, heap.cell? address = some cell :=
  Option.isSome_iff_exists.mp (valueOf_beq_isSome.mpr inside)

theorem cell?_assign (heap : Heap) (object other : Address) (cell : Cell) :
    Heap.cell? (assign (fun a b => a == b) object cell heap) other =
      if other == object then some cell else heap.cell? other :=
  valueOf_beq_assign object other cell heap

theorem cell?_append (heap : Heap) (object other : Address) (cell : Cell)
    (free : object ∉ heap.addresses) :
    Heap.cell? (heap ++ [(object, cell)]) other =
      if other == object then some cell else heap.cell? other := by
  unfold cell?
  rw [valueOf_append, isKey]
  by_cases same : (other == object) = true
  · have absent := cell?_eq_none free
    unfold cell? at absent
    rw [eq_of_beq same, absent]
    simp [valueOf]
  · cases found : valueOf (fun a b => a == b) other heap with
    | none => simp [valueOf, same]
    | some found => simp [same]

theorem addresses_assign (heap : Heap) {object : Address} {cell : Cell}
    (inside : object ∈ heap.addresses) :
    Heap.addresses (assign (fun a b => a == b) object cell heap) = heap.addresses := by
  unfold addresses
  rw [keys_assign, isKey, valueOf_beq_isSome.mpr inside]
  rfl

end Heap

namespace Machine

variable {relation : RunRelation Event Machine} {pre : Machine → Prop}

theorem addresses_withCell {machine : Machine} {object : Address}
    (inside : object ∈ machine.heap.addresses) (cell : Cell) :
    (machine.withCell object cell).heap.addresses = machine.heap.addresses :=
  Heap.addresses_assign machine.heap inside

/-- The machine with an object held by the uninterruptable array. -/
def holding (machine : Machine) (object : Address) : Machine :=
  { machine with uninterruptable := machine.uninterruptable ++ [object] }

theorem collected_cell (machine : Machine) (address : Address) :
    machine.collected.heap.cell? address =
      if machine.marked.contains address then machine.heap.cell? address else none :=
  valueOf_beq_filter machine.marked.contains address machine.heap

theorem marked_iff (machine : Machine) (address : Address) :
    machine.marked.contains address = true ↔ machine.Live address := by
  rw [List.contains_iff_mem]
  exact mem_marked_iff

theorem placed_cell {machine : Machine} {object : Address} (cell : Cell)
    (free : object ∉ machine.heap.addresses) (other : Address) :
    (machine.placed object cell).heap.cell? other =
      if other == object then some cell else machine.heap.cell? other :=
  Heap.cell?_append machine.heap object other _ free

/-! ### Rules -/

/-- A step that takes references away is followed by its event. -/
theorem dropping_triple {change : Machine → Machine} {post : Unit → Machine → Prop}
    (related : ∀ machine, pre machine → relation.allowed (.dropped machine (change machine)) →
      relation.holds machine [.dropped machine (change machine)] (change machine))
    (ends : ∀ machine, pre machine → relation.allowed (.dropped machine (change machine)) →
      post () (change machine)) :
    Triple relation pre (dropping change) post := by
  intro machine isPre allowed
  have allowedHere := allowed (.dropped machine (change machine)) List.mem_cons_self
  exact ⟨related machine isPre allowedHere, fun _ _ => ends machine isPre allowedHere⟩

theorem collect_triple {post : Unit → Machine → Prop}
    (starts : ∀ machine, pre machine → relation.allowed (.collection machine) →
      relation.holds machine [.collection machine] machine)
    (related : ∀ machine, pre machine → relation.allowed (.collection machine) →
      relation.allowed (.dropped machine machine.collected) →
        relation.holds machine [.dropped machine machine.collected] machine.collected)
    (ends : ∀ machine, pre machine → relation.allowed (.collection machine) →
      relation.allowed (.dropped machine machine.collected) → post () machine.collected) :
    Triple relation pre collect post := by
  refine .bind _ (triple_emit starts) fun _ => dropping_triple ?_ ?_
  · rintro machine ⟨isPre, allowed⟩ allowedDrop
    exact related machine isPre allowed allowedDrop
  · rintro machine ⟨isPre, allowed⟩ allowedDrop
    exact ends machine isPre allowed allowedDrop

variable (allocator : Allocator)

theorem collectOnDemand_triple {post : Machine → Prop}
    (starts : ∀ machine, pre machine → relation.allowed (.collection machine) →
      relation.holds machine [.collection machine] machine)
    (collects : ∀ machine, pre machine → relation.allowed (.collection machine) →
      relation.allowed (.dropped machine machine.collected) →
        relation.holds machine [.dropped machine machine.collected] machine.collected ∧
          post machine.collected)
    (stays : ∀ machine, pre machine → post machine) :
    Triple relation pre (collectOnDemand allocator) fun _ => post := by
  refine .bind _ triple_read fun before => .ite (fun _ => ?_) fun _ => ?_
  · exact collect_triple (fun machine holds => starts machine holds.2)
      (fun machine holds allowed drops => (collects machine holds.2 allowed drops).1)
      fun machine holds allowed drops => (collects machine holds.2 allowed drops).2
  · exact triple_pure fun machine holds => stays machine holds.2

/-- An object is allocated at an allocation point, after the collection there. -/
theorem allocateObject_triple (site : AllocationSite) (cell : Cell) (middle : Machine → Prop)
    {post : Address → Machine → Prop}
    (point : ∀ machine, pre machine → relation.allowed (.allocation site machine) →
      relation.holds machine [.allocation site machine] machine)
    (starts : ∀ machine, pre machine → relation.allowed (.collection machine) →
      relation.holds machine [.collection machine] machine)
    (collects : ∀ machine, pre machine → relation.allowed (.collection machine) →
      relation.allowed (.dropped machine machine.collected) →
        relation.holds machine [.dropped machine machine.collected] machine.collected ∧
          middle machine.collected)
    (stays : ∀ machine, pre machine → middle machine)
    (places : ∀ machine object, middle machine → object ≠ 0 → object ∉ machine.heap.addresses →
      relation.holds machine [] (machine.placed object cell) ∧
        relation.holds (machine.placed object cell) []
          ((machine.placed object cell).holding object) ∧
        post object ((machine.placed object cell).holding object)) :
    Triple relation pre (allocateObject allocator site cell) post := by
  have placing : Triple relation middle (placeObject allocator cell) fun object after =>
      ∃ machine, middle machine ∧ object ≠ 0 ∧ object ∉ machine.heap.addresses ∧
        after = machine.placed object cell := by
    refine .bind _ triple_read fun before => .bind _ (triple_demand _ _) fun object => ?_
    refine .bind (fun _ after => ∃ machine, middle machine ∧ object ≠ 0 ∧
      object ∉ machine.heap.addresses ∧ after = machine.placed object cell) ?_ fun _ =>
        triple_pure fun _ holds => holds
    refine triple_modify ?_ ?_
    · rintro machine ⟨placed, rfl, isPre⟩
      obtain ⟨notNull, free⟩ := allocator.free placed
      exact (places before object isPre notNull free).1
    · rintro machine ⟨placed, rfl, isPre⟩
      obtain ⟨notNull, free⟩ := allocator.free placed
      exact ⟨before, isPre, notNull, free, rfl⟩
  refine .bind _ (triple_emit point) fun _ => .bind (fun _ => middle) ?_ fun _ =>
    .bind _ placing fun object => .bind (fun _ => post object) ?_ fun _ =>
      triple_pure fun _ holds => holds
  · exact (collectOnDemand_triple allocator starts collects stays).weaken
      (fun _ holds => holds.1) fun _ _ holds => holds
  · refine .bind _ triple_read fun before => .ite (fun _ => ?_) fun _ => triple_stop _
    refine triple_modify ?_ ?_
    · rintro _ ⟨rfl, machine, isPre, notNull, free, rfl⟩
      exact (places machine object isPre notNull free).2.1
    · rintro _ ⟨rfl, machine, isPre, notNull, free, rfl⟩
      exact (places machine object isPre notNull free).2.2

/-- An array is an object of the slots that its size comes to. -/
theorem allocateArray_triple (size : Int32) {post : Address → Machine → Prop}
    (asked : ∀ machine, pre machine → relation.allowed (.array size) →
      relation.holds machine [.array size] machine)
    (allocates : relation.allowed (.array size) →
      Triple relation pre (allocateObject allocator .universe
        (.handedOut (VMArray.slotsInside size) (VMArray.slotsOutside size))) post) :
    Triple relation pre (allocateArray allocator size) post := by
  refine .bind _ (triple_emit asked) fun _ => .ite (fun _ => triple_stop _) fun _ => ?_
  rintro machine ⟨isPre, allowed⟩
  exact allocates allowed machine isPre

theorem inspect_triple (object : Address) :
    Triple relation pre (inspect object) fun cell machine =>
      machine.heap.cell? object = some cell ∧ pre machine := by
  refine .bind _ triple_read fun before => (triple_demand _ _).weaken (fun _ holds => holds) ?_
  rintro cell machine ⟨found, rfl, isPre⟩
  exact ⟨found, isPre⟩

/-- The object that `VMObject::VMObject` and the constructors of value classes leave. -/
def constructed (cell : Cell) (nilObject : Address) (kind : Kind) (numberOfFields : Nat)
    (embeddedInteger : Int) (chars : String) : Cell :=
  { cell with
    kind := some kind
    fields := initialFields nilObject numberOfFields
    embeddedInteger := embeddedInteger
    chars := chars }

theorem vmObject_triple (object : Address) (kind : Kind) (numberOfFields : Nat)
    (embeddedInteger : Int) (chars : String) {post : Unit → Machine → Prop}
    (constructs : ∀ machine cell, pre machine → machine.heap.cell? object = some cell →
      cell.kind = none → relation.holds machine []
          (machine.withCell object
            (constructed cell machine.nilObject kind numberOfFields embeddedInteger chars)) ∧
        post () (machine.withCell object
          (constructed cell machine.nilObject kind numberOfFields embeddedInteger chars))) :
    Triple relation pre (vmObject object kind numberOfFields embeddedInteger chars) post := by
  refine .bind _ (inspect_triple object) fun cell => .ite (fun raw => ?_) fun _ => triple_stop _
  refine .bind _ triple_read fun before => triple_modify ?_ ?_
  · rintro machine ⟨rfl, found, isPre⟩
    exact (constructs before cell isPre found raw).1
  · rintro machine ⟨rfl, found, isPre⟩
    exact (constructs before cell isPre found raw).2

theorem recordStore_triple (slot : Slot)
    (stores : ∀ machine value, pre machine → slot = .pointer value →
      relation.allowed (.store value machine) →
        relation.holds machine [.store value machine] machine) :
    Triple relation pre (recordStore slot) fun _ machine =>
      pre machine ∧ ∀ value, slot = .pointer value → relation.allowed (.store value machine) := by
  cases slot with
  | pointer value =>
      refine (triple_emit fun machine isPre allowed => stores machine value isPre rfl allowed).weaken
        (fun _ holds => holds) ?_
      rintro _ machine ⟨isPre, allowed⟩
      exact ⟨isPre, fun value' same => Slot.pointer.inj same ▸ allowed⟩
  | raw => exact triple_pure fun _ holds => ⟨holds, nofun⟩

theorem write_kind (cell : Cell) (slot : Slot) (place : Place) :
    (cell.write slot place).kind = cell.kind ∧ (cell.write slot place).chars = cell.chars := by
  cases place <;> exact ⟨rfl, rfl⟩

theorem write_unbacked (cell : Cell) (slot : Slot) (place : Place) :
    (cell.write slot place).unbacked = cell.unbacked := by
  cases place <;> rfl

theorem write_triple (object : Address) (place : Place) (slot : Slot)
    {post : Unit → Machine → Prop}
    (stores : ∀ machine value, pre machine → slot = .pointer value →
      relation.allowed (.store value machine) →
        relation.holds machine [.store value machine] machine)
    (writes : ∀ machine cell, pre machine →
      (∀ value, slot = .pointer value → relation.allowed (.store value machine)) →
      machine.heap.cell? object = some cell → place.inside cell = true →
      relation.allowed (.dropped machine (machine.withCell object (cell.write slot place))) →
        relation.holds machine [.dropped machine (machine.withCell object (cell.write slot place))]
            (machine.withCell object (cell.write slot place)) ∧
          post () (machine.withCell object (cell.write slot place))) :
    Triple relation pre (write object place slot) post := by
  refine .bind _ (recordStore_triple slot stores) fun _ => .bind _ (inspect_triple object)
    fun cell => .ite (fun inside => ?_) fun _ => triple_stop _
  refine dropping_triple ?_ ?_
  · rintro machine ⟨found, isPre, allowed⟩ drops
    exact (writes machine cell isPre allowed found inside drops).1
  · rintro machine ⟨found, isPre, allowed⟩ drops
    exact (writes machine cell isPre allowed found inside drops).2

end Machine
end Somr.Memory
