import Somr.Memory.Interning
import Somr.Memory.Readiness

/-!
Owns the constructors at their allocation points: whether the objects that the
root table and the uninterruptable array hold can be scanned there.

They can at every allocation point but two. `VMMethod` allocates the Integers of
its members while `numberOfConstants`, which sizes the scan, is still nil, and
`VMEvaluationPrimitive` computes its signature before its object has a class.
-/

namespace Somr.Memory

open Somr.Foundation Process

/-- The allocation point is neither in the constructor of `VMMethod` nor in
`computeSignatureString`. -/
def AllocationSite.Finished (site : AllocationSite) : Prop :=
  site ≠ .vmMethod ∧ site ≠ .computeSignatureString

/-- Nil has not been replaced by an Integer. -/
def Machine.NilIsObject (machine : Machine) : Prop :=
  machine.heap.getEmbeddedInteger? (some (.pointer machine.nilObject)) = none

/-- What is assigned to a slot is `NULL`, nil or a heap object, what is assigned to a
global is `NULL` or a heap object, and an array has a size that its constructor fills. -/
def Event.MakesScannable : Event → Prop
  | .store value machine => machine.SlotOk (.pointer value)
  | .global _ value machine => value = 0 ∨ value ∈ machine.heap.addresses
  | .array size => VMArray.Fillable size
  | _ => True

/-- At an allocation point the roots can be scanned, exactly where it is a finished one. -/
def Event.FindsReady : Event → Prop
  | .allocation site machine =>
      (site.Finished → machine.RootsScannable) ∧
        (machine.NilIsObject → machine.RootsScannable → site.Finished)
  | _ => True

/-- How a run that makes its objects scannable finds its roots. -/
def construction : RunRelation Event Machine where
  allowed := Event.MakesScannable
  holds _ events _ := ∀ event ∈ events, event.FindsReady
  refl _ := nofun
  trans early late event there := (List.mem_append.mp there).elim (early event) (late event)

namespace Machine

variable (allocator : Allocator) {start : Machine}

theorem quiet (before after : Machine) : construction.holds before [] after := nofun

/-- An event that is no allocation point. -/
theorem quiet_event {before after : Machine} {event : Event} (silent : event.FindsReady) :
    construction.holds before [event] after :=
  fun _ there => List.mem_singleton.mp there ▸ silent

/-! ### Operations from a given machine -/

/-- The machine after the collection that an allocation may make. -/
def AtPoint (start base : Machine) : Prop := base = start ∨ base = start.collected

/-- A new object behind an allocation point. -/
def Handed (start : Machine) (cell : Cell) (object : Address) (machine : Machine) : Prop :=
  ∃ base, start.AtPoint base ∧ object ≠ 0 ∧ object ∉ base.heap.addresses ∧
    machine = base.extended object cell

theorem allocateObject_exact (site : AllocationSite) (cell : Cell)
    (finds : (Event.allocation site start).FindsReady) :
    Triple construction (fun machine => machine = start)
      (allocateObject allocator site cell) (start.Handed cell) := by
  refine allocateObject_triple allocator site cell start.AtPoint ?_ ?_ ?_ ?_ ?_
  · rintro machine rfl _
    exact quiet_event finds
  · exact fun _ _ _ => quiet_event trivial
  · rintro machine rfl _ _
    exact ⟨quiet_event trivial, Or.inr rfl⟩
  · rintro machine rfl
    exact Or.inl rfl
  · intro base object point notNull free
    exact ⟨quiet _ _, quiet _ _, base, point, notNull, free, rfl⟩

theorem vmObject_exact (object : Address) (kind : Kind) (numberOfFields : Nat)
    (embeddedInteger : Int) (chars : String) :
    Triple construction (fun machine => machine = start)
      (vmObject object kind numberOfFields embeddedInteger chars) fun _ machine =>
        ∃ cell, start.heap.cell? object = some cell ∧ cell.kind = none ∧
          machine = start.withCell object
            (constructed cell start.nilObject kind numberOfFields embeddedInteger chars) := by
  refine vmObject_triple _ _ _ _ _ ?_
  rintro machine cell rfl found raw
  exact ⟨quiet _ _, cell, found, raw, rfl⟩

theorem write_exact (object : Address) (place : Place) (slot : Slot) :
    Triple construction (fun machine => machine = start) (write object place slot)
      fun _ machine => ∃ cell, start.heap.cell? object = some cell ∧ place.inside cell = true ∧
        (slot ≠ .raw → start.SlotOk slot) ∧
          machine = start.withCell object (cell.write slot place) := by
  refine write_triple _ _ _ (fun _ _ _ _ _ => quiet_event trivial) ?_
  rintro machine cell rfl stores found inside _
  refine ⟨quiet_event trivial, cell, found, inside, fun notRaw => ?_, rfl⟩
  cases slot with
  | pointer value => exact stores value rfl
  | raw => exact absurd rfl notRaw

theorem withCell_self {object : Address} {cell : Cell}
    (found : start.heap.cell? object = some cell) : start.withCell object cell = start := by
  unfold withCell
  rw [assign_of_valueOf (show valueOf _ object start.heap = some cell from found)]

theorem withCell_withCell (start : Machine) (object : Address) (first cell : Cell) :
    (start.withCell object first).withCell object cell = start.withCell object cell := by
  unfold withCell
  simp only [assign_beq_assign]

theorem withCell_found (start : Machine) (object : Address) (cell : Cell) :
    (start.withCell object cell).heap.cell? object = some cell :=
  (Heap.cell?_assign ..).trans (if_pos (beq_self_eq_true object))

/-- An assignment to an object that has just been assigned to. -/
theorem write_withCell {this : Address} {cell : Cell} (place : Place) (slot : Slot) :
    Triple construction (fun machine => machine = start.withCell this cell)
      (run allocator (.single (.write this place slot))) fun _ machine =>
        machine = start.withCell this (cell.write slot place) ∧
          (slot ≠ .raw → machine.SlotOk slot) := by
  refine (Program.single_triple (write_exact _ _ _)).weaken (fun _ holds => holds) ?_
  rintro _ machine ⟨_, found, -, ok, rfl⟩
  rw [withCell_found] at found
  obtain rfl := Option.some.inj found
  refine ⟨withCell_withCell _ _ _ _, fun isPointer => (ok isPointer).of_addresses rfl ?_⟩
  rw [addresses_withCell (Heap.mem_addresses (start.withCell_found this cell))]
  exact List.Subset.refl _

theorem setMember_withCell {this : Address} {cell : Cell} (member : Member) (value : Address) :
    Triple construction (fun machine => machine = start.withCell this cell)
      (run allocator (Construct.setMember this member value)) fun _ machine =>
        machine = start.withCell this (cell.write (.pointer value) (.field member.index)) ∧
          machine.SlotOk (.pointer value) :=
  (write_withCell allocator _ _).weaken (fun _ holds => holds) fun _ _ holds =>
    ⟨holds.1, holds.2 nofun⟩

theorem setRaw_withCell {this : Address} {cell : Cell} (member : Member) :
    Triple construction (fun machine => machine = start.withCell this cell)
      (run allocator (Construct.setRaw this member)) fun _ machine =>
        machine = start.withCell this (cell.write .raw (.field member.index)) :=
  (write_withCell allocator _ _).weaken (fun _ holds => holds) fun _ _ holds => holds.1

theorem setClass_withCell {this : Address} {cell : Cell} (name : GlobalObject) :
    Triple construction (fun machine => machine = start.withCell this cell)
      (run allocator (Construct.setClass this name)) fun _ machine =>
        ∃ clazz, machine = start.withCell this (cell.write clazz (.field Member.clazz.index)) ∧
          machine.SlotOk clazz := by
  refine Program.bind_triple (fun _ machine => machine = start.withCell this cell)
    (Program.single_triple (.bind _ triple_read fun _ => triple_pure fun _ holds => holds.2))
    fun clazz => ?_
  exact (setMember_withCell allocator _ _).weaken (fun _ holds => holds)
    fun _ _ holds => ⟨.pointer clazz, holds⟩

theorem withCell_extended {base : Machine} {object : Address}
    (free : object ∉ base.heap.addresses) (cell cell' : Cell) :
    (base.extended object cell).withCell object cell' = base.extended object cell' := by
  have absent : isKey (fun a b => a == b) object base.heap = false := by
    rw [isKey, show valueOf _ object base.heap = none from Heap.cell?_eq_none free]
    rfl
  unfold withCell extended
  simp only [assign_append, absent, Bool.false_eq_true, if_false]
  simp [assign]

theorem extended_self {base : Machine} {object : Address} (free : object ∉ base.heap.addresses)
    (cell : Cell) : (base.extended object cell).heap.cell? object = some cell := by
  rw [extended_cell free, if_pos (beq_self_eq_true object)]

/-- The class of an object that has just been constructed. -/
theorem setClass_extended {base : Machine} {object : Address}
    (free : object ∉ base.heap.addresses) (cell : Cell) (name : GlobalObject) :
    Triple construction (fun machine => machine = base.extended object cell)
      (run allocator (Construct.setClass object name)) fun _ machine =>
        ∃ clazz, machine = base.extended object (cell.write clazz (.field Member.clazz.index)) ∧
          machine.SlotOk clazz := by
  refine (setClass_withCell allocator name).weaken
    (fun _ holds => holds.trans (withCell_self (extended_self free cell)).symm) ?_
  rintro _ machine ⟨clazz, rfl, ok⟩
  exact ⟨clazz, withCell_extended free _ _, ok⟩

/-- The Integer that `NewInteger` makes. -/
def integerCell (value : Int) (clazz : Slot) : Cell :=
  { kind := some .vmInteger, fields := [clazz], embeddedInteger := value }

theorem newInteger_exact (site : AllocationSite) (value : Int)
    (finds : (Event.allocation site start).FindsReady) :
    Triple construction (fun machine => machine = start)
      (run allocator (Construct.newInteger site value)) fun result machine =>
        ∃ base clazz, start.AtPoint base ∧ result ≠ 0 ∧ result ∉ base.heap.addresses ∧
          machine = base.extended result (integerCell value clazz) ∧ machine.SlotOk clazz := by
  refine Program.bind_triple _ (Program.single_triple
    (allocateObject_exact allocator site (.handedOut 0 0) finds)) fun result => .of_states ?_
  rintro _ ⟨base, point, notNull, free, rfl⟩
  refine Program.bind_triple (fun _ machine =>
    machine = base.extended result (integerCell value (.pointer 0))) ?_ fun _ => ?_
  · refine (Program.single_triple (vmObject_exact _ _ _ _ _)).weaken (fun _ holds => holds) ?_
    rintro _ machine ⟨cell, found, -, rfl⟩
    rw [extended_self free] at found
    obtain rfl := Option.some.inj found
    exact withCell_extended free _ _
  · refine Program.bind_triple _ (setClass_extended allocator free _ _) fun _ => ?_
    refine triple_pure ?_
    rintro _ ⟨clazz, rfl, ok⟩
    exact ⟨base, clazz, point, notNull, free, rfl, ok⟩

/-- Nil in the entries before an index. -/
def filled (cell : Cell) (nilObject : Address) (idx : Nat) : Cell :=
  { cell with entries := List.replicate idx (.pointer nilObject) ++ cell.entries.drop idx }

theorem filled_write (cell : Cell) (nilObject : Address) {idx : Nat}
    (inside : idx < cell.entries.length) :
    (filled cell nilObject idx).write (.pointer nilObject) (.entry idx) =
      filled cell nilObject (idx + 1) := by
  unfold filled Cell.write
  simp only
  rw [List.set_append_right _ _ (by simp), List.drop_eq_getElem_cons inside,
    List.length_replicate, Nat.sub_self, List.set_cons_zero, List.replicate_succ',
    List.append_assoc]
  rfl

/-- The loop ends if all of its entries are in memory. -/
theorem fillEntries_exact {this : Address} {cell : Cell} (size : Nat)
    (found : start.heap.cell? this = some cell) :
    Triple construction (fun machine => machine = start)
      (run allocator (Construct.fillEntries this size)) fun _ machine =>
        size ≤ cell.entries.length ∧
          machine = start.withCell this (filled cell start.nilObject size) := by
  refine (Program.forM_range_triple
    (fun idx machine => idx ≤ cell.entries.length ∧
      machine = start.withCell this (filled cell start.nilObject idx))
    fun idx _ => ?_).weaken ?_ fun _ _ holds => holds
  · refine Program.bind_triple (fun nilObject machine => nilObject = start.nilObject ∧
      idx ≤ cell.entries.length ∧
        machine = start.withCell this (filled cell start.nilObject idx)) ?_ fun nilObject => ?_
    · refine Program.single_triple (.bind _ triple_read fun _ => triple_pure ?_)
      rintro machine ⟨rfl, within, rfl⟩
      exact ⟨rfl, within, rfl⟩
    · refine .of_states ?_
      rintro _ ⟨rfl, within, rfl⟩
      refine (Program.single_triple (write_exact _ _ _)).weaken (fun _ holds => holds) ?_
      rintro _ machine ⟨_, there, inside, -, rfl⟩
      rw [withCell_found] at there
      obtain rfl := Option.some.inj there
      have inside : idx < cell.entries.length := by
        simp only [Place.inside, filled, List.length_append, List.length_replicate,
          List.length_drop, decide_eq_true_eq] at inside
        omega
      rw [withCell_withCell, filled_write cell _ inside]
      exact ⟨inside, rfl⟩
  · rintro machine rfl
    exact ⟨Nat.zero_le _, (withCell_self found).symm⟩

/-! ### Finished objects -/

/-- Nothing is under construction. -/
structure Ready (machine : Machine) : Prop extends ReadyBut (fun _ => False) machine where
  counter : machine.uninterruptableCounter = 0

/-- The objects of a kind whose slots are all counted. -/
def Plain (kind : Kind) : Prop :=
  kind ≠ .vmPrimitive ∧ kind ≠ .vmEvaluationPrimitive ∧ kind ≠ .vmMethod

variable {machine : Machine} {cell : Cell}

theorem plain_ready {kind : Kind} (isKind : cell.kind = some kind) (plain : Plain kind)
    (backed : cell.unbacked = 0) (fields : ∀ slot ∈ cell.fields, machine.SlotOk slot)
    (entries : ∀ slot ∈ cell.entries, machine.SlotOk slot) : machine.CellReady cell := by
  obtain ⟨noPrimitive, noEvaluation, noMethod⟩ := plain
  refine ⟨⟨by simp [isKind], fun _ => backed, ?_, ?_⟩, fun slot there => ?_⟩
  · rintro (isPrimitive | isPrimitive) <;> rw [isKind] at isPrimitive <;> simp_all
  · intro isMethod
    rw [isKind] at isMethod
    exact absurd (Option.some.inj isMethod) noMethod
  · unfold Cell.pointerSlots at there
    rw [isKind] at there
    cases kind with
    | vmPrimitive => exact absurd rfl noPrimitive
    | vmEvaluationPrimitive => exact absurd rfl noEvaluation
    | vmArray | vmFrame | vmMethod =>
        exact (List.mem_append.mp there).elim (fields slot) (entries slot)
    | _ => exact fields slot there

theorem slotOk_null (machine : Machine) : machine.SlotOk (.pointer 0) := ⟨0, rfl, Or.inl rfl⟩

theorem slotOk_nil (machine : Machine) : machine.SlotOk (.pointer machine.nilObject) :=
  ⟨_, rfl, Or.inr (Or.inl rfl)⟩

theorem initialFields_ok {nilObject : Address} (same : nilObject = machine.nilObject)
    {numberOfFields : Nat} :
    ∀ slot ∈ initialFields nilObject numberOfFields, machine.SlotOk slot := by
  subst same
  intro slot there
  rcases List.mem_cons.mp there with rfl | there
  · exact slotOk_null machine
  · rw [List.eq_of_mem_replicate there]
    exact slotOk_nil machine

/-! ### Allocation points -/

theorem ReadyBut.atPoint {pending : Address → Prop} {base : Machine}
    (ready : start.ReadyBut pending) (point : start.AtPoint base) : base.ReadyBut pending := by
  rcases point with rfl | rfl
  · exact ready
  · exact ready.collected

theorem AtPoint.counter {base : Machine} (point : start.AtPoint base) :
    base.uninterruptableCounter = start.uninterruptableCounter := by
  rcases point with rfl | rfl <;> rfl

/-- The roots can be scanned where no pending object is one. -/
theorem ReadyBut.findsReady {pending : Address → Prop} {site : AllocationSite}
    (ready : start.ReadyBut pending) (finished : site.Finished)
    (unheld : ∀ address ∈ start.roots, ¬ pending address) :
    (Event.allocation site start).FindsReady := by
  refine ⟨fun _ address isRoot cell found => ?_, fun _ _ => finished⟩
  exact (ready.cells address cell found (unheld address isRoot)).scannable

theorem Ready.findsReady (ready : start.Ready) :
    (Event.allocation .universe start).FindsReady :=
  ready.toReadyBut.findsReady ⟨nofun, nofun⟩ fun _ _ => not_false

/-- A new object from a machine that is ready, by its constructor. -/
theorem construct_triple (cell : Cell) {given : Prop} {allocate : MachineProgram Address}
    {constructor : Address → MachineProgram Unit}
    (allocates : ∀ start : Machine, start.Ready →
      Triple construction (fun machine => machine = start) (run allocator allocate)
        fun this machine => given ∧ start.Handed cell this machine)
    (constructs : given → ∀ (base : Machine) (this : Address), base.Ready → this ≠ 0 →
      this ∉ base.heap.addresses →
      Triple construction (fun machine => machine = base.extended this cell)
        (run allocator (constructor this)) fun _ => Ready) :
    Triple construction Ready (run allocator (Construct.construct allocate constructor))
      fun _ => Ready := by
  refine .of_states fun start ready => ?_
  refine Program.bind_triple _ (allocates start ready) fun this => .of_states ?_
  rintro _ ⟨isGiven, base, point, notNull, free, rfl⟩
  have baseReady : base.Ready :=
    ⟨ready.toReadyBut.atPoint point, point.counter.trans ready.counter⟩
  exact Program.bind_triple _ (constructs isGiven base this baseReady notNull free) fun _ =>
    triple_pure fun _ holds => holds

theorem new_triple (entries : Nat) {constructor : Address → MachineProgram Unit}
    (constructs : ∀ (base : Machine) (this : Address), base.Ready → this ≠ 0 →
      this ∉ base.heap.addresses →
      Triple construction (fun machine => machine = base.extended this (.handedOut entries 0))
        (run allocator (constructor this)) fun _ => Ready) :
    Triple construction Ready (run allocator (Construct.new entries constructor))
      fun _ => Ready :=
  construct_triple allocator _
    (fun _ ready => (Program.single_triple
      (allocateObject_exact allocator .universe _ ready.findsReady)).weaken
        (fun _ holds => holds) fun _ _ holds => ⟨trivial, holds⟩)
    fun _ => constructs

/-! ### Constructors -/

theorem ReadyBut.extended_ready {pending : Address → Prop} {base : Machine} {object : Address}
    (ready : base.ReadyBut pending) (free : object ∉ base.heap.addresses)
    (finished : (base.extended object cell).CellReady cell) :
    (base.extended object cell).ReadyBut pending := by
  refine (ready.extended free).finish fun other found => ?_
  rw [extended_self free] at found
  exact Option.some.inj found ▸ finished

theorem vmObject_extended {base : Machine} {object : Address}
    (free : object ∉ base.heap.addresses) (kind : Kind) (numberOfFields : Nat)
    (embeddedInteger : Int) (chars : String) :
    Triple construction (fun machine => machine = base.extended object cell)
      (run allocator (.single (.vmObject object kind numberOfFields embeddedInteger chars)))
      fun _ machine => machine = base.extended object
        (constructed cell base.nilObject kind numberOfFields embeddedInteger chars) := by
  refine (Program.single_triple (vmObject_exact _ _ _ _ _)).weaken (fun _ holds => holds) ?_
  rintro _ machine ⟨_, found, -, rfl⟩
  rw [extended_self free] at found
  obtain rfl := Option.some.inj found
  exact withCell_extended free _ _

/-- An object whose constructor is that of its fields. -/
theorem newPlain_triple (kind : Kind) (plain : Plain kind) (numberOfFields : Nat)
    (embeddedInteger : Int) (chars : String) :
    Triple construction Ready
      (run allocator (Construct.new 0 fun this =>
        Construct.ask (.vmObject this kind numberOfFields embeddedInteger chars)))
      fun _ => Ready := by
  refine new_triple allocator 0 fun base this ready _ free => ?_
  refine (vmObject_extended allocator free _ _ _ _).weaken (fun _ holds => holds) ?_
  rintro _ machine rfl
  refine ⟨ready.toReadyBut.extended_ready free ?_, ready.counter⟩
  exact plain_ready rfl plain rfl (fun slot there => initialFields_ok rfl slot there) nofun

/-- A section of the constructor begins. -/
def started (machine : Machine) : Machine :=
  { machine with uninterruptableCounter := machine.uninterruptableCounter + 1 }

/-- A section of the constructor ends. -/
def ended (machine : Machine) : Machine :=
  { machine with
    uninterruptableCounter := machine.uninterruptableCounter - 1
    uninterruptable := if machine.uninterruptableCounter - 1 = 0 then []
      else machine.uninterruptable }

theorem start_exact :
    Triple construction (fun machine => machine = start)
      (run allocator Construct.startUninterruptableAllocation) fun _ machine =>
        machine = start.started := by
  refine Program.single_triple (triple_modify (fun _ _ => quiet _ _) ?_)
  rintro machine rfl
  rfl

theorem end_exact :
    Triple construction (fun machine => machine = start)
      (run allocator Construct.endUninterruptableAllocation) fun _ machine =>
        machine = start.ended := by
  refine Program.single_triple (dropping_triple (fun _ _ _ => quiet_event trivial) ?_)
  rintro machine rfl _
  rfl

/-- What `VMArray::VMArray` makes of an object. -/
def arrayCell (kind : Kind) (size nof : Nat) (nilObject : Address) : Cell :=
  { kind := some kind
    fields := initialFields nilObject nof
    entries := List.replicate size (.pointer nilObject) }

theorem filled_handedOut (kind : Kind) (size nof : Nat) (nilObject : Address) :
    filled (constructed (.handedOut size 0) nilObject kind nof 0 "") nilObject size =
      arrayCell kind size nof nilObject := by
  simp [filled, constructed, arrayCell, Cell.handedOut]

/-- An array whose constructor ends has at least as many slots in memory as its size. -/
theorem vmArray_exact {base : Machine} {this : Address} (free : this ∉ base.heap.addresses)
    (kind : Kind) (size nof entries unbacked : Nat) :
    Triple construction (fun machine => machine = base.extended this (.handedOut entries unbacked))
      (run allocator (Construct.vmArray this kind size nof)) fun _ machine =>
        size ≤ entries ∧
          machine = (base.extended this (filled (constructed (.handedOut entries unbacked)
            base.nilObject kind nof 0 "") base.nilObject size)).started.ended := by
  refine Program.bind_triple _ (vmObject_extended allocator free _ _ _ _) fun _ =>
    Program.bind_triple _ (start_exact allocator) fun _ => ?_
  have freeStarted : this ∉ base.started.heap.addresses := free
  refine Program.bind_triple _ (fillEntries_exact allocator size
    (extended_self freeStarted _)) fun _ => .of_states ?_
  rintro _ ⟨within, rfl⟩
  refine (end_exact allocator).weaken (fun _ holds => holds) ?_
  rintro _ machine rfl
  have length : (Cell.handedOut entries unbacked).entries.length = entries :=
    List.length_replicate ..
  exact ⟨within.trans_eq length, congrArg ended (withCell_extended freeStarted _ _)⟩

theorem arrayCell_ready {kind : Kind} (plain : Plain kind) (size nof : Nat)
    {nilObject : Address} (same : nilObject = machine.nilObject) :
    machine.CellReady (arrayCell kind size nof nilObject) := by
  refine plain_ready rfl plain rfl (fun slot there => initialFields_ok same slot there)
    fun slot there => ?_
  rw [List.eq_of_mem_replicate there, same]
  exact slotOk_nil machine

/-- The sections of a constructor are over, and no object is held any more. -/
theorem ReadyBut.ended {pending : Address → Prop} (ready : start.ReadyBut pending) :
    start.ended.ReadyBut pending := ready.of_heap rfl rfl rfl

theorem ReadyBut.started {pending : Address → Prop} (ready : start.ReadyBut pending) :
    start.started.ReadyBut pending := ready.of_heap rfl rfl rfl

theorem vmArray_ready {base : Machine} {this : Address} (ready : base.Ready)
    (free : this ∉ base.heap.addresses) (kind : Kind) (plain : Plain kind) (size nof : Nat) :
    (base.extended this (arrayCell kind size nof base.nilObject)).started.ended.Ready := by
  refine ⟨?_, ?_⟩
  · exact (ready.toReadyBut.extended_ready free (arrayCell_ready plain size nof rfl)).started.ended
  · simp [Machine.ended, Machine.started, extended, ready.counter]

theorem allocateArray_exact (size : Int32) (ready : start.Ready) :
    Triple construction (fun machine => machine = start) (allocateArray allocator size)
      fun this machine => VMArray.Fillable size ∧ start.Handed
        (.handedOut (VMArray.slotsInside size) (VMArray.slotsOutside size)) this machine := by
  refine allocateArray_triple allocator size (fun _ _ _ => quiet_event trivial) fun fillable => ?_
  exact (allocateObject_exact allocator .universe _ ready.findsReady).weaken
    (fun _ holds => holds) fun _ _ holds => ⟨fillable, holds⟩

/-- The slots that the constructor has filled are all that the length counts. -/
theorem newArray_triple (size : Int32) :
    Triple construction Ready (run allocator (Construct.newArray size)) fun _ => Ready := by
  refine construct_triple allocator _
    (fun _ ready => Program.single_triple (allocateArray_exact allocator size ready)) ?_
  intro fillable base this ready _ free
  refine (vmArray_exact allocator free _ _ _ _ _).weaken (fun _ holds => holds) ?_
  rintro _ machine ⟨within, rfl⟩
  obtain ⟨inside, outside⟩ := VMArray.slots_of_filled fillable within
  rw [inside, outside, filled_handedOut]
  exact vmArray_ready ready free .vmArray ⟨nofun, nofun, nofun⟩ _ 0

/-- Any other array cannot be scanned: its length counts slots that lie outside of its
memory or that no loop has written. -/
theorem not_scannable_of_unfilled {size : Int32} (unfillable : ¬ VMArray.Fillable size)
    (machine : Machine) (nilObject : Address) :
    ¬ machine.Scannable (filled
      (constructed (.handedOut (VMArray.slotsInside size) (VMArray.slotsOutside size)) nilObject
        .vmArray 0 0 "") nilObject size.toInt.toNat) := by
  obtain ⟨noRounds, counts⟩ := VMArray.lengthOf_pos_of_not_fillable unfillable
  have slots := VMArray.slotsInside_add_slotsOutside size
  intro scannable
  obtain ⟨count, isCount, within, follows⟩ := scannable
  simp only [noRounds, filled, constructed, Cell.handedOut, Cell.getNumberOfMarkableFields,
    Cell.getNumberOfIndexableFields, Cell.ownSlots, initialFields, List.replicate_zero,
    List.drop_zero, List.nil_append, List.length_append, List.length_replicate,
    List.length_singleton, Option.map_some, Option.some.injEq] at isCount within follows
  obtain ⟨slot, found, ok⟩ := follows 1 (by omega)
  have first : 0 < VMArray.slotsInside size := by omega
  have counted : (0 : Int) < VMArray.slotsInside size + VMArray.slotsOutside size := by omega
  obtain rfl : .raw = slot := by
    simpa [Cell.getMarkableFieldObj, Cell.getNumberOfIndexableFields, first, counted] using found
  obtain ⟨address, isPointer, -⟩ := ok
  cases isPointer

/-! ### Frames -/

/-- The frame under construction, unless it has been reclaimed and an Integer lies there. -/
structure FramePending (this : Address) (machine : Machine) : Prop extends
    ReadyBut (fun _ => False) machine where
  counter : machine.uninterruptableCounter = 1
  frame : ∀ cell, machine.heap.cell? this = some cell →
    cell.kind = some .vmFrame ∨ cell.kind = some .vmInteger ∧ cell.fields.length = 1

theorem integerCell_ready {value : Int} {clazz : Slot} (ok : machine.SlotOk clazz) :
    machine.CellReady (integerCell value clazz) := by
  refine plain_ready rfl ⟨nofun, nofun, nofun⟩ rfl (fun slot there => ?_) nofun
  rw [List.mem_singleton.mp there]
  exact ok

/-- An object at an allocation point is one from before. -/
theorem AtPoint.cell? {base : Machine} (point : start.AtPoint base) {address : Address}
    (found : base.heap.cell? address = some cell) : start.heap.cell? address = some cell := by
  rcases point with rfl | rfl
  · exact found
  · rw [collected_cell] at found
    exact (Option.ite_none_right_eq_some.mp found).2

theorem setInteger_frame {this : Address} {member : Member} (inside : 1 < member.index) :
    Triple construction (FramePending this)
      (run allocator (Construct.setInteger .vmFrame this member 0)) fun _ =>
        FramePending this := by
  refine .of_states fun start pending => ?_
  refine Program.bind_triple _ (newInteger_exact allocator .vmFrame 0
    (pending.findsReady ⟨nofun, nofun⟩ fun _ _ => not_false)) fun result => .of_states ?_
  rintro _ ⟨base, clazz, point, -, free, rfl, ok⟩
  have ready : (base.extended result (integerCell 0 clazz)).ReadyBut fun _ => False :=
    (pending.toReadyBut.atPoint point).extended_ready free (integerCell_ready ok)
  refine (Program.single_triple (write_exact _ _ _)).weaken (fun _ holds => holds) ?_
  rintro _ machine ⟨cell, found, isInside, ok, rfl⟩
  -- the Integer at the frame's place has only the field for its class
  have isFrame : cell.kind = some .vmFrame := by
    have there := found
    rw [extended_cell free] at there
    split at there
    · obtain rfl := Option.some.inj there
      simp [Place.inside, integerCell] at isInside
      omega
    · rcases pending.frame cell (point.cell? there) with isFrame | ⟨-, length⟩
      · exact isFrame
      · simp [Place.inside, length] at isInside
        omega
  have cellReady : (base.extended result (integerCell 0 clazz)).CellReady
      (cell.write (.pointer result) (.field member.index)) :=
    (ready.cells this cell found not_false).write (ok nofun) fun isMethod => by
      simp [isFrame] at isMethod
  refine ⟨ready.withCell found (fun isInteger => by simp [isFrame] at isInteger)
    (fun _ none _ => none) fun _ => ?_, point.counter.trans pending.counter, ?_⟩
  · exact cellReady.carried (carries_withCell found fun isInteger => by simp [isFrame] at isInteger)
      fun _ _ _ => trivial
  · intro other there
    rw [withCell_found] at there
    obtain rfl := Option.some.inj there
    exact Or.inl ((write_kind _ _ _).1.trans isFrame)

theorem newFrame_triple (length : Nat) :
    Triple construction Ready
      (run allocator (Construct.new length fun this => Construct.vmFrame this length))
      fun _ => Ready := by
  refine new_triple allocator length fun base this ready _ free => ?_
  refine Program.bind_triple _ (vmArray_exact allocator free _ _ _ _ _) fun _ => .of_states ?_
  rintro _ ⟨-, rfl⟩
  rw [filled_handedOut]
  refine Program.bind_triple _ (start_exact allocator) fun _ => ?_
  refine Program.bind_triple (fun _ => FramePending this)
    ((setInteger_frame allocator (by decide)).weaken ?_ fun _ _ holds => holds) fun _ =>
    Program.bind_triple _ (setInteger_frame allocator (by decide)) fun _ =>
    Program.bind_triple _ (setInteger_frame allocator (by decide)) fun _ => .of_states ?_
  · rintro _ rfl
    have arrayReady := vmArray_ready ready free .vmFrame ⟨nofun, nofun, nofun⟩ length 6
    refine ⟨arrayReady.started, ?_, fun cell found => ?_⟩
    · exact (congrArg (· + 1) arrayReady.counter).trans (Int.zero_add 1)
    · have found : (base.extended this _).heap.cell? this = some cell := found
      rw [extended_self free] at found
      exact Or.inl (Option.some.inj found ▸ rfl)
  · intro start pending
    refine (end_exact allocator).weaken (fun _ holds => holds) ?_
    rintro _ machine rfl
    exact ⟨pending.toReadyBut.ended, by simp [Machine.ended, pending.counter]⟩

/-! ### Primitives -/

/-- What `VMPrimitive::VMPrimitive` makes of an object. -/
def primitiveCell (cell : Cell) (kind : Kind) (nilObject : Address) (clazz signature : Slot) :
    Cell :=
  { cell with
    kind := some kind
    fields := [clazz, signature, .pointer nilObject, .raw, .raw]
    embeddedInteger := 0
    chars := "" }

theorem vmPrimitive_exact {this : Address} (kind : Kind) (signature : Address) :
    Triple construction (fun machine => machine = start)
      (run allocator (Construct.vmPrimitive this kind signature)) fun _ machine =>
        ∃ cell clazz, start.heap.cell? this = some cell ∧ cell.kind = none ∧
          machine = (start.withCell this (primitiveCell cell kind start.nilObject clazz
            (.pointer signature))).started.ended ∧
          machine.SlotOk clazz ∧ machine.SlotOk (.pointer signature) := by
  refine Program.bind_triple _ (Program.single_triple (vmObject_exact _ _ _ _ _)) fun _ =>
    .of_states ?_
  rintro _ ⟨cell, found, raw, rfl⟩
  refine Program.bind_triple (fun _ machine => machine = start.started.withCell this _)
    (start_exact allocator) fun _ => ?_
  refine Program.bind_triple _ (setClass_withCell allocator _) fun _ => .of_states ?_
  rintro _ ⟨clazz, rfl, okClass⟩
  refine Program.bind_triple _ (setMember_withCell allocator _ _) fun _ => .of_states ?_
  rintro _ ⟨rfl, okSignature⟩
  refine Program.bind_triple _ (setRaw_withCell allocator _) fun _ =>
    Program.bind_triple _ (setRaw_withCell allocator _) fun _ => .of_states ?_
  rintro _ rfl
  refine (end_exact allocator).weaken (fun _ holds => holds) ?_
  rintro _ machine rfl
  have addresses : ∀ first last : Cell, (start.started.withCell this first).heap.addresses ⊆
      (start.started.withCell this last).heap.addresses := fun first last => by
    have inside : this ∈ start.started.heap.addresses := Heap.mem_addresses found
    rw [addresses_withCell inside, addresses_withCell inside]
    exact List.Subset.refl _
  refine ⟨cell, clazz, found, raw, rfl, ?_, ?_⟩
  · exact okClass.of_addresses rfl (addresses _ _)
  · exact okSignature.of_addresses rfl (addresses _ _)

theorem newPrimitive_triple (signature : Address) :
    Triple construction Ready
      (run allocator (Construct.new 0 fun this =>
        Construct.vmPrimitive this .vmPrimitive signature)) fun _ => Ready := by
  refine new_triple allocator 0 fun base this ready _ free => .of_states ?_
  rintro _ rfl
  refine (vmPrimitive_exact allocator _ _).weaken (fun _ holds => holds) ?_
  rintro _ machine ⟨cell, clazz, found, -, rfl, okClass, okSignature⟩
  rw [withCell_extended free] at okClass okSignature ⊢
  refine ⟨(ready.toReadyBut.extended_ready free ?_).started.ended, ?_⟩
  · refine ⟨⟨nofun, nofun, fun _ => rfl, nofun⟩, fun slot there => ?_⟩
    rcases List.mem_cons.mp there with rfl | there
    · exact okClass
    rcases List.mem_cons.mp there with rfl | there
    · exact okSignature
    · rw [List.mem_singleton.mp there]
      exact slotOk_nil _
  · simp [Machine.ended, Machine.started, extended, ready.counter]

/-! ### Symbols -/

/-- The symbol that `NewSymbol` makes. -/
def symbolCell (str : String) (clazz : Slot) : Cell :=
  { kind := some .vmSymbol, fields := [clazz], chars := str }

/-- The machine is as before, or has a new symbol. -/
def SymbolPoint (start : Machine) (text : String) (machine : Machine) : Prop :=
  machine = start ∨ ∃ base result clazz symtab, start.AtPoint base ∧
    result ∉ base.heap.addresses ∧
      machine = { base.extended result (symbolCell text clazz) with symtab := symtab } ∧
        machine.SlotOk clazz

theorem newSymbol_exact (site : AllocationSite) (str : String)
    (finds : (Event.allocation site start).FindsReady) :
    Triple construction (fun machine => machine = start) (newSymbol allocator site str)
      fun _ => start.SymbolPoint str := by
  refine .bind _ (allocateObject_exact allocator site (.handedOut 0 0) finds) fun result => .of_states ?_
  rintro _ ⟨base, point, -, free, rfl⟩
  refine .bind (fun _ machine => machine = base.extended result (symbolCell str (.pointer 0)))
    ((vmObject_exact _ _ _ _ _).weaken (fun _ holds => holds) ?_) fun _ =>
      .bind _ triple_read fun before => ?_
  · rintro _ machine ⟨cell, found, -, rfl⟩
    rw [extended_self free] at found
    obtain rfl := Option.some.inj found
    exact withCell_extended free _ _
  refine .bind (fun _ machine => ∃ clazz, machine = base.extended result (symbolCell str clazz) ∧
    machine.SlotOk clazz) (.of_states ?_) fun _ => .bind (fun _ => start.SymbolPoint str)
      (triple_modify (fun _ _ => quiet _ _) ?_) fun _ => triple_pure fun _ holds => holds
  · rintro _ ⟨rfl, rfl⟩
    refine (write_exact _ _ _).weaken (fun _ holds => holds) ?_
    rintro _ machine ⟨cell, found, -, ok, rfl⟩
    rw [extended_self free] at found
    obtain rfl := Option.some.inj found
    refine ⟨_, withCell_extended free _ _, (ok nofun).of_addresses rfl ?_⟩
    rw [addresses_withCell (Heap.mem_addresses (extended_self free _))]
    exact List.Subset.refl _
  · rintro _ ⟨clazz, rfl, ok⟩
    exact Or.inr ⟨base, result, clazz, _, point, free, rfl, ok⟩

theorem symbolFor_exact (site : AllocationSite) (text : String)
    (finds : (Event.allocation site start).FindsReady) :
    Triple construction (fun machine => machine = start) (symbolFor allocator site text)
      fun _ => start.SymbolPoint (String.ofList (cString text.toList)) := by
  have silent : ∀ machine str result,
      construction.holds machine [.symbol str result machine] machine :=
    fun _ _ _ => quiet_event trivial
  refine .bind (fun _ => start.SymbolPoint _) ?_ fun result =>
    .bind _ (triple_emit fun machine _ _ => silent machine _ _) fun _ =>
      triple_pure fun _ holds => holds.1
  refine .bind _ triple_read fun before => .ite (fun _ => triple_pure ?_) fun _ => ?_
  · rintro machine ⟨-, rfl⟩
    exact Or.inl rfl
  · exact (newSymbol_exact allocator site _ finds).weaken (fun _ holds => holds.2)
      fun _ _ holds => holds

theorem symbolCell_ready {str : String} {clazz : Slot} (ok : machine.SlotOk clazz) :
    machine.CellReady (symbolCell str clazz) := by
  refine plain_ready rfl ⟨nofun, nofun, nofun⟩ rfl (fun slot there => ?_) nofun
  rw [List.mem_singleton.mp there]
  exact ok

theorem ReadyBut.symbolPoint {pending : Address → Prop} {text : String}
    (ready : start.ReadyBut pending) (point : start.SymbolPoint text machine) :
    machine.ReadyBut pending := by
  rcases point with rfl | ⟨base, result, clazz, symtab, point, free, rfl, ok⟩
  · exact ready
  · exact ((ready.atPoint point).extended_ready free (symbolCell_ready ok)).of_heap rfl rfl rfl

theorem SymbolPoint.counter {text : String} (point : start.SymbolPoint text machine) :
    machine.uninterruptableCounter = start.uninterruptableCounter := by
  rcases point with rfl | ⟨base, result, clazz, symtab, point, free, rfl, ok⟩
  · rfl
  · exact point.counter

theorem SymbolPoint.rootTable {text : String} (point : start.SymbolPoint text machine) :
    machine.rootTable = start.rootTable := by
  rcases point with rfl | ⟨base, result, clazz, symtab, rfl | rfl, free, rfl, ok⟩ <;> rfl

theorem symbolFor_triple (text : String) :
    Triple construction Ready (symbolFor allocator .universe text) fun _ => Ready := by
  refine .of_states fun start ready => ?_
  refine (symbolFor_exact allocator .universe text ready.findsReady).weaken
    (fun _ holds => holds) fun _ machine point => ?_
  exact ⟨ready.toReadyBut.symbolPoint point, point.counter.trans ready.counter⟩

/-! ### Evaluation primitives -/

/-- An object without a class cannot be scanned. -/
theorem raw_findsReady {base : Machine} {this : Address} (free : this ∉ base.heap.addresses)
    (entries : List Slot) :
    (Event.allocation .computeSignatureString
      (base.extended this { entries := entries })).FindsReady := by
  refine ⟨fun finished => absurd rfl finished.2, fun _ scannable => ?_⟩
  obtain ⟨count, counts, -⟩ := scannable this (by simp [roots, extended]) _ (extended_self free _)
  exact nomatch counts

/-- A slot that marking enumerates is kept with its object. -/
theorem AtPoint.slotOk {base : Machine} (point : start.AtPoint base) {object : Address}
    (found : base.heap.cell? object = some cell) (counted : cell.Counted start.heap) {slot : Slot}
    (there : slot ∈ cell.pointerSlots) (ok : start.SlotOk slot) : base.SlotOk slot := by
  rcases point with rfl | rfl
  · exact ok
  · rw [collected_cell] at found
    obtain ⟨marked, found⟩ := Option.ite_none_right_eq_some.mp found
    have live := (marked_iff start object).mp marked
    obtain ⟨address, rfl, null | nil | inside⟩ := ok
    · exact ⟨address, rfl, Or.inl null⟩
    · exact ⟨address, rfl, Or.inr (Or.inl nil)⟩
    · exact ⟨address, rfl, Or.inr (Or.inr (mem_addresses_collected
        (live_of_slot live found counted inside there)))⟩

theorem mem_primitiveCell {slot clazz signature : Slot} {nilObject : Address}
    (there : slot ∈ (primitiveCell cell .vmEvaluationPrimitive nilObject clazz
      signature).fields.take 3) :
    slot = clazz ∨ slot = signature ∨ slot = .pointer nilObject := by
  rcases List.mem_cons.mp there with rfl | there
  · exact Or.inl rfl
  rcases List.mem_cons.mp there with rfl | there
  · exact Or.inr (Or.inl rfl)
  · exact Or.inr (Or.inr (List.mem_singleton.mp there))

/-- The evaluation primitive after the constructor of its base class. -/
structure EvaluationPending (this : Address) (machine : Machine) : Prop extends
    ReadyBut (fun address => address = this) machine where
  counter : machine.uninterruptableCounter = 1
  unheld : this ∉ machine.roots
  primitive : ∀ cell, machine.heap.cell? this = some cell →
    cell.kind = some .vmEvaluationPrimitive ∧ cell.fields.length = 5 ∧
      ∀ slot ∈ cell.fields.take 3, machine.SlotOk slot

/-- `numberOfArguments` is assigned, and the constructor ends. -/
theorem setNumberOfArguments_triple {this : Address} (argc : Nat) :
    Triple construction (EvaluationPending this)
      (run allocator (do
        Construct.ask (.write this .numberOfArguments
          (.pointer (← Construct.newInteger .vmEvaluationPrimitive argc)))
        Construct.endUninterruptableAllocation))
      fun _ => Ready := by
  refine .of_states fun start pending => ?_
  refine Program.bind_triple _ (newInteger_exact allocator .vmEvaluationPrimitive argc
    (pending.findsReady ⟨nofun, nofun⟩ fun address isRoot same =>
      pending.unheld (same ▸ isRoot))) fun result => .of_states ?_
  rintro _ ⟨base, clazz, point, -, free, rfl, okClass⟩
  have ready : (base.extended result (integerCell argc clazz)).ReadyBut
      fun address => address = this :=
    (pending.toReadyBut.atPoint point).extended_ready free (integerCell_ready okClass)
  refine Program.bind_triple _ (Program.single_triple (write_exact _ _ _)) fun _ => .of_states ?_
  rintro _ ⟨cell, found, -, ok, rfl⟩
  refine (end_exact allocator).weaken (fun _ holds => holds) ?_
  rintro _ machine rfl
  have finished : (base.extended result (integerCell argc clazz)).CellReady
      (cell.write (.pointer result) .numberOfArguments) := by
    have there := found
    rw [extended_cell free] at there
    split at there
    -- the Integer lies where the primitive was
    · obtain rfl := Option.some.inj there
      exact (integerCell_ready okClass).write (ok nofun) nofun
    · obtain ⟨isPrimitive, length, okFields⟩ := pending.primitive cell (point.cell? there)
      have counted : cell.Counted start.heap :=
        ⟨by simp [isPrimitive], fun isArray => by simp [isPrimitive] at isArray, fun _ => length,
          fun isMethod => by simp [isPrimitive] at isMethod⟩
      refine ⟨⟨by simp [Cell.write, isPrimitive], fun isArray => by
        simp [Cell.write, isPrimitive] at isArray, fun _ => length, fun isMethod => by
        simp [Cell.write, isPrimitive] at isMethod⟩, fun slot isSlot => ?_⟩
      have isSlot : slot ∈ cell.fields.take 3 ++ [.pointer result] := by
        simpa [Cell.pointerSlots, Cell.write, isPrimitive] using isSlot
      rcases List.mem_append.mp isSlot with isField | isLast
      · have isOwn : slot ∈ cell.pointerSlots := by
          unfold Cell.pointerSlots
          rw [isPrimitive]
          exact List.mem_append_left _ isField
        exact (point.slotOk there counted isOwn (okFields slot isField)).carried
          (carries_extended free _)
      · rw [List.mem_singleton.mp isLast]
        exact ok nofun
  have integer : cell.kind = some .vmInteger →
      (cell.write (.pointer result) .numberOfArguments).kind = some .vmInteger ∧
        (cell.write (.pointer result) .numberOfArguments).embeddedInteger = cell.embeddedInteger :=
    fun isInteger => ⟨isInteger, rfl⟩
  refine ⟨(ready.withCell found integer (fun _ same other => other same) fun _ => ?_).ended, ?_⟩
  · exact finished.carried (carries_withCell found integer) fun _ _ _ => trivial
  · have counter := point.counter.trans pending.counter
    simp [Machine.ended, withCell, extended, counter]

theorem newEvaluationPrimitive_triple (argc : Nat) :
    Triple construction Ready
      (run allocator (Construct.new 0 fun this => Construct.vmEvaluationPrimitive this argc))
      fun _ => Ready := by
  refine new_triple allocator 0 fun base this ready notNull free => .of_states ?_
  rintro _ rfl
  refine Program.bind_triple _ (Program.single_triple
    (symbolFor_exact allocator _ _ (raw_findsReady free _))) fun signature => .of_states ?_
  intro start point
  have readyStart := ((ready.extended free).mono fun address pending =>
    pending.resolve_left not_false).symbolPoint point
  have counter : start.uninterruptableCounter = 0 := point.counter.trans ready.counter
  refine Program.bind_triple _ (vmPrimitive_exact allocator _ _) fun _ => .of_states ?_
  rintro _ ⟨cell, clazz, found, raw, rfl, okClass, okSignature⟩
  refine Program.bind_triple (fun _ machine => machine =
    start.started.ended.started.withCell this _) (start_exact allocator) fun _ =>
    Program.bind_triple _ (setRaw_withCell allocator _) fun _ =>
    Program.bind_triple _ (setRaw_withCell allocator _) fun _ => ?_
  refine (setNumberOfArguments_triple allocator argc).weaken ?_ fun _ _ holds => holds
  rintro _ rfl
  have pending : (start.withCell this (primitiveCell cell .vmEvaluationPrimitive start.nilObject
      clazz (.pointer signature))).ReadyBut fun address => address = this :=
    readyStart.withCell found (fun isInteger => by simp [raw] at isInteger)
      (fun _ same other => absurd same other) fun notThis => absurd rfl notThis
  refine ⟨pending.of_heap rfl rfl rfl, ?_, ?_, ?_⟩
  · simp [withCell, Machine.started, Machine.ended, counter]
  · intro isRoot
    have unheld : start.started.ended.started.uninterruptable = [] := by
      simp [Machine.started, Machine.ended, counter]
    have isRoot : this ∈ start.rootTable.map Prod.snd ++
      start.started.ended.started.uninterruptable := isRoot
    rw [unheld, List.append_nil, point.rootTable] at isRoot
    exact (ready.globals this isRoot).elim notNull free
  · intro other there
    rw [withCell_found] at there
    obtain rfl := Option.some.inj there
    refine ⟨rfl, rfl, fun slot isField => ?_⟩
    rcases mem_primitiveCell isField with rfl | rfl | rfl
    · exact okClass
    · exact okSignature
    · exact slotOk_nil _

/-! ### Methods -/

/-- The slot is `NULL`, nil or an object that the uninterruptable array holds. -/
def SlotHeld (machine : Machine) (slot : Slot) : Prop :=
  ∃ address, slot = .pointer address ∧ (address = 0 ∨ address = machine.nilObject ∨
    address ∈ machine.heap.addresses ∧ address ∈ machine.uninterruptable)

theorem SlotHeld.ok {slot : Slot} (held : machine.SlotHeld slot) : machine.SlotOk slot := by
  obtain ⟨address, rfl, null | nil | ⟨inside, -⟩⟩ := held
  · exact ⟨address, rfl, Or.inl null⟩
  · exact ⟨address, rfl, Or.inr (Or.inl nil)⟩
  · exact ⟨address, rfl, Or.inr (Or.inr inside)⟩

/-- The method under construction, which the uninterruptable array holds. -/
structure MethodPending (this : Address) (cell : Cell) (machine : Machine) : Prop extends
    ReadyBut (fun address => address = this) machine where
  counter : machine.uninterruptableCounter = 1
  held : this ∈ machine.uninterruptable
  found : machine.heap.cell? this = some cell
  kind : cell.kind = some .vmMethod
  fields : ∀ slot ∈ cell.fields, machine.SlotHeld slot

/-- `numberOfConstants` is nil still. -/
def Unset (machine : Machine) (cell : Cell) : Prop :=
  cell.fields[Member.numberOfConstants.index]? = some (.pointer machine.nilObject)

theorem MethodPending.findsReady {this : Address} (pending : start.MethodPending this cell)
    (unset : start.Unset cell) : (Event.allocation .vmMethod start).FindsReady := by
  refine ⟨fun finished => absurd rfl finished.1, fun nilIsObject scannable => ?_⟩
  obtain ⟨count, counts, -⟩ := scannable this (List.mem_append_right _ pending.held) cell
    pending.found
  have uncounted : start.heap.getEmbeddedInteger?
      cell.fields[Member.numberOfConstants.index]? = none := by
    rw [show cell.fields[Member.numberOfConstants.index]? = _ from unset]
    exact nilIsObject
  unfold Cell.getNumberOfMarkableFields Cell.getNumberOfIndexableFields at counts
  rw [pending.kind] at counts
  simp only [uncounted, Option.map_none] at counts
  exact nomatch counts

/-- An object that the uninterruptable array holds survives a collection. -/
theorem live_of_held {address : Address} (inside : address ∈ start.heap.addresses)
    (held : address ∈ start.uninterruptable) : start.Live address :=
  .root (List.mem_append_right _ held) inside

theorem MethodPending.atPoint {this : Address} {base : Machine}
    (pending : start.MethodPending this cell) (point : start.AtPoint base) :
    base.MethodPending this cell := by
  have ready := pending.toReadyBut.atPoint point
  rcases point with rfl | rfl
  · exact pending
  · have live := live_of_held (Heap.mem_addresses pending.found) pending.held
    refine ⟨ready, pending.counter, pending.held, ?_, pending.kind, fun slot there => ?_⟩
    · rw [collected_cell, if_pos ((marked_iff start this).mpr live), pending.found]
    · obtain ⟨address, rfl, null | nil | ⟨inside, held⟩⟩ := pending.fields slot there
      · exact ⟨address, rfl, Or.inl null⟩
      · exact ⟨address, rfl, Or.inr (Or.inl nil)⟩
      · exact ⟨address, rfl, Or.inr (Or.inr
          ⟨mem_addresses_collected (live_of_held inside held), held⟩)⟩

/-- One of the Integers that a method counts with. -/
theorem setInteger_method {this : Address} (pending : start.MethodPending this cell)
    (unset : start.Unset cell) (member : Member) (value : Int) :
    Triple construction (fun machine => machine = start)
      (run allocator (Construct.setInteger .vmMethod this member value)) fun _ machine =>
        ∃ result, machine.MethodPending this
            (cell.write (.pointer result) (.field member.index)) ∧
          machine.nilObject = start.nilObject ∧
          machine.heap.getEmbeddedInteger? (some (.pointer result)) = some value := by
  refine Program.bind_triple _ (newInteger_exact allocator .vmMethod value
    (pending.findsReady unset)) fun result => .of_states ?_
  rintro _ ⟨base, clazz, point, -, free, rfl, okClass⟩
  have pendingBase := pending.atPoint point
  have sameNil : base.nilObject = start.nilObject := by rcases point with rfl | rfl <;> rfl
  have differs : (this == result) = false :=
    beq_false_of_ne fun same => free (same ▸ Heap.mem_addresses pendingBase.found)
  have foundThis : (base.extended result (integerCell value clazz)).heap.cell? this =
      some cell := by
    rw [extended_cell free, differs]
    exact pendingBase.found
  have ready : (base.extended result (integerCell value clazz)).ReadyBut
      fun address => address = this :=
    pendingBase.toReadyBut.extended_ready free (integerCell_ready okClass)
  refine (Program.single_triple (write_exact _ _ _)).weaken (fun _ holds => holds) ?_
  rintro _ machine ⟨_, found, -, -, rfl⟩
  rw [foundThis] at found
  obtain rfl := Option.some.inj found
  have inside := Heap.mem_addresses foundThis
  refine ⟨result, ⟨?_, pendingBase.counter, List.mem_append_left _ pendingBase.held,
    withCell_found _ _ _, (write_kind _ _ _).1.trans pending.kind, fun slot there => ?_⟩,
    sameNil, ?_⟩
  · exact ready.withCell foundThis (fun isInteger => by simp [pending.kind] at isInteger)
      (fun _ same _ => same) fun notThis => absurd rfl notThis
  · rcases List.mem_or_eq_of_mem_set there with old | rfl
    · obtain ⟨address, rfl, null | nil | ⟨isInside, held⟩⟩ := pendingBase.fields slot old
      · exact ⟨address, rfl, Or.inl null⟩
      · exact ⟨address, rfl, Or.inr (Or.inl nil)⟩
      · refine ⟨address, rfl, Or.inr (Or.inr ⟨?_, List.mem_append_left _ held⟩)⟩
        rw [addresses_withCell inside, addresses_extended]
        exact List.mem_append_left _ isInside
    · refine ⟨result, rfl, Or.inr (Or.inr ⟨?_, List.mem_append_right _ List.mem_cons_self⟩)⟩
      rw [addresses_withCell inside, addresses_extended]
      exact List.mem_append_right _ List.mem_cons_self
  · have kept : ((base.extended result (integerCell value clazz)).withCell this
        (cell.write (.pointer result) (.field member.index))).heap.cell? result =
          some (integerCell value clazz) := by
      refine (Heap.cell?_assign ..).trans ?_
      rw [if_neg fun same => by simp [eq_of_beq same] at differs, extended_self free]
    exact getEmbeddedInteger?_of_cell kept rfl

/-- A method with `size` literals, none of which is assigned yet. -/
def MethodUnset (this : Address) (size : Nat) (machine : Machine) : Prop :=
  ∃ cell, machine.MethodPending this cell ∧ machine.Unset cell ∧ cell.entries.length = size

theorem setInteger_unset {this : Address} {size : Nat} {member : Member} (value : Int)
    (other : member.index ≠ Member.numberOfConstants.index) :
    Triple construction (MethodUnset this size)
      (run allocator (Construct.setInteger .vmMethod this member value)) fun _ =>
        MethodUnset this size := by
  refine .of_states ?_
  rintro start ⟨cell, pending, unset, length⟩
  refine (setInteger_method allocator pending unset member value).weaken (fun _ holds => holds) ?_
  rintro _ machine ⟨result, pending, sameNil, -⟩
  refine ⟨_, pending, ?_, length⟩
  unfold Unset at unset ⊢
  rw [sameNil, ← unset]
  exact List.getElem?_set_ne other

/-- The literals are nil, and `numberOfConstants` counts them. -/
theorem MethodPending.finish {this result : Address} (pending : start.MethodPending this cell)
    (constants : cell.fields[Member.numberOfConstants.index]? = some (.pointer result))
    (count : start.heap.getEmbeddedInteger? (some (.pointer result)) = some cell.entries.length) :
    (start.withCell this (filled cell start.nilObject cell.entries.length)).ended.Ready := by
  have notInteger : cell.kind = some .vmInteger →
      (filled cell start.nilObject cell.entries.length).kind = some .vmInteger ∧
        (filled cell start.nilObject cell.entries.length).embeddedInteger = cell.embeddedInteger :=
    fun isInteger => by simp [pending.kind] at isInteger
  have carries := carries_withCell pending.found notInteger
  have entries : (filled cell start.nilObject cell.entries.length).entries =
      List.replicate cell.entries.length (.pointer start.nilObject) := by
    simp [filled]
  refine ⟨(pending.withCell pending.found notInteger (fun _ same other => other same)
    fun _ => ?_).ended, ?_⟩
  · refine ⟨⟨by simp [filled, pending.kind], ?_, ?_, fun _ => ?_⟩, fun slot there => ?_⟩
    · rintro (isArray | isArray) <;> simp [filled, pending.kind] at isArray
    · rintro (isPrimitive | isPrimitive) <;> simp [filled, pending.kind] at isPrimitive
    · rw [entries, List.length_replicate]
      change Heap.getEmbeddedInteger? _ cell.fields[Member.numberOfConstants.index]? = _
      rw [constants]
      exact carries.integers result _ trivial count
    · have there : slot ∈ cell.fields ++ (filled cell start.nilObject cell.entries.length).entries := by
        simpa [Cell.pointerSlots, filled, pending.kind] using there
      rw [entries] at there
      rcases List.mem_append.mp there with isField | isEntry
      · exact (pending.fields slot isField).ok.carried carries
      · rw [List.eq_of_mem_replicate isEntry]
        exact slotOk_nil _
  · simp [Machine.ended, Machine.withCell, pending.counter]

theorem newMethod_triple (bcCount numberOfConstants : Nat) :
    Triple construction Ready
      (run allocator (Construct.new numberOfConstants fun this =>
        Construct.vmMethod this bcCount numberOfConstants)) fun _ => Ready := by
  refine new_triple allocator numberOfConstants fun base this ready notNull free => ?_
  refine Program.bind_triple _ (vmObject_extended allocator free _ _ _ _) fun _ =>
    Program.bind_triple _ (start_exact allocator) fun _ => ?_
  refine Program.bind_triple (fun _ => MethodUnset this numberOfConstants)
    ((setInteger_unset allocator _ (by decide)).weaken ?_ fun _ _ holds => holds) fun _ =>
    Program.bind_triple _ (setInteger_unset allocator _ (by decide)) fun _ =>
    Program.bind_triple _ (setInteger_unset allocator _ (by decide)) fun _ =>
    Program.bind_triple _ (setInteger_unset allocator _ (by decide)) fun _ => .of_states ?_
  · rintro _ rfl
    have pending : ∀ cell, (base.extended this cell).ReadyBut fun address => address = this :=
      fun cell => (ready.extended free).mono fun address pending => pending.resolve_left not_false
    refine ⟨_, ⟨(pending _).started, ?_, List.mem_append_right _ List.mem_cons_self,
      extended_self free _, rfl, fun slot there => ?_⟩, rfl, List.length_replicate ..⟩
    · exact (congrArg (· + 1) ready.counter).trans (Int.zero_add 1)
    · rcases List.mem_cons.mp there with rfl | there
      · exact ⟨0, rfl, Or.inl rfl⟩
      · exact ⟨_, List.eq_of_mem_replicate there, Or.inr (Or.inl rfl)⟩
  rintro start ⟨cell, pending, unset, length⟩
  refine Program.bind_triple _ (setInteger_method allocator pending unset _ _) fun _ =>
    .of_states ?_
  rintro middle ⟨result, pendingMiddle, -, count⟩
  refine Program.bind_triple _ (fillEntries_exact allocator _ pendingMiddle.found) fun _ =>
    .of_states ?_
  rintro _ ⟨-, rfl⟩
  refine (end_exact allocator).weaken (fun _ holds => holds) ?_
  rintro _ machine rfl
  have known : Member.numberOfConstants.index < cell.fields.length := by
    by_contra outside
    rw [Unset, List.getElem?_eq_none (Nat.not_lt.mp outside)] at unset
    exact nomatch unset
  subst length
  exact pendingMiddle.finish (List.getElem?_set_self known) count

/-! ### Requests -/

theorem write_ready (ready : start.Ready) {object : Address} {place : Place} (value : Address)
    (counts : ∀ cell, start.heap.cell? object = some cell → cell.kind = some .vmMethod →
      place ≠ .field Member.numberOfConstants.index) :
    Triple construction (fun machine => machine = start) (write object place (.pointer value))
      fun _ => Ready := by
  refine (write_exact _ _ _).weaken (fun _ holds => holds) ?_
  rintro _ machine ⟨cell, found, -, ok, rfl⟩
  have integer : cell.kind = some .vmInteger →
      (cell.write (.pointer value) place).kind = some .vmInteger ∧
        (cell.write (.pointer value) place).embeddedInteger = cell.embeddedInteger :=
    fun isInteger => ⟨(write_kind _ _ _).1.trans isInteger, by cases place <;> rfl⟩
  refine ⟨ready.withCell found integer (fun _ none _ => none) fun _ => ?_, ready.counter⟩
  have cellReady := (ready.cells object cell found not_false).write (ok nofun) (counts cell found)
  exact cellReady.carried (carries_withCell found integer) fun _ _ _ => trivial

theorem inspect_exact (object : Address) :
    Triple construction (fun machine => machine = start)
      (run allocator (Construct.ask (.inspect object))) fun cell machine =>
        start.heap.cell? object = some cell ∧ machine = start := by
  refine (Program.single_triple (inspect_triple object)).weaken (fun _ holds => holds) ?_
  rintro cell machine ⟨found, rfl⟩
  exact ⟨found, rfl⟩

/-- No setter of a method assigns `numberOfConstants`. -/
theorem setter_counts (setter : Setter) (applies : setter.appliesTo .vmMethod = true) :
    setter.member.index ≠ Member.numberOfConstants.index := by
  cases setter <;> decide

theorem set_triple (object : Address) (setter : Setter) (value : Address) :
    Triple construction Ready (run allocator (Construct.set object setter value))
      fun _ => Ready := by
  refine .of_states fun start ready => ?_
  refine Program.bind_triple _ (inspect_exact allocator object) fun cell => .of_states ?_
  rintro _ ⟨found, rfl⟩
  by_cases applies : cell.kind.any setter.appliesTo = true
  · simp only [applies]
    refine Program.single_triple (write_ready ready value fun other there isMethod => ?_)
    rw [found] at there
    obtain rfl := Option.some.inj there
    rw [isMethod] at applies
    exact fun same => setter_counts setter applies (Place.field.inj same)
  · simp only [applies]
    exact Program.single_triple (triple_stop _)

theorem setField_triple (object : Address) (index : Nat) (value : Address) :
    Triple construction Ready (run allocator (Construct.setField object index value))
      fun _ => Ready := by
  refine .of_states fun start ready => ?_
  refine Program.bind_triple _ (inspect_exact allocator object) fun cell => .of_states ?_
  rintro _ ⟨found, rfl⟩
  by_cases fields : cell.kind = some .vmObject ∨ cell.kind = some .vmClass
  · simp only [fields]
    refine Program.single_triple (write_ready ready value fun other there isMethod => ?_)
    rw [found] at there
    obtain rfl := Option.some.inj there
    simp [isMethod] at fields
  · simp only [fields]
    exact Program.single_triple (triple_stop _)

theorem setEntry_triple (object : Address) (index : Nat) (value : Address) :
    Triple construction Ready (run allocator (Construct.setEntry object index value))
      fun _ => Ready :=
  .of_states fun _ ready => Program.single_triple (write_ready ready value fun _ _ _ => nofun)

theorem setGlobal_triple (name value : Address) :
    Triple construction Ready (setGlobal name value) fun _ => Ready := by
  have silent : ∀ machine, construction.holds machine [.global name value machine] machine :=
    fun _ => quiet_event trivial
  refine .bind _ (triple_emit fun machine _ _ => silent machine) fun _ =>
    dropping_triple (fun _ _ _ => quiet_event trivial) ?_
  rintro machine ⟨ready, stores⟩ _
  refine ⟨⟨fun address cell found finished => ?_, fun other there => ?_⟩, ready.counter⟩
  · exact (ready.cells address cell found finished).carried (carries_of_heap rfl rfl)
      fun _ _ _ => trivial
  · obtain ⟨entry, isEntry, rfl⟩ := List.mem_map.mp there
    rcases mem_assign isEntry with old | new
    · exact ready.globals _ (List.mem_map_of_mem old)
    · exact new ▸ stores

/-- An operation that changes neither the heap nor the root table. -/
theorem read_ready {Value : Type} (view : Machine → Value) :
    Triple construction Ready (view <$> read : MachineM Value) fun _ => Ready :=
  .bind _ triple_read fun _ => triple_pure fun _ holds => holds.2

theorem request_triple (request : Request) :
    Triple construction Ready (run allocator request.program) fun _ => Ready := by
  cases request with
  | newObject numberOfFields =>
      exact newPlain_triple allocator .vmObject ⟨nofun, nofun, nofun⟩ numberOfFields 0 ""
  | newArray size => exact newArray_triple allocator size
  | newFrame length => exact newFrame_triple allocator length
  | newMethod bcCount numberOfConstants => exact newMethod_triple allocator _ _
  | newBlock =>
      exact newPlain_triple allocator .vmBlock ⟨nofun, nofun, nofun⟩ 2 0 ""
  | newClass numberOfFields =>
      exact newPlain_triple allocator .vmClass ⟨nofun, nofun, nofun⟩ (numberOfFields + 4) 0 ""
  | newInteger value =>
      exact newPlain_triple allocator .vmInteger ⟨nofun, nofun, nofun⟩ 0 value ""
  | newBigInteger value =>
      exact newPlain_triple allocator .vmBigInteger ⟨nofun, nofun, nofun⟩ 0 value ""
  | newDouble =>
      exact newPlain_triple allocator .vmDouble ⟨nofun, nofun, nofun⟩ 0 0 ""
  | newString chars =>
      exact newPlain_triple allocator .vmString ⟨nofun, nofun, nofun⟩ 0 0 chars
  | newPrimitive signature => exact newPrimitive_triple allocator signature
  | newEvaluationPrimitive argc => exact newEvaluationPrimitive_triple allocator argc
  | symbolFor text => exact Program.single_triple (symbolFor_triple allocator text)
  | set object setter value => exact set_triple allocator object setter value
  | setField object index value => exact setField_triple allocator object index value
  | setEntry object index value => exact setEntry_triple allocator object index value
  | inspect object =>
      exact (Program.single_triple (inspect_triple object)).weaken (fun _ holds => holds)
        fun _ _ holds => holds.2
  | hasGlobal name => exact Program.single_triple (read_ready _)
  | setGlobal name value => exact Program.single_triple (setGlobal_triple name value)
  | nilObject => exact Program.single_triple (read_ready _)
  | globalObject name => exact Program.single_triple (read_ready _)
  | assign name value =>
      exact Program.single_triple (triple_modify (fun _ _ => quiet _ _) fun machine ready =>
        ⟨ready.of_heap rfl rfl rfl, ready.counter⟩)
  | fullGC =>
      exact Program.single_triple (collect_triple (fun _ _ _ => quiet_event trivial)
        (fun _ _ _ _ => quiet_event trivial)
        fun machine ready _ _ => ⟨ready.collected, ready.counter⟩)
  | errorExit => exact Program.single_triple (triple_stop _)

/-- The machine with nil, before nil has a class. -/
theorem nil_ready (nilObject : Address) :
    Ready { extended {} nilObject { kind := some .vmObject, fields := [.pointer 0] } with
      nilObject := nilObject } := by
  refine ⟨⟨fun address cell found _ => ?_, nofun⟩, rfl⟩
  have found : (extended {} nilObject _).heap.cell? address = some cell := found
  rw [extended_cell List.not_mem_nil] at found
  split at found
  · obtain rfl := Option.some.inj found
    refine plain_ready rfl ⟨nofun, nofun, nofun⟩ rfl (fun slot there => ?_) nofun
    rw [List.mem_singleton.mp there]
    exact slotOk_null _
  · exact nomatch found

theorem createNil_triple :
    Triple construction (fun machine => machine = {}) (createNil allocator) fun _ => Ready := by
  have ready : Ready {} := ⟨⟨nofun, nofun⟩, rfl⟩
  refine .bind (fun object machine => machine =
    extended {} object { kind := some .vmObject, fields := [.pointer 0] }) ?_ fun nilObject => ?_
  · refine Program.bind_triple _ (Program.single_triple
      (allocateObject_exact allocator .universe _ ready.findsReady)) fun object => .of_states ?_
    rintro _ ⟨base, point, -, free, rfl⟩
    obtain rfl : base = {} := by rcases point with rfl | rfl <;> rfl
    exact Program.bind_triple _ (vmObject_extended allocator free _ _ _ _) fun _ =>
      triple_pure fun _ holds => holds
  refine .bind (fun _ => Ready) (triple_modify (fun _ _ => quiet _ _) ?_) fun _ => .of_states ?_
  · rintro _ rfl
    exact nil_ready nilObject
  · intro start ready
    exact write_ready ready nilObject fun _ _ _ => by decide

end Machine

/-! ### Runs -/

/-- At every allocation point the roots can be scanned. -/
def ObjectsScannable (events : List Event) : Prop :=
  ∀ site machine, Event.allocation site machine ∈ events → machine.RootsScannable

/-- The roots can be scanned exactly at the finished allocation points. -/
def ScannableWhereFinished (events : List Event) : Prop :=
  ∀ site machine, Event.allocation site machine ∈ events →
    (site.Finished → machine.RootsScannable) ∧
      (machine.NilIsObject → machine.RootsScannable → site.Finished)

theorem findsReady (allocator : Allocator) {Value : Type} (program : VmProgram Value)
    (stores : ∀ event ∈ ((program.run allocator).run {}).events, event.MakesScannable) :
    ∀ event ∈ ((program.run allocator).run {}).events, event.FindsReady := by
  have triple : Triple construction (fun machine => machine = {}) (program.run allocator)
      fun _ => Machine.Ready :=
    .bind _ (Machine.createNil_triple allocator) fun _ =>
      Program.keeps (Machine.request_triple allocator) program
  exact (triple {} rfl stores).1

/-- In a run that assigns only objects, an allocation point finds the roots scannable
unless it is in the constructor of `VMMethod` or in `computeSignatureString`. -/
theorem scannable_where_finished (allocator : Allocator) {Value : Type}
    (program : VmProgram Value)
    (stores : ∀ event ∈ ((program.run allocator).run {}).events, event.MakesScannable) :
    ScannableWhereFinished ((program.run allocator).run {}).events :=
  fun site machine point => findsReady allocator program stores (.allocation site machine) point

instance (machine : Machine) (slot : Slot) : Decidable (machine.SlotOk slot) :=
  match slot with
  | .raw => isFalse fun ok => nomatch ok.choose_spec.1
  | .pointer address =>
      decidable_of_iff
        (address = 0 ∨ address = machine.nilObject ∨ address ∈ machine.heap.addresses)
        ⟨fun ok => ⟨address, rfl, ok⟩, fun ⟨_, same, ok⟩ => Slot.pointer.inj same ▸ ok⟩

instance (event : Event) : Decidable event.MakesScannable :=
  match event with
  | .store value machine => inferInstanceAs (Decidable (machine.SlotOk (.pointer value)))
  | .global _ value machine =>
      inferInstanceAs (Decidable (value = 0 ∨ value ∈ machine.heap.addresses))
  | .array size => inferInstanceAs (Decidable (VMArray.Fillable size))
  | .allocation _ _ | .collection _ | .dropped _ _ | .symbol _ _ _ =>
      inferInstanceAs (Decidable True)

/-- A method with one literal, made in the constructor that is not finished, and an
array. -/
def methodMade : VmProgram Address := do
  let signature ← Universe.symbolFor "run"
  let _ ← Universe.newMethod signature 3 1
  Universe.newArray 2

theorem methodMade_scannable :
    ScannableWhereFinished ((methodMade.run firstFit).run {}).events :=
  scannable_where_finished firstFit methodMade (by decide +kernel)

/-- Is the event an allocation in the constructor of `VMMethod`, with nil in place? -/
def Event.isMethodPoint : Event → Bool
  | .allocation .vmMethod machine =>
      machine.heap.getEmbeddedInteger? (some (.pointer machine.nilObject)) == none
  | _ => false

/-- The five Integers are allocated while the method counts with nil. -/
theorem method_not_scannable : ¬ ObjectsScannable ((methodMade.run firstFit).run {}).events := by
  intro scannable
  have point : ∃ event ∈ ((methodMade.run firstFit).run {}).events,
      event.isMethodPoint = true := by decide +kernel
  obtain ⟨event, there, isPoint⟩ := point
  have finds := findsReady firstFit methodMade (by decide +kernel) event there
  cases event with
  | allocation site machine =>
      cases site with
      | vmMethod =>
          have nilIsObject : machine.NilIsObject := eq_of_beq isPoint
          exact (finds.2 nilIsObject (scannable _ _ there)).1 rfl
      | _ => exact nomatch isPoint
  | _ => exact nomatch isPoint

end Somr.Memory
