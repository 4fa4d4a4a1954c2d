import Somr.Memory.Interning

/-!
Owns the global dictionary over whole runs: what `GetGlobal` answers after any
sequence of calls of `Universe`.

The root table serves both the program and the virtual machine, which stores new
frames, methods, blocks and classes in it under names of its own. A name that none
of these stores uses is bound to what was last defined under it.
-/

namespace Somr.Memory

open Somr.Foundation Process

/-! ### Calls of Universe -/

namespace Universe

/-- What `NewBlock` does once it has the class of the block. -/
def finishBlock (result blockClass method context : Address) : VmProgram Address := do
  request (.set result .clazz blockClass)
  request (.set result .blockMethod method)
  request (.set result .blockContext context)
  request (.setGlobal (← member method .signature) result)
  return result

/-- Between its allocation and the rest, a block has its class loaded. -/
theorem newBlock_eq (getBlockClassWithArgs : VmProgram Address) (method context : Address) :
    newBlock getBlockClassWithArgs method context = (do
      let result ← request .newBlock
      let blockClass ← getBlockClassWithArgs
      finishBlock result blockClass method context) := rfl

end Universe

/-- What a run of the virtual machine is made of. The bootstrap, `global:put:` and the
loading of a class define a global by a request; the other calls do so on their own. -/
inductive Call where
  | request (asked : Request)
  | newFrame (previousFrame method : Address) (length : Nat)
  | newMethod (signature : Address) (numberOfBytecodes numberOfConstants : Nat)
  | finishBlock (result blockClass method context : Address)
  | newClass (classOfClass : Address) (numFields : Nat)
  | newSystemClass

namespace Call

def Answer : Call → Type
  | .request asked => asked.Answer
  | _ => Address

def program : (call : Call) → VmProgram call.Answer
  | .request asked => Universe.request asked
  | .newFrame previousFrame method length => Universe.newFrame previousFrame method length
  | .newMethod signature numberOfBytecodes numberOfConstants =>
      Universe.newMethod signature numberOfBytecodes numberOfConstants
  | .finishBlock result blockClass method context =>
      Universe.finishBlock result blockClass method context
  | .newClass classOfClass numFields => Universe.newClass classOfClass numFields
  | .newSystemClass => Universe.newSystemClass

/-- Is this the definition of a global? -/
def defines : Call → Bool
  | .request (.setGlobal _ _) => true
  | _ => false

def perform (allocator : Allocator) (call : Call) : MachineM call.Answer :=
  call.program.perform allocator

end Call

abbrev UniverseProgram := Program Call Call.Answer

def ask (call : Call) : UniverseProgram call.Answer := .single call

/-- A run, with each event under the call it happens in; the start has none. -/
def UniverseProgram.run {Value : Type} (allocator : Allocator)
    (program : UniverseProgram Value) :
    Process (Option Call × Event) Halt Machine Value := do
  (createNil allocator).labelled none
  Program.run (fun call => (call.perform allocator).labelled (some call)) program

/-! ### Bindings -/

namespace Machine

/-- The entries of the root table, each with the characters of its name. -/
def globals (machine : Machine) : List (Option String × Address) :=
  machine.rootTable.map fun entry => (machine.heap.getChars? entry.1, entry.2)

/-- What is stored under a text. -/
def binding (machine : Machine) (text : String) : Option Address :=
  valueOf (fun a b => a == b) (some text) machine.globals

/-- The name of every entry still has its characters. -/
def Named (machine : Machine) : Prop :=
  ∀ entry ∈ machine.rootTable, (machine.heap.getChars? entry.1).isSome = true

/-- The name of every entry is reached from the roots. -/
def NamesLive (machine : Machine) : Prop := ∀ entry ∈ machine.rootTable, machine.Live entry.1

instance (machine : Machine) : Decidable machine.NamesLive :=
  inferInstanceAs (Decidable (∀ entry ∈ machine.rootTable, machine.Live entry.1))

variable {machine : Machine} {name value : Address} {text : String}

theorem sameChars_eq (chars : machine.heap.getChars? name = some text) (other : Address) :
    machine.sameChars name other =
      (machine.heap.getChars? name == machine.heap.getChars? other) := by
  rw [sameChars, chars]
  cases machine.heap.getChars? other with
  | none => rfl
  | some otherText => rfl

theorem hasGlobal_eq (chars : machine.heap.getChars? name = some text) :
    machine.hasGlobal name = (machine.binding text).getD 0 := by
  have byName : valueOf (fun a b => a == b) (machine.heap.getChars? name) machine.globals =
      valueOf machine.sameChars name machine.rootTable :=
    valueOf_map fun entry _ => sameChars_eq chars entry.1
  rw [hasGlobal, ← byName, chars, binding]

/-- `SetGlobal` binds the text of the name and no other. -/
theorem binding_setGlobal (chars : machine.heap.getChars? name = some text) (other : String) :
    ({ machine with
        rootTable := assign machine.sameChars name value machine.rootTable } : Machine).binding
      other = if other = text then some value else machine.binding other := by
  have byName : (assign machine.sameChars name value machine.rootTable).map
      (fun entry => (machine.heap.getChars? entry.1, entry.2)) =
        assign (fun a b => a == b) (machine.heap.getChars? name) value machine.globals :=
    map_assign fun entry _ => sameChars_eq chars entry.1
  unfold binding
  change valueOf _ _ (List.map _ (assign _ _ _ _)) = _
  rw [byName, chars, valueOf_beq_assign]
  by_cases same : other = text
  · rw [if_pos same, if_pos (by rw [same]; exact beq_self_eq_true _)]
  · rw [if_neg same, if_neg (by rw [beq_iff_eq, Option.some.injEq]; exact same)]

end Machine

/-! ### What is stored in a run -/

/-- The value that an event stores under a text. -/
def Event.stores (text : String) : Event → Option Address
  | .global name value machine =>
      if machine.heap.getChars? name = some text then some value else none
  | _ => none

/-- The value stored last under a text. -/
def lastStored (text : String) : List Event → Option Address
  | [] => none
  | event :: events => (lastStored text events).or (event.stores text)

theorem lastStored_append (text : String) (early late : List Event) :
    lastStored text (early ++ late) = (lastStored text late).or (lastStored text early) := by
  induction early with
  | nil => rw [List.nil_append, lastStored, Option.or_none]
  | cons event early inductionHypothesis =>
      rw [List.cons_append, lastStored, lastStored, inductionHypothesis, Option.or_assoc]

theorem lastStored_silent {text : String} {events : List Event}
    (silent : ∀ event ∈ events, event.stores text = none) : lastStored text events = none := by
  induction events with
  | nil => rfl
  | cons event events inductionHypothesis =>
      rw [lastStored, silent event List.mem_cons_self,
        inductionHypothesis fun other there => silent other (List.mem_cons_of_mem event there)]
      rfl

/-- A name has its characters when something is stored under it, and a collection keeps
the names of all entries. -/
def Event.KeepsNames : Event → Prop
  | .collection machine => machine.NamesLive
  | .global name _ machine => (machine.heap.getChars? name).isSome = true
  | _ => True

/-- In a run that keeps the names, a text is bound to what was stored last under it. -/
def dictionary : RunRelation Event Machine where
  allowed := Event.KeepsNames
  holds before events after :=
    before.Named → after.Named ∧
      ∀ text, after.binding text = (lastStored text events).or (before.binding text)
  refl machine := fun named => ⟨named, fun text => rfl⟩
  trans := by
    intro first second third early late holdsEarly holdsLate named
    obtain ⟨namedEarly, boundEarly⟩ := holdsEarly named
    obtain ⟨namedLate, boundLate⟩ := holdsLate namedEarly
    refine ⟨namedLate, fun text => ?_⟩
    rw [boundLate, boundEarly, lastStored_append, Option.or_assoc]

/-! ### Operations -/

namespace Machine

/-- A change that keeps the table and all characters. -/
structure KeepsEntries (before after : Machine) : Prop where
  rootTable : after.rootTable = before.rootTable
  chars : ∀ name text, before.heap.getChars? name = some text →
    after.heap.getChars? name = some text

theorem KeepsEntries.globals {before after : Machine} (keeps : KeepsEntries before after)
    (named : before.Named) : after.globals = before.globals := by
  unfold Machine.globals
  rw [keeps.rootTable]
  apply List.map_congr_left
  intro entry there
  obtain ⟨text, chars⟩ := Option.isSome_iff_exists.mp (named entry there)
  rw [chars, keeps.chars _ _ chars]

theorem KeepsEntries.named {before after : Machine} (keeps : KeepsEntries before after)
    (named : before.Named) : after.Named := by
  intro entry there
  rw [keeps.rootTable] at there
  obtain ⟨text, chars⟩ := Option.isSome_iff_exists.mp (named entry there)
  rw [keeps.chars _ _ chars]
  rfl

theorem KeepsEntries.holds {before after : Machine} {events : List Event}
    (keeps : KeepsEntries before after)
    (silent : ∀ event ∈ events, ∀ text, event.stores text = none) :
    dictionary.holds before events after := by
  intro named
  refine ⟨keeps.named named, fun text => ?_⟩
  rw [lastStored_silent fun event there => silent event there text, Option.none_or, binding,
    keeps.globals named, binding]

/-- A step that may take references away keeps the table and all characters. -/
theorem KeepsEntries.dropped_holds {before after : Machine} (keeps : KeepsEntries before after) :
    dictionary.holds before [.dropped before after] after :=
  keeps.holds fun _ there _ => List.mem_singleton.mp there ▸ rfl

theorem keepsEntries_of_heap {before after : Machine}
    (rootTable : after.rootTable = before.rootTable) (heap : after.heap = before.heap) :
    KeepsEntries before after :=
  ⟨rootTable, fun _ _ chars => heap ▸ chars⟩

/-- A new value for an object that has no class yet, or keeps its class and characters. -/
theorem keepsEntries_withCell {machine : Machine} {object : Address} {old cell : Cell}
    (was : machine.heap.cell? object = some old)
    (kept : old.kind ≠ none → cell.kind = old.kind ∧ cell.chars = old.chars) :
    KeepsEntries machine (machine.withCell object cell) := by
  refine ⟨rfl, fun name text chars => ?_⟩
  unfold withCell Heap.getChars? at *
  simp only [Heap.cell?_assign]
  by_cases same : (name == object) = true
  · rw [eq_of_beq same, was] at chars
    rw [if_pos same]
    have hasKind : old.kind ≠ none := by
      intro raw
      simp [raw] at chars
    obtain ⟨kind, sameChars⟩ := kept hasKind
    simp only [kind, sameChars]
    exact chars
  · rw [if_neg same]
    exact chars

theorem keepsEntries_placed {machine : Machine} {object : Address} (cell : Cell)
    (free : object ∉ machine.heap.addresses) :
    KeepsEntries machine (machine.placed object cell) := by
  refine ⟨rfl, fun name text chars => ?_⟩
  unfold Heap.getChars? at chars ⊢
  rw [placed_cell cell free]
  by_cases same : (name == object) = true
  · rw [eq_of_beq same, Heap.cell?_eq_none free] at chars
    cases chars
  · rw [if_neg same]
    exact chars

/-- A collection keeps the entries whose names it reaches. -/
theorem collected_dictionary (machine : Machine) (live : machine.NamesLive) :
    dictionary.holds machine [.dropped machine machine.collected] machine.collected := by
  intro named
  have kept : ∀ entry ∈ machine.rootTable,
      machine.collected.heap.getChars? entry.1 = machine.heap.getChars? entry.1 := by
    intro entry there
    unfold Heap.getChars?
    rw [collected_cell, if_pos ((marked_iff machine entry.1).mpr (live entry there))]
  have sameGlobals : machine.collected.globals = machine.globals := by
    apply List.map_congr_left
    intro entry there
    rw [kept entry there]
  constructor
  · intro entry there
    rw [kept entry there]
    exact named entry there
  · intro text
    rw [binding, sameGlobals, binding]
    rfl

theorem setGlobal_dictionary (name value : Address) :
    (setGlobal name value).Obeys dictionary := by
  intro machine _ allowed
  have hasChars : (machine.heap.getChars? name).isSome = true :=
    allowed (.global name value machine) List.mem_cons_self
  obtain ⟨text, chars⟩ := Option.isSome_iff_exists.mp hasChars
  have stored (other : String) (after : Machine) :
      lastStored other [.global name value machine, .dropped machine after] =
        if other = text then some value else none := by
    have silent : (Event.dropped machine after).stores other = none := rfl
    rw [lastStored, lastStored, lastStored, Option.none_or, silent, Option.none_or, Event.stores,
      chars]
    simp only [Option.some.injEq, eq_comm]
  refine ⟨fun named => ⟨?_, fun other => ?_⟩, fun _ _ => trivial⟩
  · have keysIn : KeysIn (fun key => (machine.heap.getChars? key).isSome = true)
        machine.rootTable := named
    exact keysIn.assign hasChars
  · refine (binding_setGlobal chars other).trans ?_
    change _ = (lastStored other [.global name value machine, .dropped machine _]).or _
    rw [stored]
    by_cases same : other = text
    · rw [if_pos same, if_pos same]
      rfl
    · rw [if_neg same, if_neg same]
      rfl

/-! ### Obedience -/

theorem silent_holds {machine : Machine} {event : Event}
    (silent : ∀ text, event.stores text = none) : dictionary.holds machine [event] machine :=
  (keepsEntries_of_heap rfl rfl).holds fun _ there text =>
    List.mem_singleton.mp there ▸ silent text

theorem emit_dictionary {event : Machine → Event}
    (silent : ∀ machine text, (event machine).stores text = none) :
    (emit event : MachineM Unit).Obeys dictionary :=
  Triple.obeys (triple_emit fun machine _ _ => silent_holds (silent machine))

theorem modify_dictionary {change : Machine → Machine}
    (keeps : ∀ machine, KeepsEntries machine (change machine)) :
    (modify change : MachineM Unit).Obeys dictionary :=
  triple_modify (fun machine _ => (keeps machine).holds nofun) fun _ _ => trivial

theorem read_dictionary : (read : MachineM Machine).Obeys dictionary := triple_read.obeys

variable (allocator : Allocator)

theorem allocateObject_dictionary (site : AllocationSite) (cell : Cell) :
    (allocateObject allocator site cell).Obeys dictionary := by
  refine allocateObject_triple allocator site cell (fun _ => True) ?_ ?_ ?_ (fun _ holds => holds)
    ?_
  · exact fun machine _ _ => silent_holds fun _ => rfl
  · exact fun machine _ _ => silent_holds fun _ => rfl
  · exact fun machine _ live _ => ⟨collected_dictionary machine live, trivial⟩
  · intro machine object _ _ free
    have held : KeepsEntries (machine.placed object cell)
        ((machine.placed object cell).holding object) := keepsEntries_of_heap rfl rfl
    exact ⟨(keepsEntries_placed cell free).holds nofun, held.holds nofun, trivial⟩

theorem vmObject_dictionary (object : Address) (kind : Kind) (numberOfFields : Nat)
    (embeddedInteger : Int) (chars : String) :
    (vmObject object kind numberOfFields embeddedInteger chars).Obeys dictionary := by
  refine vmObject_triple _ _ _ _ _ fun machine cell _ found raw => ⟨?_, trivial⟩
  exact (keepsEntries_withCell found fun hasKind => absurd raw hasKind).holds nofun

theorem write_dictionary (object : Address) (place : Place) (slot : Slot) :
    (write object place slot).Obeys dictionary := by
  refine write_triple _ _ _ (fun _ _ _ _ _ => silent_holds fun _ => rfl) ?_
  intro machine cell _ _ found _ _
  have keeps := keepsEntries_withCell found fun _ => write_kind cell slot place
  exact ⟨keeps.dropped_holds, trivial⟩

theorem newSymbol_dictionary (site : AllocationSite) (str : String) :
    (newSymbol allocator site str).Obeys dictionary := by
  refine .bind (allocateObject_dictionary allocator site _) fun result => ?_
  refine .bind (vmObject_dictionary _ _ _ _ _) fun _ => .bind read_dictionary fun _ => ?_
  refine .bind (write_dictionary _ _ _) fun _ => .bind ?_ fun _ => obeys_pure _
  exact modify_dictionary fun _ => keepsEntries_of_heap rfl rfl

theorem symbolFor_dictionary (site : AllocationSite) (text : String) :
    (symbolFor allocator site text).Obeys dictionary := by
  refine .bind ?_ fun result => .bind (emit_dictionary fun _ _ => rfl) fun _ => obeys_pure _
  refine .bind read_dictionary fun machine => .ite (fun _ => obeys_pure _) fun _ => ?_
  exact newSymbol_dictionary allocator site _

theorem perform_dictionary (operation : Operation) :
    (perform allocator operation).Obeys dictionary := by
  cases operation with
  | allocateObject site entries => exact allocateObject_dictionary allocator site _
  | allocateArray size =>
      exact allocateArray_triple allocator size (fun _ _ _ => silent_holds fun _ => rfl)
        fun _ => allocateObject_dictionary allocator .universe _
  | vmObject object kind numberOfFields embeddedInteger chars =>
      exact vmObject_dictionary _ _ _ _ _
  | write object place slot => exact write_dictionary object place slot
  | inspect object => exact (inspect_triple object).obeys
  | startUninterruptableAllocation => exact modify_dictionary fun _ => keepsEntries_of_heap rfl rfl
  | endUninterruptableAllocation =>
      exact dropping_triple (fun _ _ _ => (keepsEntries_of_heap rfl rfl).dropped_holds)
        fun _ _ _ => trivial
  | symbolFor site text => exact symbolFor_dictionary allocator site text
  | hasGlobal name => exact .bind read_dictionary fun _ => obeys_pure _
  | setGlobal name value => exact setGlobal_dictionary name value
  | nilObject => exact .bind read_dictionary fun _ => obeys_pure _
  | globalObject name => exact .bind read_dictionary fun _ => obeys_pure _
  | assign name value => exact modify_dictionary fun _ => keepsEntries_of_heap rfl rfl
  | fullGC =>
      exact collect_triple (fun _ _ _ => silent_holds fun _ => rfl)
        (fun machine _ live _ => collected_dictionary machine live) fun _ _ _ _ => trivial
  | errorExit => exact triple_stop _

theorem createNil_dictionary : (createNil allocator).Obeys dictionary := by
  refine .bind (Program.obeys (perform_dictionary allocator) _) fun nilObject => .bind ?_ fun _ => ?_
  · exact modify_dictionary fun _ => keepsEntries_of_heap rfl rfl
  · exact write_dictionary _ _ _

theorem request_dictionary (request : Request) :
    (Machine.run allocator request.program).Obeys dictionary :=
  Program.obeys (perform_dictionary allocator) request.program

theorem call_dictionary (call : Call) : (call.perform allocator).Obeys dictionary :=
  Program.obeys (request_dictionary allocator) call.program

end Machine

/-! ### Runs -/

/-- Does the event belong to the definition of a global? -/
def isDefinition (entry : Option Call × Event) : Bool := entry.1.any Call.defines

/-- The value that was last defined under a text: by the bootstrap, by `global:put:` or
as the class of that name. -/
def lastDefined (text : String) (events : List (Option Call × Event)) : Option Address :=
  lastStored text ((events.filter isDefinition).map Prod.snd)

/-- The names of the table are kept, and no call stores anything under the text on its own. -/
def Undisturbed (text : String) (entry : Option Call × Event) : Prop :=
  entry.2.KeepsNames ∧ (isDefinition entry = false → entry.2.stores text = none)

theorem lastStored_eq_lastDefined {text : String} {events : List (Option Call × Event)}
    (undisturbed : ∀ entry ∈ events, Undisturbed text entry) :
    lastStored text (events.map Prod.snd) = lastDefined text events := by
  unfold lastDefined
  induction events with
  | nil => rfl
  | cons entry events inductionHypothesis =>
      have rest := inductionHypothesis fun other there =>
        undisturbed other (List.mem_cons_of_mem entry there)
      rw [List.map_cons, lastStored, rest]
      by_cases defines : isDefinition entry = true
      · rw [List.filter_cons_of_pos defines, List.map_cons, lastStored]
      · rw [List.filter_cons_of_neg defines,
          (undisturbed entry List.mem_cons_self).2 (Bool.eq_false_iff.mpr defines), Option.or_none]

/-- The labels say nothing about where a run goes. -/
theorem UniverseProgram.mapEvents_run {Value : Type} (allocator : Allocator)
    (program : UniverseProgram Value) :
    (program.run allocator).mapEvents Prod.snd =
      createNil allocator >>= fun _ => Program.run (Call.perform allocator) program := by
  unfold UniverseProgram.run
  rw [mapEvents_bind, mapEvents_labelled]
  exact congrArg _ (funext fun _ => Program.mapEvents_run_labelled some program)

/-- In every run whose calls store nothing under the text on their own, `GetGlobal` answers
what was last defined under it, and `NULL` where nothing was. The program may end
anywhere, so this is about every state that a run reaches. -/
theorem globals_as_defined (allocator : Allocator) {Value : Type}
    (program : UniverseProgram Value) (text : String) (name : Address)
    (undisturbed : ∀ entry ∈ ((program.run allocator).run {}).events, Undisturbed text entry)
    (chars : ((program.run allocator).run {}).state.heap.getChars? name = some text) :
    ((program.run allocator).run {}).state.hasGlobal name =
      (lastDefined text ((program.run allocator).run {}).events).getD 0 := by
  have obeys : ((program.run allocator).mapEvents Prod.snd).Obeys dictionary := by
    rw [UniverseProgram.mapEvents_run]
    exact (Machine.createNil_dictionary allocator).bind fun _ =>
      Program.obeys (Machine.call_dictionary allocator) program
  have keeps : ∀ event ∈ (((program.run allocator).mapEvents Prod.snd).run {}).events,
      dictionary.allowed event := by
    intro event there
    obtain ⟨entry, isEntry, rfl⟩ := List.mem_map.mp there
    exact (undisturbed entry isEntry).1
  have noEntries : ({} : Machine).Named := fun entry there => absurd there List.not_mem_nil
  obtain ⟨_, bound⟩ := (obeys {} trivial keeps).1 noEntries
  rw [run_mapEvents] at bound
  have empty : ({} : Machine).binding text = none := rfl
  rw [Machine.hasGlobal_eq chars, bound, lastStored_eq_lastDefined undisturbed, empty,
    Option.or_none]

instance (event : Event) : Decidable event.KeepsNames :=
  match event with
  | .collection machine => inferInstanceAs (Decidable machine.NamesLive)
  | .global name _ machine =>
      inferInstanceAs (Decidable ((machine.heap.getChars? name).isSome = true))
  | .allocation _ _ | .array _ | .store _ _ | .dropped _ _ | .symbol _ _ _ =>
      inferInstanceAs (Decidable True)

instance (text : String) (entry : Option Call × Event) : Decidable (Undisturbed text entry) :=
  inferInstanceAs (Decidable (_ ∧ _))

/-- A global and, behind it, a method of another name and a collection. -/
def counterDefined : UniverseProgram Unit := do
  let name ← ask (.request (.symbolFor "Counter"))
  ask (.request (.setGlobal name name))
  let signature ← ask (.request (.symbolFor "increment"))
  let _ ← ask (.newMethod signature 1 0)
  ask (.request .fullGC)

theorem globals_as_defined_counter :
    ((counterDefined.run firstFit).run {}).state.hasGlobal 2 =
      (lastDefined "Counter" ((counterDefined.run firstFit).run {}).events).getD 0 :=
  globals_as_defined firstFit counterDefined "Counter" 2 (by decide +kernel) (by decide +kernel)

/-- A global and, behind it, a method of the same name; nothing is defined as `reset`. -/
def counterReplaced : UniverseProgram Unit := do
  let name ← ask (.request (.symbolFor "counter"))
  ask (.request (.setGlobal name name))
  let _ ← ask (.newMethod name 1 0)
  let signature ← ask (.request (.symbolFor "reset"))
  let _ ← ask (.newMethod signature 1 0)
  return ()

/-- Both names are bound to the methods. -/
theorem globals_replaced :
    let outcome := (counterReplaced.run firstFit).run {}
    outcome.state.heap.getChars? 2 = some "counter" ∧ outcome.state.hasGlobal 2 = 3 ∧
      (lastDefined "counter" outcome.events).getD 0 = 2 ∧
      outcome.state.heap.getChars? 9 = some "reset" ∧ outcome.state.hasGlobal 9 = 10 ∧
      lastDefined "reset" outcome.events = none := by
  decide +kernel

end Somr.Memory
