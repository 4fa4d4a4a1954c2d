import Mathlib.Data.List.Nodup
import Somr.Memory.Readiness
import Somr.Memory.Universe

/-!
Owns the interning of symbols across collections: when two `SymbolFor` calls
return the same object, and whether it is live.

The symbol table is neither scanned nor pruned by the collector. Interning
therefore holds for the texts whose symbols no step takes out of reach: no
assignment, no global that is bound again, no end of a section and no collection.
The other steps only add references.
-/

namespace Somr.Memory

open Somr.Foundation Process

/-! ### What stays reachable -/

namespace Machine

variable {machine after : Machine}

/-- The roots and the objects that have a class are still there as they were. -/
structure Grows (machine after : Machine) : Prop where
  roots : ∀ address ∈ machine.roots, address ∈ after.roots
  objects : ∀ address ∈ machine.heap.addresses, address ∈ after.heap.addresses
  cells : ∀ address cell, machine.heap.cell? address = some cell → cell.kind ≠ none →
    after.heap.cell? address = some cell

/-- A method that counts with an Integer still does. -/
theorem Grows.getNumberOfIndexableFields (grows : machine.Grows after) {cell : Cell} {count : Int}
    (counts : cell.getNumberOfIndexableFields machine.heap = some count) :
    cell.getNumberOfIndexableFields after.heap = some count := by
  unfold Cell.getNumberOfIndexableFields at counts ⊢
  split at counts
  · exact counts
  · exact counts
  · obtain ⟨address, integer, isPointer, found, isInteger, rfl⟩ := getEmbeddedInteger?_eq_some counts
    rw [isPointer]
    exact getEmbeddedInteger?_of_cell
      (grows.cells address integer found (by simp [isInteger])) isInteger
  · exact counts

theorem Grows.scanned (grows : machine.Grows after) {cell : Cell} {address : Address}
    (there : address ∈ cell.scanned machine.heap) : address ∈ cell.scanned after.heap := by
  cases counts : cell.getNumberOfIndexableFields machine.heap with
  | some count =>
      have same := grows.getNumberOfIndexableFields counts
      unfold Cell.scanned Cell.getNumberOfMarkableFields Cell.getMarkableFieldObj at there ⊢
      rw [counts] at there
      rw [same]
      exact there
  -- only a method can fail to count, and then nothing is found in it
  | none =>
      unfold Cell.scanned Cell.getNumberOfMarkableFields at there
      unfold Cell.getNumberOfIndexableFields at counts
      cases kind : cell.kind with
      | none => simp [kind] at there
      | some kind' => cases kind' <;> simp_all [Cell.getNumberOfIndexableFields]

theorem Grows.live (grows : machine.Grows after) {address : Address}
    (live : machine.Live address) : after.Live address := by
  refine live.transfer (fun root isRoot inside => ?_) fun object next _ isNext inside reached => ?_
  · exact .root (grows.roots root isRoot) (grows.objects root inside)
  refine .step reached ?_ (grows.objects next inside)
  unfold Heap.successors at isNext ⊢
  cases found : machine.heap.cell? object with
  | none =>
      rw [found] at isNext
      exact absurd isNext List.not_mem_nil
  | some cell =>
      rw [found] at isNext
      have isNext : next ∈ cell.scanned machine.heap := isNext
      have hasKind : cell.kind ≠ none := by
        intro raw
        simp [Cell.scanned, Cell.getNumberOfMarkableFields, raw] at isNext
      rw [grows.cells object cell found hasKind]
      exact grows.scanned isNext

/-- A change of anything but the heap and the roots. -/
theorem grows_of_heap (heap : after.heap = machine.heap) (roots : after.roots = machine.roots) :
    machine.Grows after :=
  ⟨fun _ isRoot => roots ▸ isRoot, fun _ inside => heap ▸ inside, fun _ _ found _ => heap ▸ found⟩

theorem grows_placed {object : Address} (free : object ∉ machine.heap.addresses) (cell : Cell) :
    machine.Grows (machine.placed object cell) := by
  refine ⟨fun _ isRoot => isRoot, fun address inside => ?_, fun address found there _ => ?_⟩
  · exact (carries_extended free cell).objects address inside trivial
  · have other : ¬ (address == object) = true :=
      fun same => free (eq_of_beq same ▸ Heap.mem_addresses there)
    rw [placed_cell cell free, if_neg other, there]

theorem grows_holding (machine : Machine) (object : Address) :
    machine.Grows (machine.holding object) := by
  refine ⟨fun root isRoot => ?_, fun _ inside => inside, fun _ _ found _ => found⟩
  rcases List.mem_append.mp isRoot with isGlobal | held
  · exact List.mem_append_left _ isGlobal
  · exact List.mem_append_right _ (List.mem_append_left _ held)

/-- An object is constructed. -/
theorem grows_withCell {object : Address} {old : Cell} (raw : old.kind = none)
    (was : machine.heap.cell? object = some old) (cell : Cell) :
    machine.Grows (machine.withCell object cell) := by
  refine ⟨fun _ isRoot => isRoot, fun address inside => ?_, fun address found there hasKind => ?_⟩
  · rw [addresses_withCell (Heap.mem_addresses was)]
    exact inside
  · have other : ¬ (address == object) = true := by
      intro same
      rw [eq_of_beq same, was] at there
      exact hasKind (Option.some.inj there ▸ raw)
    exact (Heap.cell?_assign ..).trans ((if_neg other).trans there)

end Machine

/-! ### The invariant of the symbol table -/

/-- Is this the symbol object of the text? -/
def Heap.IsSymbol (heap : Heap) (symbol : Address) (text : String) : Prop :=
  ∃ cell, heap.cell? symbol = some cell ∧ cell.kind = some .vmSymbol ∧ cell.chars = text

/-- A text has at most one entry, and the entry of a kept text is its symbol, which can
be reached from the roots. -/
structure Machine.Interned (kept : String → Prop) (machine : Machine) : Prop where
  texts : (machine.symtab.map Prod.fst).Nodup
  notNull : ∀ text symbol, (text, symbol) ∈ machine.symtab → symbol ≠ 0
  symbols : ∀ text symbol, kept text → (text, symbol) ∈ machine.symtab →
    machine.heap.IsSymbol symbol text
  live : ∀ text symbol, kept text → (text, symbol) ∈ machine.symtab → machine.Live symbol

/-- A step that may take references away takes no symbol of these texts out of reach. -/
def Event.KeepsReach (kept : String → Prop) : Event → Prop
  | .dropped before after => ∀ text symbol, kept text → (text, symbol) ∈ before.symtab →
      before.Live symbol → after.Live symbol
  | _ => True

/-- A `SymbolFor` call for a kept text returned a live object, which the table still has. -/
def Event.ReturnsInterned (kept : String → Prop) (symtab : List (String × Address)) :
    Event → Prop
  | .symbol text result machine => kept text → (text, result) ∈ symtab ∧ machine.Live result
  | _ => True

/-- How a run that keeps the symbols of some texts within reach treats the table. -/
def interning (kept : String → Prop) : RunRelation Event Machine where
  allowed := Event.KeepsReach kept
  holds before events after :=
    before.Interned kept → after.Interned kept ∧ before.symtab ⊆ after.symtab ∧
      ∀ event ∈ events, event.ReturnsInterned kept after.symtab
  refl machine := fun interned => ⟨interned, List.Subset.refl _, nofun⟩
  trans := by
    intro first second third early late holdsEarly holdsLate interned
    obtain ⟨interned, grows, returned⟩ := holdsEarly interned
    obtain ⟨internedLate, growsLate, returnedLate⟩ := holdsLate interned
    refine ⟨internedLate, List.Subset.trans grows growsLate, fun event there => ?_⟩
    rcases List.mem_append.mp there with there | there
    · have was := returned event there
      cases event with
      | symbol text symbol machine => exact fun isKept => ⟨growsLate (was isKept).1, (was isKept).2⟩
      | _ => trivial
    · exact returnedLate event there

/-! ### Operations -/

namespace Machine

variable {kept : String → Prop}

/-- Events other than the return of a symbol ask for nothing where the table stays. -/
theorem holds_of_interned {before after : Machine} {events : List Event}
    (symtab : after.symtab = before.symtab)
    (interned : before.Interned kept → after.Interned kept)
    (silent : ∀ event ∈ events, ∀ symtab, event.ReturnsInterned kept symtab) :
    (interning kept).holds before events after := by
  intro internedBefore
  refine ⟨interned internedBefore, ?_, fun event there => silent event there _⟩
  rw [symtab]
  exact List.Subset.refl _

/-- A step that takes nothing away. -/
theorem Grows.holds {before after : Machine} (grows : before.Grows after)
    (symtab : after.symtab = before.symtab) : (interning kept).holds before [] after := by
  refine holds_of_interned symtab (fun interned => ?_) nofun
  refine ⟨?_, ?_, fun text symbol isKept there => ?_, fun text symbol isKept there => ?_⟩
  · rw [symtab]
    exact interned.texts
  · rw [symtab]
    exact interned.notNull
  all_goals rw [symtab] at there
  · obtain ⟨cell, found, kind, chars⟩ := interned.symbols text symbol isKept there
    exact ⟨cell, grows.cells symbol cell found (by simp [kind]), kind, chars⟩
  · exact grows.live (interned.live text symbol isKept there)

/-- A step that keeps the symbols within reach, and every symbol object that is live. -/
theorem dropped_holds {before after : Machine} (symtab : after.symtab = before.symtab)
    (symbols : ∀ symbol text, before.Live symbol → before.heap.IsSymbol symbol text →
      after.heap.IsSymbol symbol text)
    (keeps : (Event.dropped before after).KeepsReach kept) :
    (interning kept).holds before [.dropped before after] after := by
  refine holds_of_interned symtab (fun interned => ?_) fun event there symtab => ?_
  · refine ⟨?_, ?_, fun text symbol isKept there => ?_, fun text symbol isKept there => ?_⟩
    · rw [symtab]
      exact interned.texts
    · rw [symtab]
      exact interned.notNull
    all_goals
      rw [symtab] at there
      have live := interned.live text symbol isKept there
    · exact symbols symbol text live (interned.symbols text symbol isKept there)
    · exact keeps text symbol isKept there live
  · rw [List.mem_singleton.mp there]
    trivial

/-- A collection keeps every symbol that is live. -/
theorem collected_holds (machine : Machine)
    (keeps : (Event.dropped machine machine.collected).KeepsReach kept) :
    (interning kept).holds machine [.dropped machine machine.collected] machine.collected := by
  refine dropped_holds rfl (fun symbol text live isSymbol => ?_) keeps
  obtain ⟨cell, found, isSymbol⟩ := isSymbol
  refine ⟨cell, ?_, isSymbol⟩
  rw [collected_cell, if_pos ((marked_iff machine symbol).mpr live), found]

/-- An assignment leaves a symbol the symbol it is. -/
theorem write_holds {machine : Machine} {object : Address} {old : Cell} {slot : Slot}
    {place : Place} (was : machine.heap.cell? object = some old)
    (keeps : (Event.dropped machine
      (machine.withCell object (old.write slot place))).KeepsReach kept) :
    (interning kept).holds machine
      [.dropped machine (machine.withCell object (old.write slot place))]
      (machine.withCell object (old.write slot place)) := by
  refine dropped_holds rfl (fun symbol text _ isSymbol => ?_) keeps
  obtain ⟨found, there, kind, chars⟩ := isSymbol
  unfold withCell Heap.IsSymbol
  simp only [Heap.cell?_assign]
  by_cases same : (symbol == object) = true
  · rw [eq_of_beq same, was] at there
    obtain rfl := Option.some.inj there
    obtain ⟨sameKind, sameChars⟩ := write_kind old slot place
    exact ⟨_, by rw [if_pos same], sameKind.trans kind, sameChars.trans chars⟩
  · exact ⟨found, by rw [if_neg same, there], kind, chars⟩

/-- An event that returns no symbol. -/
theorem event_holds {machine : Machine} {event : Event}
    (silent : ∀ symtab, event.ReturnsInterned kept symtab) :
    (interning kept).holds machine [event] machine :=
  holds_of_interned rfl id fun _ there symtab => List.mem_singleton.mp there ▸ silent symtab

theorem obeys_emit {event : Machine → Event}
    (silent : ∀ machine symtab, (event machine).ReturnsInterned kept symtab) :
    (emit event : MachineM Unit).Obeys (interning kept) :=
  Triple.obeys (triple_emit fun machine _ _ => event_holds (silent machine))

/-- A change of neither the heap nor the roots nor the table. -/
theorem obeys_modify {change : Machine → Machine}
    (heap : ∀ machine, (change machine).heap = machine.heap)
    (roots : ∀ machine, (change machine).roots = machine.roots)
    (symtab : ∀ machine, (change machine).symtab = machine.symtab) :
    (modify change : MachineM Unit).Obeys (interning kept) :=
  triple_modify
    (fun machine _ => (grows_of_heap (heap machine) (roots machine)).holds (symtab machine))
    fun _ _ => trivial

/-- A step that changes the roots only. -/
theorem obeys_dropping {change : Machine → Machine}
    (heap : ∀ machine, (change machine).heap = machine.heap)
    (symtab : ∀ machine, (change machine).symtab = machine.symtab) :
    (dropping change).Obeys (interning kept) := by
  refine dropping_triple (fun machine _ keeps => ?_) fun _ _ _ => trivial
  exact dropped_holds (symtab machine) (fun _ _ _ isSymbol => (heap machine) ▸ isSymbol) keeps

theorem read_obeys : (read : MachineM Machine).Obeys (interning kept) := triple_read.obeys

variable (allocator : Allocator) {symtab : List (String × Address)}

/-- A new object, while the table stays as it was. -/
structure Allocated (symtab : List (String × Address)) (object : Address) (machine : Machine) :
    Prop where
  symtab : machine.symtab = symtab
  notNull : object ≠ 0
  held : object ∈ machine.uninterruptable

theorem allocateObject_interning (site : AllocationSite) (cell : Cell) :
    Triple (interning kept) (fun machine => machine.symtab = symtab)
      (allocateObject allocator site cell) (Allocated symtab) := by
  refine allocateObject_triple allocator site cell (fun machine => machine.symtab = symtab)
    ?_ ?_ ?_ (fun _ table => table) ?_
  · exact fun machine _ _ => event_holds fun _ => trivial
  · exact fun machine _ _ => event_holds fun _ => trivial
  · exact fun machine table _ keeps => ⟨collected_holds machine keeps, table⟩
  · intro machine object table notNull free
    exact ⟨(grows_placed free cell).holds rfl, (grows_holding _ object).holds rfl,
      table, notNull, by simp [holding]⟩

theorem allocateObject_obeys (site : AllocationSite) (cell : Cell) :
    (allocateObject allocator site cell).Obeys (interning kept) := by
  intro machine _ allowed
  exact ⟨(allocateObject_interning allocator site cell machine rfl allowed).1, fun _ _ => trivial⟩

theorem vmObject_obeys (object : Address) (kind : Kind) (numberOfFields : Nat)
    (embeddedInteger : Int) (chars : String) :
    (vmObject object kind numberOfFields embeddedInteger chars).Obeys (interning kept) :=
  vmObject_triple _ _ _ _ _ fun _ _ _ found raw =>
    ⟨(grows_withCell raw found _).holds rfl, trivial⟩

theorem write_obeys (object : Address) (place : Place) (slot : Slot) :
    (write object place slot).Obeys (interning kept) :=
  write_triple _ _ _ (fun _ _ _ _ _ => event_holds fun _ => trivial)
    fun _ _ _ _ found _ keeps => ⟨write_holds found keeps, trivial⟩

/-- A new symbol that the table does not have yet. -/
structure Built (symtab : List (String × Address)) (symbol : Address) (text : String)
    (machine : Machine) : Prop extends Allocated symtab symbol machine where
  isSymbol : machine.heap.IsSymbol symbol text

theorem Allocated.built {object : Address} {text : String} {machine : Machine} {cell : Cell}
    (allocated : Allocated symtab object machine) (kind : cell.kind = some .vmSymbol)
    (chars : cell.chars = text) : Built symtab object text (machine.withCell object cell) := by
  refine ⟨⟨allocated.symtab, allocated.notNull, allocated.held⟩, cell, ?_, kind, chars⟩
  unfold withCell
  rw [Heap.cell?_assign, if_pos (beq_self_eq_true object)]

theorem Built.live {symbol : Address} {text : String} {machine : Machine}
    (built : Built symtab symbol text machine) : machine.Live symbol := by
  obtain ⟨cell, found, -⟩ := built.isSymbol
  exact .root (List.mem_append_right _ built.held) (Heap.mem_addresses found)

/-- `Symboltable::insert` of a symbol whose text is new. -/
theorem insert_holds {symbol : Address} {text : String} {machine : Machine}
    (built : Built symtab symbol text machine)
    (absent : isKey (fun a b => a == b) text symtab = false) :
    (interning kept).holds machine []
      { machine with symtab := assign (fun a b => a == b) text symbol machine.symtab } := by
  intro interned
  rw [built.symtab, assign_of_new absent, ← built.symtab]
  have fresh : text ∉ machine.symtab.map Prod.fst := by
    rw [built.symtab, ← valueOf_beq_isSome]
    simpa [isKey] using absent
  refine ⟨⟨?_, fun other object there => ?_, fun other object isKept there => ?_,
    fun other object isKept there => ?_⟩, List.subset_append_left _ _, nofun⟩
  · rw [List.map_append]
    exact List.Nodup.append interned.texts (List.nodup_singleton text) (by simpa using fresh)
  all_goals rcases List.mem_append.mp there with old | new
  · exact interned.notNull other object old
  · obtain ⟨rfl, rfl⟩ := Prod.mk.inj (List.mem_singleton.mp new)
    exact built.notNull
  · exact interned.symbols other object isKept old
  · obtain ⟨rfl, rfl⟩ := Prod.mk.inj (List.mem_singleton.mp new)
    exact built.isSymbol
  · exact interned.live other object isKept old
  · obtain ⟨rfl, rfl⟩ := Prod.mk.inj (List.mem_singleton.mp new)
    exact built.live

theorem newSymbol_interning (site : AllocationSite) (str : String)
    (absent : isKey (fun a b => a == b) str symtab = false) :
    Triple (interning kept) (fun machine => machine.symtab = symtab)
      (newSymbol allocator site str)
      fun result machine => (str, result) ∈ machine.symtab ∧ machine.Live result := by
  refine .bind _ (allocateObject_interning allocator site _) fun result => ?_
  refine .bind (fun _ => Built symtab result str) ?_ fun _ => .bind _ triple_read fun before => ?_
  · refine vmObject_triple _ _ _ _ _ fun machine cell allocated found raw => ⟨?_, ?_⟩
    · exact (grows_withCell raw found _).holds rfl
    · exact allocated.built rfl rfl
  refine .bind (fun _ => Built symtab result str) ?_ fun _ => ?_
  · refine write_triple _ _ _ (fun _ _ _ _ _ => event_holds fun _ => trivial) ?_
    rintro machine cell ⟨-, built⟩ _ found _ keeps
    obtain ⟨old, there, kind, chars⟩ := built.isSymbol
    rw [found] at there
    obtain rfl := Option.some.inj there
    exact ⟨write_holds found keeps, built.toAllocated.built kind chars⟩
  refine .bind _ (triple_modify (fun machine built => insert_holds built absent) ?_)
    fun _ => triple_pure fun _ holds => holds
  intro machine built
  refine ⟨?_, (built.live : machine.Live result)⟩
  change (str, result) ∈ assign _ str result machine.symtab
  rw [built.symtab, assign_of_new absent]
  exact List.mem_append_right _ List.mem_cons_self

theorem lookup_eq_zero {machine : Machine} {str : String} (interned : machine.Interned kept)
    (notFound : machine.lookup str = 0) :
    isKey (fun a b => a == b) str machine.symtab = false := by
  unfold lookup at notFound
  cases found : valueOf (fun a b => a == b) str machine.symtab with
  | none => rw [isKey, found]; rfl
  | some symbol =>
      rw [found] at notFound
      exact absurd notFound (interned.notNull str symbol (valueOf_beq_mem found))

/-- What the table answers is an entry of it. -/
theorem lookup_mem {machine : Machine} {str : String} (found : machine.lookup str ≠ 0) :
    (str, machine.lookup str) ∈ machine.symtab := by
  unfold lookup at found ⊢
  cases entry : valueOf (fun a b => a == b) str machine.symtab with
  | none => simp [entry] at found
  | some symbol => exact valueOf_beq_mem entry

/-- The symbol of the table, or a new one for a text that the table lacks. -/
theorem symbolForChars_interning (site : AllocationSite) (str : String) :
    Triple (interning kept) (Interned kept) (symbolForChars allocator site str)
      fun result machine => kept str → (str, result) ∈ machine.symtab ∧ machine.Live result := by
  refine .bind _ triple_read fun before => .ite (fun found => ?_) fun notFound => ?_
  · refine triple_pure ?_
    rintro machine ⟨rfl, interned⟩ isKept
    exact ⟨lookup_mem found, interned.live str _ isKept (lookup_mem found)⟩
  · rintro machine ⟨rfl, interned⟩ allowed
    have new := newSymbol_interning allocator site str
      (lookup_eq_zero interned (not_not.mp notFound)) before rfl allowed
    exact ⟨new.1, fun result same _ => new.2 result same⟩

theorem symbolFor_obeys (site : AllocationSite) (text : String) :
    (symbolFor allocator site text).Obeys (interning kept) := by
  intro machine _ allowed
  refine ⟨fun interned => ?_, fun _ _ => trivial⟩
  have triple : Triple (interning kept) (Interned kept) (symbolFor allocator site text)
      fun _ _ => True := by
    refine .bind _ (symbolForChars_interning allocator site _) fun result => ?_
    refine .bind _ (triple_emit fun after holds _ interned => ?_) fun _ =>
      triple_pure fun _ _ => trivial
    refine ⟨interned, List.Subset.refl _, fun event there => ?_⟩
    rw [List.mem_singleton.mp there]
    exact holds
  exact (triple machine interned allowed).1 interned

/-- A symbol that has been taken out of reach is what the next call for its text returns. -/
theorem symbolFor_unreachable (site : AllocationSite) {machine : Machine} {text : String}
    (found : machine.lookup (String.ofList (cString text.toList)) ≠ 0)
    (dead : ¬ machine.Live (machine.lookup (String.ofList (cString text.toList)))) :
    ∃ result, Event.symbol (String.ofList (cString text.toList)) result machine ∈
      ((symbolFor allocator site text).run machine).events ∧ ¬ machine.Live result := by
  refine ⟨_, ?_, dead⟩
  have answers : (symbolForChars allocator site (String.ofList (cString text.toList))).run machine =
      ⟨.ok (machine.lookup (String.ofList (cString text.toList))), machine, []⟩ := by
    rw [symbolForChars, bind_of_silent (run_read machine), if_pos found]
    rfl
  rw [symbolFor, bind_of_silent answers]
  exact List.mem_cons_self

theorem perform_obeys (operation : Operation) :
    (perform allocator operation).Obeys (interning kept) := by
  cases operation with
  | allocateObject site entries => exact allocateObject_obeys allocator site _
  | allocateArray size =>
      exact allocateArray_triple allocator size (fun _ _ _ => event_holds fun _ => trivial)
        fun _ => allocateObject_obeys allocator .universe _
  | vmObject object kind numberOfFields embeddedInteger chars => exact vmObject_obeys _ _ _ _ _
  | write object place slot => exact write_obeys object place slot
  | inspect object => exact (inspect_triple object).obeys
  | startUninterruptableAllocation =>
      exact obeys_modify (fun _ => rfl) (fun _ => rfl) fun _ => rfl
  | endUninterruptableAllocation => exact obeys_dropping (fun _ => rfl) fun _ => rfl
  | symbolFor site text => exact symbolFor_obeys allocator site text
  | hasGlobal name => exact .bind read_obeys fun _ => triple_pure fun _ holds => holds
  | setGlobal name value =>
      exact .bind (obeys_emit fun _ _ => trivial) fun _ =>
        obeys_dropping (fun _ => rfl) fun _ => rfl
  | nilObject => exact .bind read_obeys fun _ => triple_pure fun _ holds => holds
  | globalObject name => exact .bind read_obeys fun _ => triple_pure fun _ holds => holds
  | assign name value => exact obeys_modify (fun _ => rfl) (fun _ => rfl) fun _ => rfl
  | fullGC =>
      exact collect_triple (fun _ _ _ => event_holds fun _ => trivial)
        (fun machine _ _ keeps => collected_holds machine keeps) fun _ _ _ _ => trivial
  | errorExit => exact triple_stop _

theorem createNil_obeys : (createNil allocator).Obeys (interning kept) := by
  refine .bind (Program.obeys (perform_obeys allocator) _) fun nilObject => .bind ?_ fun _ => ?_
  · exact obeys_modify (fun _ => rfl) (fun _ => rfl) fun _ => rfl
  · exact write_obeys _ _ _

end Machine

/-! ### Runs -/

/-- Two calls for kept texts return the same symbol exactly for the same string, and a
symbol is live when it is returned. -/
def SymbolsInterned (kept : String → Prop) (events : List Event) : Prop :=
  (∀ text symbol machine text' symbol' machine', kept text → kept text' →
    Event.symbol text symbol machine ∈ events → Event.symbol text' symbol' machine' ∈ events →
      (text = text' ↔ symbol = symbol')) ∧
  ∀ text symbol machine, kept text → Event.symbol text symbol machine ∈ events →
    machine.Live symbol

theorem eq_of_mem_nodup {texts : List (String × Address)} (nodup : (texts.map Prod.fst).Nodup)
    {text : String} {symbol symbol' : Address} (first : (text, symbol) ∈ texts)
    (second : (text, symbol') ∈ texts) : symbol = symbol' := by
  have same := List.inj_on_of_nodup_map nodup first second rfl
  exact congrArg Prod.snd same

theorem request_obeys (kept : String → Prop) (allocator : Allocator) (request : Request) :
    (Machine.run allocator request.program).Obeys (interning kept) :=
  Program.obeys (Machine.perform_obeys allocator) request.program

/-- In a run of which no step takes a symbol of the kept texts out of reach, `SymbolFor`
interns these texts. -/
theorem symbols_interned (kept : String → Prop) (allocator : Allocator) {Value : Type}
    (program : VmProgram Value)
    (keeps : ∀ event ∈ ((program.run allocator).run {}).events, event.KeepsReach kept) :
    SymbolsInterned kept ((program.run allocator).run {}).events := by
  have obeys : (program.run allocator).Obeys (interning kept) :=
    (Machine.createNil_obeys allocator).bind fun _ =>
      Program.obeys (request_obeys kept allocator) program
  obtain ⟨interned, -, returned⟩ :=
    (obeys {} trivial keeps).1 ⟨List.nodup_nil, nofun, fun _ _ _ => nofun, fun _ _ _ => nofun⟩
  refine ⟨fun text symbol machine text' symbol' machine' isKept isKept' first second => ?_, ?_⟩
  · obtain ⟨entry, -⟩ := returned _ first isKept
    obtain ⟨entry', -⟩ := returned _ second isKept'
    constructor
    · rintro rfl
      exact eq_of_mem_nodup interned.texts entry entry'
    · rintro rfl
      obtain ⟨cell, found, -, chars⟩ := interned.symbols _ _ isKept entry
      obtain ⟨cell', found', -, chars'⟩ := interned.symbols _ _ isKept' entry'
      rw [found] at found'
      obtain rfl := Option.some.inj found'
      exact chars.symm.trans chars'
  · intro text symbol machine isKept there
    exact (returned _ there isKept).2

instance (machine : Machine) (address : Address) : Decidable (machine.Live address) :=
  decidable_of_iff (address ∈ machine.marked) mem_marked_iff

instance (kept : String → Prop) [DecidablePred kept] (event : Event) :
    Decidable (event.KeepsReach kept) :=
  match event with
  | .dropped before after =>
      decidable_of_iff (∀ entry ∈ before.symtab, kept entry.1 → before.Live entry.2 →
          after.Live entry.2)
        ⟨fun keeps text symbol isKept there => keeps (text, symbol) there isKept,
          fun keeps entry there isKept => keeps entry.1 entry.2 isKept there⟩
  | .allocation _ _ | .array _ | .collection _ | .store _ _ | .global _ _ _
  | .symbol _ _ _ => inferInstanceAs (Decidable True)

/-- An allocator that never collects by itself and takes the first free address. -/
def firstFit : Allocator where
  collects _ := false
  place _ used := (List.range (used.length + 2)).find? fun address =>
    address ≠ 0 && !used.contains address
  free := by
    intro _ used address found
    have accepted := List.find?_some found
    simpa using accepted

/-- A symbol that a global refers to, an array, and a collection. -/
def symbolHeld : VmProgram Address := do
  let name ← Universe.symbolFor "abc"
  Universe.request (.setGlobal name name)
  let _ ← Universe.newArray 2
  Universe.request .fullGC
  Universe.symbolFor "abc"

theorem symbolHeld_interned :
    SymbolsInterned (fun _ => True) ((symbolHeld.run firstFit).run {}).events :=
  symbols_interned (fun _ => True) firstFit symbolHeld (by decide +kernel)

/-- A symbol that nothing refers to, an array, and a collection. -/
def symbolForgotten : VmProgram Address := do
  let name ← Universe.symbolFor "nil"
  Universe.request (.setGlobal name (← Universe.request .nilObject))
  let _ ← Universe.symbolFor "abc"
  let _ ← Universe.newArray 0
  Universe.request .fullGC
  let _ ← Universe.symbolFor "def"
  let _ ← Universe.symbolFor "xyz"
  Universe.symbolFor "abc"

/-- The symbols that a run returns, with their texts. -/
def returnedSymbols (events : List Event) : List (String × Address) :=
  events.filterMap fun event =>
    match event with
    | .symbol text symbol _ => some (text, symbol)
    | _ => none

theorem mem_returnedSymbols {events : List Event} {text : String} {symbol : Address}
    (returned : (text, symbol) ∈ returnedSymbols events) :
    ∃ machine, Event.symbol text symbol machine ∈ events := by
  obtain ⟨event, there, same⟩ := List.mem_filterMap.mp returned
  cases event with
  | symbol text' symbol' machine =>
      obtain ⟨rfl, rfl⟩ := Prod.mk.inj (Option.some.inj same)
      exact ⟨machine, there⟩
  | _ => exact nomatch same

theorem symbolForgotten_returns :
    returnedSymbols ((symbolForgotten.run firstFit).run {}).events =
      [("nil", 2), ("abc", 3), ("def", 2), ("xyz", 3), ("abc", 3)] := by
  decide +kernel

/-- The reclaimed symbol's place is taken, and both texts return it. -/
theorem not_interned :
    ¬ SymbolsInterned (fun _ => True) ((symbolForgotten.run firstFit).run {}).events := by
  intro interned
  have returns : ∀ entry ∈ [("abc", 3), ("xyz", 3)],
      entry ∈ returnedSymbols ((symbolForgotten.run firstFit).run {}).events := by
    rw [symbolForgotten_returns]
    decide
  obtain ⟨machine, first⟩ := mem_returnedSymbols (returns ("abc", 3) (by decide))
  obtain ⟨machine', second⟩ := mem_returnedSymbols (returns ("xyz", 3) (by decide))
  exact absurd ((interned.1 _ _ _ _ _ _ trivial trivial first second).mpr rfl) (by decide)

end Somr.Memory
