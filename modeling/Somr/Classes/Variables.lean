import Somr.Classes.Fields
import Somr.Interpreter.LexicalAddressing

/-!
Owns the agreement of reads and writes of a variable: where the code of
`genPushVariable` reads, and where that of `genPopVariable` writes.

Both look the name up in the scopes first. Behind them every write is a store into a
field, which is resolved at run time over all superclasses. A read is one of a field
only where the class itself declares it, and one of a global otherwise.
-/

namespace Somr.Classes

open Foundation Compiler Interpreter

/-! ### Fields of the class being compiled -/

/-- The fields that a context has gathered for a side of its class. -/
def fieldsOn (cgenc : ClassGenerationContext) (classSide : Bool) : List String :=
  if classSide then cgenc.classFields else cgenc.instanceFields

theorem findField_iff {cgenc : ClassGenerationContext} {field : String} :
    cgenc.findField field = true ↔ field ∈ fieldsOn cgenc cgenc.classSide := by
  rw [ClassGenerationContext.findField, List.contains_iff_mem, fieldsOn]

/-- Do the contexts have the same fields and compile the same side? -/
structure SameFields (first second : ClassGenerationContext) : Prop where
  instanceFields : first.instanceFields = second.instanceFields
  classFields : first.classFields = second.classFields
  classSide : first.classSide = second.classSide

theorem SameFields.trans {first second third : ClassGenerationContext}
    (early : SameFields first second) (late : SameFields second third) :
    SameFields first third :=
  ⟨early.instanceFields.trans late.instanceFields, early.classFields.trans late.classFields,
    early.classSide.trans late.classSide⟩

/-- A block is compiled in the class of the code around it. -/
theorem blockContexts_rule : GeneratorRule fun environment generator =>
    ∀ base, ∀ unit ∈ (generator base).blocks,
      unit.environment.classContext = environment.classContext where
  actions _ _ _ _ := nofun
  literal _ _ _ := nofun
  andThen := by
    intro _ first second early late base unit member
    rw [Generator.andThen] at member
    rcases List.mem_append.mp member with member | member
    · exact early base unit member
    · exact late _ unit member
  block := by
    intro environment parameters locals body inner base unit member
    rw [Primary.generate] at member
    rcases List.mem_append.mp member with member | member
    · exact inner base unit member
    · rw [List.mem_singleton.mp member]

/-- Adding an invokable changes no fields. -/
def KeepsFields (add : Literal → ClassGenerationContext → ClassGenerationContext) : Prop :=
  ∀ invokable cgenc, SameFields (add invokable cgenc) cgenc

section

variable {add : Literal → ClassGenerationContext → ClassGenerationContext}

theorem generate_fields (keeps : KeepsFields add) (base : Nat) (cgenc : ClassGenerationContext)
    (definition : MethodDefinition) :
    SameFields (definition.generate add base cgenc).classContext cgenc ∧
      ∀ unit ∈ (definition.generate add base cgenc).units,
        unit.environment.classContext = cgenc := by
  cases definition with
  | primitive pattern =>
      exact ⟨keeps _ _, fun unit member => absurd member List.not_mem_nil⟩
  | code pattern locals body =>
      refine ⟨keeps _ _, fun unit member => ?_⟩
      rw [MethodDefinition.generate, MethodDefinition.unit?] at member
      rcases List.mem_append.mp member with member | member
      · exact blockContexts_rule.unit ⟨false, ⟨[], cgenc⟩,
          ⟨"self" :: pattern.arguments, declaredLocals locals⟩, pattern.signature, base, body⟩
          base unit member
      · rw [List.mem_singleton.mp member]

theorem generateMethods_fields (keeps : KeepsFields add) (definitions : List MethodDefinition) :
    ∀ (base : Nat) (cgenc : ClassGenerationContext),
      SameFields (generateMethods add base cgenc definitions).classContext cgenc ∧
        ∀ unit ∈ (generateMethods add base cgenc definitions).units,
          SameFields unit.environment.classContext cgenc := by
  induction definitions with
  | nil => exact fun _ _ => ⟨⟨rfl, rfl, rfl⟩, fun _ member => absurd member List.not_mem_nil⟩
  | cons definition rest inductionHypothesis =>
      intro base cgenc
      obtain ⟨first, ofFirst⟩ := generate_fields keeps base cgenc definition
      obtain ⟨later, ofLater⟩ := inductionHypothesis
        (base + (definition.generate add base cgenc).objects.length)
        (definition.generate add base cgenc).classContext
      refine ⟨later.trans first, fun unit member => ?_⟩
      rw [generateMethods] at member
      rcases List.mem_append.mp member with member | member
      · rw [ofFirst unit member]
        exact ⟨rfl, rfl, rfl⟩
      · exact (ofLater unit member).trans first

end

theorem keepsFields_instance : KeepsFields fun invokable cgenc =>
    { cgenc with instanceMethods := cgenc.instanceMethods ++ [invokable] } :=
  fun _ _ => ⟨rfl, rfl, rfl⟩

theorem keepsFields_class : KeepsFields fun invokable cgenc =>
    { cgenc with classMethods := cgenc.classMethods ++ [invokable] } :=
  fun _ _ => ⟨rfl, rfl, rfl⟩

/-- The class side keeps the fields of the instances, and has all of its own before its
first method. -/
theorem generateClassSide_fields (base : Nat) (cgenc : ClassGenerationContext)
    (classSide : Option ClassSide) :
    (generateClassSide base cgenc classSide).classContext.instanceFields = cgenc.instanceFields ∧
      ∀ unit ∈ (generateClassSide base cgenc classSide).units,
        unit.environment.classContext.classSide = true ∧
          unit.environment.classContext.classFields =
            (generateClassSide base cgenc classSide).classContext.classFields := by
  cases classSide with
  | none => exact ⟨rfl, fun unit member => absurd member List.not_mem_nil⟩
  | some side =>
      obtain ⟨whole, ofWhole⟩ := generateMethods_fields keepsFields_class side.methods base
        { cgenc with
          classSide := true
          classFields := cgenc.classFields ++ fieldTexts side.fields }
      refine ⟨whole.instanceFields, fun unit member => ?_⟩
      have same := ofWhole unit member
      exact ⟨same.classSide, same.classFields.trans whole.classFields.symm⟩

/-- A method or block is compiled with all the fields that the class of its side gets. -/
theorem unit_fields {definition : ClassDefinition} {unit : CodeUnit}
    (isUnit : unit ∈ definition.generate.units) :
    fieldsOn unit.environment.classContext unit.environment.classContext.classSide =
      fieldsOn definition.generate.classContext unit.environment.classContext.classSide := by
  obtain ⟨early, ofEarly⟩ := generateMethods_fields keepsFields_instance
    definition.instanceSide.methods 0 definition.instanceContext
  rw [ClassDefinition.generate] at isUnit ⊢
  obtain ⟨late, ofLate⟩ := generateClassSide_fields
    (generateMethods (fun invokable cgenc =>
      { cgenc with instanceMethods := cgenc.instanceMethods ++ [invokable] }) 0
        definition.instanceContext definition.instanceSide.methods).objects.length
    (generateMethods (fun invokable cgenc =>
      { cgenc with instanceMethods := cgenc.instanceMethods ++ [invokable] }) 0
        definition.instanceContext definition.instanceSide.methods).classContext
    definition.classSide
  rcases List.mem_append.mp isUnit with member | member
  · have same := ofEarly unit member
    have noClassSide : definition.instanceContext.classSide = false := rfl
    rw [same.classSide, noClassSide, fieldsOn, fieldsOn]
    exact same.instanceFields.trans (early.instanceFields.symm.trans late.symm)
  · obtain ⟨onClassSide, same⟩ := ofLate unit member
    rw [onClassSide, fieldsOn, fieldsOn]
    exact same

/-! ### Locations -/

/-- What the code for a variable reads or writes. -/
inductive Location where
  | slot (slot : VariableSlot)
  | field (name : String)
  | global (name : String)
deriving DecidableEq, Repr

/-- What an instruction pushes the value of. -/
def read? : Instruction → Option Location
  | .pushLocal idx ctx => some (.slot ⟨idx, ctx, false⟩)
  | .pushArgument idx ctx => some (.slot ⟨idx, ctx, true⟩)
  | .pushField (.symbol name) => some (.field name)
  | .pushGlobal (.symbol name) => some (.global name)
  | _ => none

/-- What an instruction pops a value into. -/
def write? : Instruction → Option Location
  | .popLocal idx ctx => some (.slot ⟨idx, ctx, false⟩)
  | .popArgument idx ctx => some (.slot ⟨idx, ctx, true⟩)
  | .popField (.symbol name) => some (.field name)
  | _ => none

/-- The instructions among the calls on a generation context. -/
def emitted (actions : List Action) : List Instruction :=
  actions.filterMap fun action =>
    match action with
    | .emit instruction => some instruction
    | _ => none

/-- Where the code of `genPushVariable` reads. -/
def readLocation (environment : Environment) (var : String) : Option Location :=
  (emitted (pushVariable environment var)).findSome? read?

/-- Where the code of `genPopVariable` writes. -/
def writeLocation (environment : Environment) (var : String) : Option Location :=
  (emitted (popVariable environment var)).findSome? write?

section

variable {environment : Environment} {var : String}

theorem locations_of_slot {slot : VariableSlot}
    (found : findVar var environment.scopes 0 = some slot) :
    readLocation environment var = some (.slot slot) ∧
      writeLocation environment var = some (.slot slot) := by
  obtain ⟨index, context, isArgument⟩ := slot
  unfold readLocation writeLocation pushVariable popVariable
  rw [found]
  cases isArgument <;> exact ⟨rfl, rfl⟩

theorem writeLocation_of_none (unscoped : findVar var environment.scopes 0 = none) :
    writeLocation environment var = some (.field var) := by
  unfold writeLocation popVariable
  rw [unscoped]
  rfl

theorem readLocation_of_none (unscoped : findVar var environment.scopes 0 = none) :
    readLocation environment var = if environment.classContext.findField var then
      some (.field var) else some (.global var) := by
  unfold readLocation pushVariable
  rw [unscoped]
  cases environment.classContext.findField var <;> rfl

end

/-! ### Running code -/

/-- Code that runs in the frame at an address, with the object that is `self` there and
the values of the globals. -/
structure Running (World Object : Type) where
  state : State World Object
  address : Nat
  self : Instance (Value Object)
  globals : String → Option (Value Object)

variable {World Object : Type}

/-- The value of a location; none for a global that is unbound, instead of which
`unknownGlobal:` is sent. -/
def Location.read (image : Image) (running : Running World Object) :
    Location → Except Halt (Option (Value Object))
  | .slot place => do
      return some (← ((readVariable place running.address).run running.state).result)
  | .field name => do return some (← pushField image running.self name)
  | .global name => return running.globals name

/-- Store a value in a location. No code stores a global. -/
def Location.write (image : Image) (running : Running World Object) (value : Value Object) :
    Location → Except Halt (Running World Object)
  | .slot place =>
      match (writeVariable place running.address value).run running.state with
      | ⟨.ok _, after, _⟩ => .ok { running with state := after }
      | ⟨.error halt, _, _⟩ => .error halt
  | .field name => do return { running with self := ← popField image running.self name value }
  | .global _ => .error .undefined

/-! ### What was written is read -/

section

variable {state after : State World Object} {address : Nat} {value : Value Object}

/-- A change to a frame that other code does not notice when it looks for its contexts. -/
structure KeepsLinks (change : Frame Object → Frame Object) : Prop where
  context : ∀ frame, (change frame).context = frame.context
  localOffset : ∀ frame, (change frame).localOffset = frame.localOffset

/-- The state with a change to one frame. -/
def modifiedAt (state : State World Object) (target : Nat)
    (change : Frame Object → Frame Object) : State World Object :=
  { state with frames := state.frames.modify target change }

theorem modifiedAt_frame {change : Frame Object → Frame Object} (keeps : KeepsLinks change)
    (target : Nat) {frame : Frame Object} (found : state.frames[address]? = some frame) :
    ∃ changed, (modifiedAt state target change).frames[address]? = some changed ∧
      changed.context = frame.context ∧ changed.localOffset = frame.localOffset := by
  have modified : (modifiedAt state target change).frames[address]? =
      some (if target = address then change frame else frame) := by
    rw [modifiedAt, List.getElem?_modify, found]
    rfl
  refine ⟨_, modified, ?_⟩
  split
  · exact ⟨keeps.context frame, keeps.localOffset frame⟩
  · exact ⟨rfl, rfl⟩

theorem readFrame_none (missing : state.frames[address]? = none) :
    (readFrame address).run state = ⟨.error .undefined, state, []⟩ := by
  rw [readFrame, Process.bind_of_silent (Process.run_read state), missing]
  rfl

/-- Contexts are followed in the same way before and after such a change. -/
theorem getContextLevel_modified {change : Frame Object → Frame Object}
    (keeps : KeepsLinks change) (target lvl : Nat) :
    ∀ {address context : Nat} {middle : State World Object} {events : List Empty},
      (getContextLevel address lvl).run state = ⟨.ok context, middle, events⟩ →
        middle = state ∧ (getContextLevel address lvl).run (modifiedAt state target change) =
          ⟨.ok context, modifiedAt state target change, []⟩ := by
  induction lvl with
  | zero =>
      intro address context middle events ran
      cases ran
      exact ⟨rfl, rfl⟩
  | succ lvl inductionHypothesis =>
      intro address context middle events ran
      cases found : state.frames[address]? with
      | none =>
          rw [getContextLevel, Process.bind_of_error (readFrame_none found)] at ran
          cases ran
      | some frame =>
          cases linked : frame.context with
          | none =>
              rw [getContextLevel, Process.bind_of_silent (readFrame_run found), linked] at ran
              cases ran
          | some outer =>
              rw [getContextLevel_succ_run found linked] at ran
              obtain ⟨same, ranLater⟩ := inductionHypothesis ran
              obtain ⟨changed, foundLater, sameContext, _⟩ := modifiedAt_frame keeps target found
              exact ⟨same, (getContextLevel_succ_run foundLater (sameContext.trans linked)).trans
                ranLater⟩

/-- Following contexts changes nothing. -/
theorem getContextLevel_ok {lvl context : Nat} {events : List Empty}
    (led : (getContextLevel address lvl).run state = ⟨.ok context, after, events⟩) :
    after = state := by
  have unchanged : KeepsLinks (id : Frame Object → Frame Object) := ⟨fun _ => rfl, fun _ => rfl⟩
  exact (getContextLevel_modified unchanged 0 lvl led).1

theorem element_ok {idx : Int} {events : List Empty}
    (read : (element address idx).run state = ⟨.ok value, after, events⟩) :
    after = state ∧ 0 ≤ idx ∧ ∃ frame, state.frames[address]? = some frame ∧
      frame.slots[idx.toNat]? = some value := by
  cases found : state.frames[address]? with
  | none =>
      rw [element, Process.bind_of_error (readFrame_none found)] at read
      cases read
  | some frame =>
      rw [element, Process.bind_of_silent (readFrame_run found)] at read
      by_cases negative : idx < 0
      · rw [if_pos negative] at read
        cases read
      · rw [if_neg negative] at read
        cases inside : frame.slots[idx.toNat]? with
        | none =>
            rw [inside] at read
            cases read
        | some old =>
            rw [inside] at read
            cases read
            exact ⟨rfl, Int.not_lt.mp negative, frame, rfl, inside⟩

/-- What an element is set to is the element. -/
theorem element_set {idx : Int} {events : List Empty}
    (set : (setElement address idx value).run state = ⟨.ok (), after, events⟩) :
    ∃ change, KeepsLinks change ∧ after = modifiedAt state address change ∧
      (element address idx).run after = ⟨.ok value, after, []⟩ := by
  obtain ⟨old, middle, _, _, read, changed, _⟩ := Process.bind_eq_ok set
  obtain ⟨rfl, notNegative, frame, found, there⟩ := element_ok read
  obtain ⟨inside, _⟩ := List.getElem?_eq_some_iff.mp there
  cases changed
  refine ⟨fun frame => { frame with slots := frame.slots.set idx.toNat value },
    ⟨fun _ => rfl, fun _ => rfl⟩, rfl, ?_⟩
  have foundLater : (middle.frames.modify address fun frame =>
      { frame with slots := frame.slots.set idx.toNat value })[address]? =
        some { frame with slots := frame.slots.set idx.toNat value } := by
    rw [List.getElem?_modify_eq, found]
    rfl
  rw [element, Process.bind_of_silent (readFrame_run foundLater), if_neg (by omega)]
  dsimp only
  rw [List.getElem?_set_self inside]
  rfl

/-- A variable that was stored into has the value. -/
theorem readVariable_written {place : VariableSlot} {events : List Empty}
    (written : (writeVariable place address value).run state = ⟨.ok (), after, events⟩) :
    (readVariable place address).run after = ⟨.ok value, after, []⟩ := by
  unfold writeVariable at written
  unfold readVariable
  split at written
  · next isArgument =>
      obtain ⟨context, middle, _, _, led, set, _⟩ := Process.bind_eq_ok written
      obtain rfl := getContextLevel_ok led
      obtain ⟨change, keeps, rfl, read⟩ := element_set set
      obtain ⟨_, ledLater⟩ := getContextLevel_modified keeps context _ led
      rw [if_pos isArgument, getArgument, Process.bind_of_silent ledLater]
      exact read
  · next isLocal =>
      obtain ⟨context, middle, _, _, led, rest, _⟩ := Process.bind_eq_ok written
      obtain rfl := getContextLevel_ok led
      cases found : middle.frames[context]? with
      | none =>
          rw [Process.bind_of_error (readFrame_none found)] at rest
          cases rest
      | some frame =>
          rw [Process.bind_of_silent (readFrame_run found)] at rest
          obtain ⟨change, keeps, rfl, read⟩ := element_set rest
          obtain ⟨_, ledLater⟩ := getContextLevel_modified keeps context _ led
          obtain ⟨changed, foundLater, _, sameOffset⟩ := modifiedAt_frame keeps context found
          rw [if_neg isLocal, getLocal, Process.bind_of_silent ledLater,
            Process.bind_of_silent (readFrame_run foundLater), sameOffset]
          exact read

end

theorem getField_set {self changed : Instance Object} {index : Int} {value : Object}
    (set : self.setField index value = .ok changed) :
    changed.clazz = self.clazz ∧ changed.getField index = .ok value := by
  unfold Instance.setField at set
  split at set
  · next inside =>
      cases set
      have here : index.toNat < self.fields.length := by omega
      refine ⟨rfl, ?_⟩
      rw [Instance.getField, if_neg (by omega), List.getElem?_set_self here]
  · cases set

/-- A field that was stored into by its name has the value under its name. -/
theorem pushField_popped {image : Image} {self changed : Instance Object} {name : String}
    {value : Object} (popped : popField image self name value = .ok changed) :
    pushField image changed name = .ok value := by
  unfold popField at popped
  cases lookup : image.lookupFieldIndex self.clazz name with
  | error halt =>
      rw [lookup] at popped
      cases popped
  | ok index =>
      rw [lookup] at popped
      obtain ⟨sameClass, read⟩ := getField_set popped
      rw [pushField, sameClass, lookup]
      exact read

/-- Whatever the location, a value that was written to it is read from it. -/
theorem Location.read_written {image : Image} {running changed : Running World Object}
    {location : Location} {value : Value Object}
    (written : location.write image running value = .ok changed) :
    location.read image changed = .ok (some value) := by
  cases location with
  | slot place =>
      cases outcome : (writeVariable place running.address value).run running.state with
      | mk result after events =>
          cases result with
          | error halt =>
              rw [Location.write, outcome] at written
              cases written
          | ok _ =>
              rw [Location.write, outcome] at written
              cases written
              rw [Location.read, readVariable_written outcome]
              rfl
  | field name =>
      cases popped : popField image running.self name value with
      | error halt =>
          rw [Location.write, popped] at written
          cases written
      | ok self =>
          rw [Location.write, popped] at written
          cases written
          rw [Location.read, pushField_popped popped]
          rfl
  | global name => cases written

/-! ### Agreement -/

/-- A name is read where it is written. -/
def SameLocation (environment : Environment) (var : String) : Prop :=
  ∃ location, readLocation environment var = some location ∧
    writeLocation environment var = some location

/-- A value that the code for a name has written is what the code for it reads. -/
def ReadsBack (image : Image) (environment : Environment) (var : String) : Prop :=
  ∃ reads writes, readLocation environment var = some reads ∧
    writeLocation environment var = some writes ∧
      ∀ (World Object : Type) (running changed : Running World Object) (value : Value Object),
        writes.write image running value = .ok changed →
          reads.read image changed = .ok (some value)

theorem SameLocation.readsBack {environment : Environment} {var : String}
    (same : SameLocation environment var) (image : Image) : ReadsBack image environment var := by
  obtain ⟨location, reads, writes⟩ := same
  exact ⟨location, location, reads, writes, fun _ _ _ _ _ written => Location.read_written written⟩

/-- A field that some class on the chain declares can be written, whatever the globals. -/
theorem writes_declared {image : Image} {clazz : ClassAddress} {chain : List ClassAddress}
    (superclasses : SuperclassChain image clazz chain) {name : String}
    (declared : name ∈ image.layout chain) :
    ∃ running changed : Running Unit Unit, changed.globals = (fun _ => none) ∧
      (Location.field name).write image running (.object ()) = .ok changed := by
  have inside : (image.layout chain).idxOf name < (image.layout chain).length :=
    List.idxOf_lt_length_of_mem declared
  let self : Instance (Value Unit) :=
    ⟨clazz, List.replicate (image.layout chain).length (.object ())⟩
  let changed : Instance (Value Unit) :=
    { self with fields := self.fields.set ((image.layout chain).idxOf name) (.object ()) }
  have looked : image.lookupFieldIndex self.clazz name =
      .ok (((image.layout chain).idxOf name : Nat) : Int) := by
    rw [superclasses.lookupFieldIndex_eq, if_pos declared]
  have room : 0 ≤ (((image.layout chain).idxOf name : Nat) : Int) ∧
      (((image.layout chain).idxOf name : Nat) : Int) < self.fields.length := by
    rw [List.length_replicate]
    omega
  have popped : popField image self name (.object ()) = .ok changed := by
    rw [popField, looked]
    exact if_pos room
  refine ⟨⟨{ world := () }, 0, self, fun _ => none⟩,
    ⟨{ world := () }, 0, changed, fun _ => none⟩, rfl, ?_⟩
  rw [Location.write, popped]
  rfl

/-- A field that is written but read as a global does not agree. -/
theorem disagree {image : Image} {clazz : ClassAddress} {chain : List ClassAddress}
    (superclasses : SuperclassChain image clazz chain) {environment : Environment} {var : String}
    (declared : var ∈ image.layout chain)
    (reads : readLocation environment var = some (.global var))
    (writes : writeLocation environment var = some (.field var)) :
    ¬ SameLocation environment var ∧ ¬ ReadsBack image environment var := by
  constructor
  · rintro ⟨location, readsThere, writesThere⟩
    rw [reads] at readsThere
    rw [writes, ← readsThere] at writesThere
    cases writesThere
  · rintro ⟨readFrom, writtenTo, readsThere, writesThere, readsBack⟩
    rw [reads] at readsThere
    rw [writes] at writesThere
    cases readsThere
    cases writesThere
    obtain ⟨running, changed, unbound, written⟩ := writes_declared superclasses declared
    have read := readsBack Unit Unit running changed (.object ()) written
    rw [Location.read, unbound] at read
    cases read

/-- For every class hierarchy, every method or block of a class and every name that is in
its scopes or a field of the class or of a superclass: the name is read where it is written,
and reads as it was written, if and only if it is in scope or the class itself declares it. -/
theorem variables_agree_iff {image : Image} {clazz : ClassAddress} {chain : List ClassAddress}
    (superclasses : SuperclassChain image clazz chain) {definition : ClassDefinition}
    {unit : CodeUnit} (isUnit : unit ∈ definition.generate.units)
    (assembled : image.fieldsOf clazz =
      fieldsOn definition.generate.classContext unit.environment.classContext.classSide)
    {var : String} (isVariable : (findVar var (visibleScopes unit) 0).isSome = true ∨
      var ∈ image.layout chain) :
    (SameLocation (unit.environment.enter unit.scope) var ↔
      (findVar var (visibleScopes unit) 0).isSome = true ∨ var ∈ image.fieldsOf clazz) ∧
    (ReadsBack image (unit.environment.enter unit.scope) var ↔
      (findVar var (visibleScopes unit) 0).isSome = true ∨ var ∈ image.fieldsOf clazz) := by
  cases found : findVar var (visibleScopes unit) 0 with
  | some place =>
      obtain ⟨reads, writes⟩ := locations_of_slot found
      have same : SameLocation (unit.environment.enter unit.scope) var := ⟨_, reads, writes⟩
      exact ⟨iff_of_true same (.inl rfl), iff_of_true (same.readsBack image) (.inl rfl)⟩
  | none =>
      have declares : (unit.environment.enter unit.scope).classContext.findField var = true ↔
          var ∈ image.fieldsOf clazz := by
        rw [assembled, ← unit_fields isUnit]
        exact findField_iff
      have writes := writeLocation_of_none found
      have reads := readLocation_of_none found
      by_cases own : var ∈ image.fieldsOf clazz
      · rw [if_pos (declares.mpr own)] at reads
        have same : SameLocation (unit.environment.enter unit.scope) var := ⟨_, reads, writes⟩
        exact ⟨iff_of_true same (.inr own), iff_of_true (same.readsBack image) (.inr own)⟩
      · rw [if_neg (declares.not.mpr own)] at reads
        have notAgreed : ¬ ((none : Option VariableSlot).isSome = true ∨
            var ∈ image.fieldsOf clazz) := by simp [own]
        rw [found] at isVariable
        have declared : var ∈ image.layout chain := by simpa using isVariable
        obtain ⟨elsewhere, unread⟩ := disagree superclasses declared reads writes
        exact ⟨iff_of_false elsewhere notAgreed, iff_of_false unread notAgreed⟩

theorem lexical_fieldsClass : Signature.isBinary "Foo" = false ∧ "Foo".toList.count ':' = 0 := by
  decide

theorem lexical_fieldX : Signature.isBinary "x" = false ∧ "x".toList.count ':' = 0 := by decide

theorem lexical_fieldClass :
    Signature.isBinary "class" = false ∧ "class".toList.count ':' = 0 := by decide

theorem lexical_fieldsRun : Signature.isBinary "run" = false ∧ "run".toList.count ':' = 0 := by
  decide

theorem fields_unambiguous {names : List Identifier} {methods : List MethodDefinition}
    (undeclared : some names = none) :
    ∀ method ∈ methods.head?, method.pattern.head.sym ≠ .or :=
  absurd undeclared (Option.some_ne_none names)

/-- A class `Foo` with the fields of the class of points and a method without statements. -/
def fieldsClass : ClassDefinition where
  name := ⟨"Foo", lexical_fieldsClass⟩
  superName := none
  instanceSide := ⟨some [⟨"x", lexical_fieldX⟩, ⟨"class", lexical_fieldClass⟩],
    [.code (.unary ⟨"run", lexical_fieldsRun⟩) none .empty], fields_unambiguous⟩
  classSide := none

def fieldsUnit : CodeUnit :=
  ⟨false, ⟨[], fieldsClass.instanceContext⟩, ⟨["self"], []⟩, "run", 0, .empty⟩

/-- In its method, `x` is a field for reads and for writes. -/
theorem variables_agree_x :
    SameLocation (fieldsUnit.environment.enter fieldsUnit.scope) "x" ∧
      ReadsBack pointImage (fieldsUnit.environment.enter fieldsUnit.scope) "x" := by
  have isUnit : fieldsUnit ∈ fieldsClass.generate.units := List.mem_singleton_self _
  have assembled : pointImage.fieldsOf 1 = fieldsOn fieldsClass.generate.classContext false := rfl
  have own : "x" ∈ pointImage.fieldsOf 1 := List.mem_cons_self
  have declared : "x" ∈ pointImage.layout [1, 0] := by decide
  have agree := variables_agree_iff pointImage_chain isUnit assembled (.inr declared)
  exact ⟨agree.1.mpr (.inr own), agree.2.mpr (.inr own)⟩

/-- Points with a subclass that declares no field. -/
def subclassImage : Image where
  classes := pointImage.classes ++ [{ clazz := 0, superClass := some 1, name := "Foo" }]

/-- In a method of the subclass, `x` is written as a field and read as a global. -/
theorem inherited_field_unread :
    SuperclassChain subclassImage 2 [2, 1, 0] ∧
      subclassImage.fieldsOf 2 = fieldsOn (runClass .empty).generate.classContext false ∧
      runUnit .empty ∈ (runClass .empty).generate.units ∧ "x" ∈ subclassImage.layout [2, 1, 0] ∧
      ¬ SameLocation ((runUnit .empty).environment.enter (runUnit .empty).scope) "x" ∧
      ¬ ReadsBack subclassImage ((runUnit .empty).environment.enter (runUnit .empty).scope)
        "x" := by
  have chain : SuperclassChain subclassImage 2 [2, 1, 0] :=
    ⟨.up rfl (.up rfl (.root rfl)), by decide⟩
  have declared : "x" ∈ subclassImage.layout [2, 1, 0] := by decide
  have reads : readLocation ((runUnit .empty).environment.enter (runUnit .empty).scope) "x" =
      some (.global "x") := by decide
  have writes : writeLocation ((runUnit .empty).environment.enter (runUnit .empty).scope) "x" =
      some (.field "x") := by decide
  exact ⟨chain, rfl, runUnit_compiled .empty, declared, disagree chain declared reads writes⟩

end Somr.Classes
