import Somr.Classes.Loading

/-!
Owns the rule that carries an invariant of images from the steps of class loading
to every load and so to every reachable image.

The steps are the compilation of one source, stores into the dictionary, and the
evaluation primitive a block class gets. What is known of a class that was found
may be lost by no step. The invariant may have an index; the loads of superclasses
keep it for every index, so a compilation may choose one that says what the load
of its superclass has to leave alone.
-/

namespace Somr.Classes

open Foundation Compiler Interpreter Process

/-- What is known of a class stays known. -/
def keepsKnown (Known : Image → ClassAddress → Prop) : RunRelation Empty Image where
  allowed _ := True
  holds before _ after := ∀ address, Known before address → Known after address
  refl _ _ known := known
  trans early late address known := late address (early address known)

section

variable (Invariant : Image → Prop) (Known : Image → ClassAddress → Prop)

/-- The invariant, with what is known of the class that was found, if there is one. -/
def Found (result : Option ClassAddress) (image : Image) : Prop :=
  Invariant image ∧ ∀ address, result = some address → Known image address

/-- Every load of a superclass keeps the invariant. -/
def Loads (loadClass : String → ClassM (Option ClassAddress)) : Prop :=
  ∀ name, Triple (keepsKnown Known) Invariant (loadClass name) (Found Invariant Known)

end

section

variable {Index : Type} (Invariant : Index → Image → Prop)
  (Known : Image → ClassAddress → Prop) (start : Index)

/-- The invariant is kept by every step but the compilation of a system class. -/
structure LoadRules : Prop where
  global : ∀ {index : Index} {image : Image} {name : String} {address : ClassAddress},
    Invariant index image → image.getGlobal name = some (.clazz address) → Known image address
  isClass : ∀ {index : Index} {image : Image} {address : ClassAddress},
    Invariant index image → image.IsClass address → Known image address
  setGlobal : ∀ (index : Index) (name : String) (val : Option Global), Triple (keepsKnown Known)
    (fun image => Invariant index image ∧
      ∀ address, val = some (.clazz address) → Known image address)
    (setGlobal name val) fun _ => Invariant index
  bootstrapHolder : ∀ (index : Index) (systemClass : ClassAddress), Triple (keepsKnown Known)
    (Invariant index) (setHolder systemClass (.code .bootstrap)) fun _ => Invariant index
  compile : ∀ {loadClass : String → ClassM (Option ClassAddress)},
    (∀ index, Loads (Invariant index) Known loadClass) → ∀ (index : Index) (source : Source),
      Triple (keepsKnown Known) (Invariant index) (compile loadClass none source)
        fun result image => Invariant index image ∧ Known image result
  evaluation : ∀ (index : Index) (result : ClassAddress) (argc : Nat), Triple (keepsKnown Known)
    (Found (Invariant index) Known (some result))
    (do
      let image ← Process.read
      Process.modify fun image => { image with evaluations := image.evaluations ++ [argc] }
      let _ ← addInstanceInvokable result (.evaluation image.evaluations.length) : ClassM Unit)
    fun _ => Found (Invariant index) Known (some result)

/-- The invariant holds before any source is read and is kept by every step. -/
structure LoadingRules : Prop where
  systemClasses : Invariant start (newSystemClasses.run {}).state
  global : ∀ {index : Index} {image : Image} {name : String} {address : ClassAddress},
    Invariant index image → image.getGlobal name = some (.clazz address) → Known image address
  isClass : ∀ {index : Index} {image : Image} {address : ClassAddress},
    Invariant index image → image.IsClass address → Known image address
  setGlobal : ∀ (index : Index) (name : String) (val : Option Global), Triple (keepsKnown Known)
    (fun image => Invariant index image ∧
      ∀ address, val = some (.clazz address) → Known image address)
    (setGlobal name val) fun _ => Invariant index
  bootstrapHolder : ∀ (index : Index) (systemClass : ClassAddress), Triple (keepsKnown Known)
    (Invariant index) (setHolder systemClass (.code .bootstrap)) fun _ => Invariant index
  compile : ∀ {loadClass : String → ClassM (Option ClassAddress)},
    (∀ index, Loads (Invariant index) Known loadClass) →
    ∀ (index : Index) (systemClass : Option ClassAddress) (source : Source),
      Triple (keepsKnown Known) (Invariant index) (compile loadClass systemClass source)
        fun result image => Invariant index image ∧ (systemClass = none → Known image result)
  evaluation : ∀ (index : Index) (result : ClassAddress) (argc : Nat), Triple (keepsKnown Known)
    (Found (Invariant index) Known (some result))
    (do
      let image ← Process.read
      Process.modify fun image => { image with evaluations := image.evaluations ++ [argc] }
      let _ ← addInstanceInvokable result (.evaluation image.evaluations.length) : ClassM Unit)
    fun _ => Found (Invariant index) Known (some result)

end

variable {Known : Image → ClassAddress → Prop}

/-! ### Computations that only read -/

/-- The computation leaves the image alone. -/
def ReadsOnly {Value : Type} (process : ClassM Value) : Prop :=
  ∀ image, (process.run image).state = image

theorem readsOnly_read : ReadsOnly (Process.read : ClassM Image) := fun _ => rfl

theorem readsOnly_pure {Value : Type} (value : Value) : ReadsOnly (Pure.pure value) := fun _ => rfl

theorem readsOnly_demand {Value : Type} (reason : Halt) (option : Option Value) :
    ReadsOnly (Process.demand reason option) := by
  cases option <;> exact fun _ => rfl

theorem ReadsOnly.bind {First Value : Type} {first : ClassM First} {rest : First → ClassM Value}
    (early : ReadsOnly first) (late : ∀ value, ReadsOnly (rest value)) :
    ReadsOnly (first >>= rest) := by
  intro image
  have same := early image
  cases outcome : first.run image with
  | mk result after events =>
      rw [outcome] at same
      cases result with
      | error reason => rw [bind_of_error outcome]; exact same
      | ok value =>
          rw [bind_of_ok outcome]
          exact (late value after).trans same

theorem ReadsOnly.ite {Value : Type} {condition : Prop} [Decidable condition]
    {yes no : ClassM Value} (holds : ReadsOnly yes) (fails : ReadsOnly no) :
    ReadsOnly (if condition then yes else no) := by
  split
  · exact holds
  · exact fails

theorem readsOnly_readClass (address : ClassAddress) : ReadsOnly (readClass address) :=
  readsOnly_read.bind fun _ => readsOnly_demand _ _

theorem readsOnly_hasPrimitives (address : ClassAddress) : ReadsOnly (hasPrimitives address) := by
  apply (readsOnly_readClass address).bind fun clazz => ?_
  exact readsOnly_read.bind fun image => readsOnly_pure _

theorem readsOnly_setPrimitives (path : ClassPath) (cname : String) (address : ClassAddress) :
    ReadsOnly (setPrimitives path cname address) := by
  apply (readsOnly_readClass address).bind fun clazz => ?_
  apply readsOnly_read.bind fun image => ?_
  exact .ite (readsOnly_pure ()) fun _ => rfl

theorem readsOnly_loadPrimitives (path : ClassPath) (address : ClassAddress) :
    ReadsOnly (loadPrimitives path address) := by
  apply (readsOnly_readClass address).bind fun clazz => ?_
  apply ReadsOnly.ite ?_ fun _ => rfl
  exact (readsOnly_setPrimitives path _ _).bind fun _ => readsOnly_setPrimitives path _ _

theorem readsOnly_loadPrimitivesIfAny (path : ClassPath) (result : ClassAddress) :
    ReadsOnly (loadPrimitivesIfAny path result) := by
  apply (readsOnly_readClass result).bind fun clazz => ?_
  apply (readsOnly_hasPrimitives result).bind fun instanceSide => ?_
  apply (readsOnly_hasPrimitives clazz.clazz).bind fun classSide => ?_
  exact .ite (readsOnly_loadPrimitives path result) (readsOnly_pure ())

/-- What only reads keeps every condition. -/
theorem ReadsOnly.keeps {Value : Type} {process : ClassM Value} (reads : ReadsOnly process)
    (condition : Image → Prop) :
    Triple (keepsKnown Known) condition process fun _ => condition := by
  intro image holds _
  rw [reads image]
  exact ⟨fun _ known => known, fun _ _ => holds⟩

/-! ### Loads -/

section

variable {invariant : Image → Prop} {Good : Image → ClassAddress → Prop}
  {loadClass : String → ClassM (Option ClassAddress)} {systemClass : Option ClassAddress}

/-- A directory is read as its sources are compiled. -/
theorem compileClass_keeps
    (compiles : ∀ source, Triple (keepsKnown Known) invariant
      (compile loadClass systemClass source) fun result image =>
        invariant image ∧ Good image result)
    (directory : String → Option Source) (file : String) :
    Triple (keepsKnown Known) invariant (compileClass loadClass directory file systemClass)
      fun result image => invariant image ∧ ∀ address, result = some address →
        Good image address := by
  unfold compileClass
  cases directory file with
  | none => exact triple_pure fun image holds => ⟨holds, fun _ none => nomatch none⟩
  | some source =>
      apply Triple.bind _ (compiles source) fun result => ?_
      apply Triple.bind _ ((readsOnly_readClass result).keeps _) fun clazz => ?_
      refine Triple.ite (fun _ => ?_) fun _ => ?_
      · exact triple_pure fun image holds => ⟨holds.1, fun _ none => nomatch none⟩
      · refine triple_pure fun image holds => ⟨holds.1, fun address same => ?_⟩
        obtain rfl := Option.some.inj same
        exact holds.2

theorem loadClassBasic_keeps
    (compiles : ∀ source, Triple (keepsKnown Known) invariant
      (compile loadClass systemClass source) fun result image =>
        invariant image ∧ Good image result)
    (name : String) (directories : List (String → Option Source)) :
    Triple (keepsKnown Known) invariant (loadClassBasic loadClass name systemClass directories)
      fun result image => invariant image ∧ ∀ address, result = some address →
        Good image address := by
  induction directories with
  | nil => exact triple_pure fun image holds => ⟨holds, fun _ none => nomatch none⟩
  | cons directory directories inductionHypothesis =>
      apply Triple.bind _ (compileClass_keeps compiles directory name) fun result => ?_
      cases result with
      | none => exact inductionHypothesis.weaken (fun _ holds => holds.1) fun _ _ ends => ends
      | some result => exact triple_pure fun image holds => holds

end

/-- The loads of `loadSystemClasses` behind those of the system classes. -/
def loadProgramClasses (path : ClassPath) (depth : Nat) :
    ClassM (Option ClassAddress × Option ClassAddress) := do
  let blockClass ← loadClass path depth "Block"
  let _ ← Process.demand .undefined (← loadClass path depth "True")
  let _ ← Process.demand .undefined (← loadClass path depth "False")
  let systemClass ← loadClass path depth "System"
  return (blockClass, systemClass)

theorem loadSystemClasses_eq (path : ClassPath) (depth : Nat) (systemClasses : List ClassAddress) :
    loadSystemClasses path depth systemClasses =
      (systemClasses.forM (loadSystemClass path depth) >>= fun _ =>
        loadProgramClasses path depth) := rfl

namespace LoadRules

variable {Index : Type} {Invariant : Index → Image → Prop}
  (rules : LoadRules Invariant Known)

include rules

theorem loadClass (path : ClassPath) (depth : Nat) :
    ∀ index, Loads (Invariant index) Known (loadClass path depth) := by
  induction depth with
  | zero => exact fun index name => triple_stop _
  | succ depth inductionHypothesis =>
      intro index name
      apply Triple.of_states fun image holds => ?_
      apply Triple.read
      cases found : image.getGlobal name with
      | none =>
          have basic := loadClassBasic_keeps (rules.compile inductionHypothesis index) name
            path.directories
          refine Triple.bind _ (basic.weaken ?_ fun _ _ ends => ends) fun result => ?_
          · exact fun other same => same ▸ holds
          cases result with
          | none => exact triple_stop _
          | some result =>
              apply Triple.bind _ ((readsOnly_loadPrimitivesIfAny path result).keeps _) fun _ => ?_
              exact triple_pure fun image holds => holds
      | some global =>
          cases global with
          | clazz address =>
              refine triple_pure fun other same => ⟨same ▸ holds, fun other isResult => ?_⟩
              obtain rfl := Option.some.inj isResult
              exact same ▸ rules.global holds found
          | invokable _ => exact triple_pure fun other same => ⟨same ▸ holds, fun _ => nofun⟩
          | object => exact triple_pure fun other same => ⟨same ▸ holds, fun _ => nofun⟩

theorem loadShellClass (index : Index) (path : ClassPath) (depth : Nat) (stmt : Source) :
    Triple (keepsKnown Known) (Invariant index) (loadShellClass path depth stmt) fun _ => Invariant index :=
  (rules.compile (rules.loadClass path depth) index stmt).weaken (fun _ holds => holds)
    fun _ _ ends => ends.1

/-- A class that is known is stored. -/
theorem setGlobalKnown (index : Index) (name : String) (result : Option ClassAddress) :
    Triple (keepsKnown Known) (Found (Invariant index) Known result)
      (Classes.setGlobal name (result.map .clazz)) fun _ => Invariant index := by
  apply (rules.setGlobal index name (result.map .clazz)).weaken ?_ fun _ _ ends => ends
  rintro image ⟨holds, known⟩
  refine ⟨holds, fun address same => known address ?_⟩
  cases result with
  | none => exact nomatch same
  | some result => exact congrArg some (Global.clazz.inj (Option.some.inj same))

theorem getBlockClassWithArgs (index : Index) (path : ClassPath) (depth numberOfArguments : Nat) :
    Triple (keepsKnown Known) (Invariant index) (getBlockClassWithArgs path depth numberOfArguments)
      fun _ => Invariant index := by
  apply Triple.of_states fun image holds => ?_
  apply Triple.read
  cases image.getGlobal ("Block" ++ toString numberOfArguments) with
  | some found => exact triple_pure fun other same => same ▸ holds
  | none =>
      have basic := loadClassBasic_keeps (rules.compile (rules.loadClass path depth) index)
        ("Block" ++ toString numberOfArguments) path.directories
      refine Triple.bind _ (basic.weaken ?_ fun _ _ ends => ends) fun loaded => ?_
      · exact fun other same => same ▸ holds
      apply Triple.demand fun result isResult => ?_
      subst isResult
      have primitive := rules.evaluation index result numberOfArguments
      have stored := rules.setGlobalKnown index ("Block" ++ toString numberOfArguments) (some result)
      have stores : Triple (keepsKnown Known) (Found (Invariant index) Known (some result)) (do
          Classes.setGlobal ("Block" ++ toString numberOfArguments) (some (.clazz result))
          return some (Global.clazz result)) fun _ => Invariant index :=
        Triple.bind _ stored fun _ => triple_pure fun _ holds => holds
      have both := Triple.bind _ primitive fun _ => stores
      simp only [bind_assoc, pure_bind] at both
      exact both.weaken (fun image holds => holds) fun _ _ ends => ends

/-! ### Reachable images -/

theorem loadProgramClasses (index : Index) (path : ClassPath) (depth : Nat) :
    Triple (keepsKnown Known) (Invariant index) (loadProgramClasses path depth)
      fun result image => Found (Invariant index) Known result.1 image ∧
        Found (Invariant index) Known result.2 image := by
  apply Triple.bind _ (rules.loadClass path depth index "Block") fun blockClass => ?_
  have later : ∀ name, Triple (keepsKnown Known) (Found (Invariant index) Known blockClass)
      (Classes.loadClass path depth name) fun result image =>
        Found (Invariant index) Known result image ∧
          ∀ address, blockClass = some address → Known image address := fun name =>
    (rules.loadClass path depth index name).frame fun stays known address same =>
      stays address (known address same)
  have demanded : ∀ name, Triple (keepsKnown Known) (Found (Invariant index) Known blockClass) (do
      let _ ← Process.demand .undefined (← Classes.loadClass path depth name) : ClassM Unit)
      fun _ => Found (Invariant index) Known blockClass := by
    intro name
    apply Triple.bind _ (later name) fun result => ?_
    apply Triple.demand fun _ _ => ?_
    exact triple_pure fun image holds => ⟨holds.1.1, holds.2⟩
  have last : ∀ systemClass, Triple (keepsKnown Known)
      (fun image => Found (Invariant index) Known systemClass image ∧
        ∀ address, blockClass = some address → Known image address)
      (Pure.pure (blockClass, systemClass) :
        ClassM (Option ClassAddress × Option ClassAddress))
      fun result image => Found (Invariant index) Known result.1 image ∧
        Found (Invariant index) Known result.2 image :=
    fun systemClass => triple_pure fun image holds => ⟨⟨holds.1.1, holds.2⟩, holds.1⟩
  have both := Triple.bind _ (demanded "True") fun _ => Triple.bind _ (demanded "False") fun _ =>
    Triple.bind _ (later "System") last
  simp only [bind_assoc, pure_bind] at both
  exact both

/-- Storing an object that is no class keeps what is known of two classes. -/
theorem storesObject (index : Index) (name : String) (global : Global)
    (noClass : ∀ address, global ≠ .clazz address) (first second : Option ClassAddress) :
    Triple (keepsKnown Known)
      (fun image => Found (Invariant index) Known first image ∧ Found (Invariant index) Known second image)
      (Classes.setGlobal name (some global))
      fun _ image => Found (Invariant index) Known first image ∧ Found (Invariant index) Known second image := by
  have stores : Triple (keepsKnown Known) (Invariant index) (Classes.setGlobal name (some global))
      fun _ => Invariant index :=
    (rules.setGlobal index name (some global)).weaken (fun image holds => ⟨holds, fun address same =>
      absurd (Option.some.inj same) (noClass address)⟩) fun _ _ ends => ends
  have framed : Triple (keepsKnown Known)
      (fun image => Invariant index image ∧
        (∀ address, first = some address → Known image address) ∧
          ∀ address, second = some address → Known image address)
      (Classes.setGlobal name (some global))
      fun _ image => Invariant index image ∧
        (∀ address, first = some address → Known image address) ∧
          ∀ address, second = some address → Known image address :=
    stores.frame fun stays known => ⟨fun address same => stays address (known.1 address same),
      fun address same => stays address (known.2 address same)⟩
  exact framed.weaken (fun image holds => ⟨holds.1.1, holds.1.2, holds.2.2⟩)
    fun _ image ends => ⟨⟨ends.1, ends.2.1⟩, ends.1, ends.2.2⟩

theorem storeGlobals (index : Index) (blockClass systemClass : Option ClassAddress) :
    Triple (keepsKnown Known) (fun image => Found (Invariant index) Known blockClass image ∧
        Found (Invariant index) Known systemClass image)
      (storeGlobals blockClass systemClass) fun _ => Invariant index := by
  apply Triple.demand fun systemClass isClass => ?_
  subst isClass
  have object := fun name =>
    rules.storesObject index name .object (fun _ => nofun) blockClass (some systemClass)
  apply Triple.bind _ (object "nil") fun _ => ?_
  apply Triple.bind _ (object "true") fun _ => ?_
  apply Triple.bind _ (object "false") fun _ => ?_
  apply Triple.bind _ (object "system") fun _ => ?_
  have system : Triple (keepsKnown Known) (fun image => Found (Invariant index) Known blockClass image ∧
      Found (Invariant index) Known (some systemClass) image)
      (Classes.setGlobal "System" (some (.clazz systemClass)))
      fun _ => Found (Invariant index) Known blockClass :=
    ((rules.setGlobalKnown index "System" (some systemClass)).frame fun stays known address same =>
      stays address (known address same)).weaken (fun image holds => ⟨holds.2, holds.1.2⟩)
        fun _ _ ends => ends
  apply Triple.bind _ system fun _ => ?_
  apply Triple.bind _ (rules.setGlobalKnown index "Block" blockClass) fun _ => ?_
  have bootstrap : Triple (keepsKnown Known) (Invariant index) (Classes.setGlobal bootstrapMethod.signature
      (some (.invokable (.code .bootstrap)))) fun _ => Invariant index :=
    (rules.setGlobal index _ _).weaken (fun image holds => ⟨holds, fun address same => nomatch same⟩)
      fun _ _ ends => ends
  exact Triple.bind _ bootstrap fun _ => rules.bootstrapHolder index systemClass

/-- The bootstrap establishes the invariant, for some index that is good, where the loads
of the system classes do. -/
theorem bootstrap {Good : Index → Prop} {path : ClassPath} {depth : Nat}
    (system : ∀ systemClasses, (newSystemClasses.run {}).result = .ok systemClasses →
      Triple (keepsKnown Known) (fun image => image = (newSystemClasses.run {}).state)
        (systemClasses.forM (Classes.loadSystemClass path depth))
        fun _ image => ∃ index, Good index ∧ Invariant index image)
    (ends : ((initializeImage path depth).run {}).result = .ok ()) :
    ∃ index, Good index ∧ Invariant index ((initializeImage path depth).run {}).state := by
  have split : initializeImage path depth = newSystemClasses >>= fun systemClasses =>
      Classes.loadSystemClasses path depth systemClasses >>= fun result =>
        Classes.storeGlobals result.1 result.2 := by
    rw [initializeImage, initializeGlobals, bind_assoc]
  cases outcome : (initializeImage path depth).run {} with
  | mk result final events =>
      rw [outcome] at ends
      obtain rfl : result = .ok () := ends
      rw [split] at outcome
      obtain ⟨systemClasses, after, early, late, first, rest, -⟩ := bind_eq_ok outcome
      have loads := system systemClasses (by rw [first])
      rw [first] at loads
      have others : ∀ index, Triple (keepsKnown Known) (Invariant index)
          (Classes.loadProgramClasses path depth >>= fun result =>
            Classes.storeGlobals result.1 result.2) fun _ => Invariant index := fun index =>
        Triple.bind _ (rules.loadProgramClasses index path depth) fun result =>
          rules.storeGlobals index result.1 result.2
      have kept := Triple.bind _ loads fun _ => Triple.of_some others
      have final := (kept after rfl fun _ _ => trivial).2 ()
      rw [loadSystemClasses_eq, bind_assoc] at rest
      rw [rest] at final
      exact final rfl

/-- The invariant holds of every reachable image, for some index that is good, where every
bootstrap establishes it. -/
theorem reachable {path : ClassPath} {Good : Index → Prop}
    (bootstrap : ∀ depth, ((initializeImage path depth).run {}).result = .ok () →
      ∃ index, Good index ∧ Invariant index ((initializeImage path depth).run {}).state)
    {image : Image} (reachable : Reachable path image) :
    ∃ index, Good index ∧ Invariant index image := by
  have kept : ∀ {Value : Type} {process : ClassM Value} {image : Image} {value : Value},
      (∀ index, Triple (keepsKnown Known) (Invariant index) process fun _ => Invariant index) →
      (∃ index, Good index ∧ Invariant index image) → (process.run image).result = .ok value →
      ∃ index, Good index ∧ Invariant index (process.run image).state :=
    fun triples holds ends => (Triple.of_some triples _ holds fun _ _ => trivial).2 _ ends
  induction reachable with
  | bootstrap depth ends => exact bootstrap depth ends
  | loadClass depth name _ ends inductionHypothesis =>
      have load := fun index => (rules.loadClass path depth index name).weaken
        (fun _ holds => holds) fun _ _ ends => ends.1
      exact kept load inductionHypothesis ends
  | loadShellClass depth stmt _ ends inductionHypothesis =>
      exact kept (fun index => rules.loadShellClass index path depth stmt) inductionHypothesis ends
  | getBlockClassWithArgs depth numberOfArguments _ ends inductionHypothesis =>
      exact kept (fun index => rules.getBlockClassWithArgs index path depth numberOfArguments)
        inductionHypothesis ends
  | setGlobal name val _ isClass inductionHypothesis =>
      obtain ⟨index, good, holds⟩ := inductionHypothesis
      have known : ∀ address, some val = some (.clazz address) → Known _ address :=
        fun address same => rules.isClass holds (isClass address (Option.some.inj same))
      exact ⟨index, good,
        ((rules.setGlobal index name (some val)) _ ⟨holds, known⟩ fun _ _ => trivial).2 () rfl⟩

end LoadRules

namespace LoadingRules

variable {Index : Type} {Invariant : Index → Image → Prop} {start : Index}
  (rules : LoadingRules Invariant Known start)

include rules

theorem loads : LoadRules Invariant Known where
  global := rules.global
  isClass := rules.isClass
  setGlobal := rules.setGlobal
  bootstrapHolder := rules.bootstrapHolder
  compile loads index source := (rules.compile loads index none source).weaken
    (fun _ holds => holds) fun _ _ ends => ⟨ends.1, ends.2 rfl⟩
  evaluation := rules.evaluation

theorem loadClass (path : ClassPath) (depth : Nat) :
    ∀ index, Loads (Invariant index) Known (loadClass path depth) :=
  rules.loads.loadClass path depth

theorem loadSystemClass (index : Index) (path : ClassPath) (depth : Nat)
    (systemClass : ClassAddress) :
    Triple (keepsKnown Known) (Invariant index) (loadSystemClass path depth systemClass)
      fun _ => Invariant index := by
  have compiles : ∀ source, Triple (keepsKnown Known) (Invariant index)
      (Classes.compile (Classes.loadClass path depth) (some systemClass) source) fun _ image =>
        Invariant index image ∧ True := fun source =>
    (rules.compile (rules.loadClass path depth) index (some systemClass) source).weaken
      (fun _ holds => holds) fun _ _ ends => ⟨ends.1, trivial⟩
  apply Triple.bind _ ((readsOnly_readClass systemClass).keeps (Invariant index)) fun clazz => ?_
  apply Triple.bind _ (loadClassBasic_keeps compiles clazz.name path.directories) fun result => ?_
  cases result with
  | none => exact triple_stop _
  | some result =>
      have reads : Triple (keepsKnown Known) (Invariant index)
          (loadPrimitivesIfAny path result) fun _ => Invariant index :=
        (readsOnly_loadPrimitivesIfAny path result).keeps _
      exact reads.weaken (fun image holds => holds.1) fun _ _ ends => ends

/-- The invariant holds of every reachable image. -/
theorem reachable {path : ClassPath} {image : Image} (reachable : Reachable path image) :
    Invariant start image := by
  have system : ∀ depth (systemClasses : List ClassAddress),
      Triple (keepsKnown Known) (Invariant start)
        (systemClasses.forM (Classes.loadSystemClass path depth)) fun _ => Invariant start := by
    intro depth systemClasses
    induction systemClasses with
    | nil => exact triple_pure fun _ holds => holds
    | cons systemClass others inductionHypothesis =>
        exact Triple.bind _ (rules.loadSystemClass start path depth systemClass) fun _ =>
          inductionHypothesis
  have isStart : ∃ index, index = start ∧ Invariant index image := by
    refine rules.loads.reachable (fun depth ends => ?_) reachable
    apply rules.loads.bootstrap (fun systemClasses _ => ?_) ends
    exact (system depth systemClasses).weaken (fun _ same => same ▸ rules.systemClasses)
      fun _ _ holds => ⟨start, rfl, holds⟩
  obtain ⟨_, rfl, holds⟩ := isStart
  exact holds

end LoadingRules

end Somr.Classes