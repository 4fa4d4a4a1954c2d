import Somr.Classes.Fields
import Somr.Classes.Holders

/-!
Owns what class loading leaves of the classes of the bootstrap: their links, their
names and the fields that their sources on the class path declare.

Only the bootstrap compiles the source of a system class. Every later load makes new
classes behind these and gives them fields; of the old ones it changes the invokables
at most.
-/

namespace Somr.Classes

open Foundation Compiler Interpreter Process

/-! ### The classes of the bootstrap -/

/-- What loads leave alone of a class that they did not make. -/
def VMClass.declaration (clazz : VMClass) : VMClass := { clazz with instanceInvokables := [] }

/-- The classes that there are before any source is read. -/
def initialClasses : List VMClass := (newSystemClasses.run {}).state.classes

/-- What these classes have become in an image. -/
def Image.systemClasses (image : Image) : List VMClass :=
  (image.classes.take initialClasses.length).map VMClass.declaration

/-- The declarations of the system classes, and all of them are there. -/
structure HasSystemClasses (classes : List VMClass) (image : Image) : Prop where
  same : image.systemClasses = classes
  complete : initialClasses.length ≤ image.classes.length
  objectClass : image.objectClass = (newSystemClasses.run {}).state.objectClass
  classClass : image.classClass = (newSystemClasses.run {}).state.classClass
  metaClassClass : image.metaClassClass = (newSystemClasses.run {}).state.metaClassClass

theorem Image.systemClasses_getElem? (image : Image) (address : ClassAddress) :
    image.systemClasses[address]? =
      if address < initialClasses.length then (image.classes[address]?).map VMClass.declaration
      else none := by
  rw [systemClasses, List.getElem?_map, List.getElem?_take]
  split <;> rfl

section

variable {classes : List VMClass}

abbrev KeepsSystem (pre : Image → Prop) {Value : Type} (process : ClassM Value)
    (post : Value → Image → Prop) : Prop :=
  Triple (keepsKnown anyClass) pre process post

theorem HasSystemClasses.getElem? {image : Image} (has : HasSystemClasses classes image)
    {address : ClassAddress} (below : address < initialClasses.length) :
    classes[address]? = (image.classes[address]?).map VMClass.declaration := by
  rw [← has.same, image.systemClasses_getElem?, if_pos below]

/-- Where no class is changed. -/
theorem HasSystemClasses.of_same {image other : Image} (has : HasSystemClasses classes image)
    (same : other.classes = image.classes) (objectClass : other.objectClass = image.objectClass)
    (classClass : other.classClass = image.classClass)
    (metaClassClass : other.metaClassClass = image.metaClassClass) :
    HasSystemClasses classes other where
  same := by rw [Image.systemClasses, same, ← has.same, Image.systemClasses]
  complete := same ▸ has.complete
  objectClass := objectClass.trans has.objectClass
  classClass := classClass.trans has.classClass
  metaClassClass := metaClassClass.trans has.metaClassClass

/-! ### Steps of a load -/

/-- A new class, or new invokables. -/
theorem changeClass_system {address : ClassAddress} {change : VMClass → VMClass}
    (aside : initialClasses.length ≤ address ∨
      ∀ clazz, (change clazz).declaration = clazz.declaration) :
    KeepsSystem (HasSystemClasses classes) (changeClass address change)
      fun _ => HasSystemClasses classes := by
  refine triple_modify (fun _ _ _ known => known) fun image has => ?_
  refine ⟨?_, ?_, has.objectClass, has.classClass, has.metaClassClass⟩
  · rw [← has.same]
    apply List.ext_getElem?
    intro index
    rw [Image.systemClasses_getElem?, Image.systemClasses_getElem?, List.getElem?_modify]
    split
    · next below =>
        by_cases here : address = index
        · obtain above | alike := aside
          · exact absurd (Nat.lt_of_lt_of_le below above) (here ▸ Nat.lt_irrefl _)
          · cases image.classes[index]? with
            | none => rfl
            | some clazz => simp [here, alike]
        · simp [here]
    · rfl
  · rw [List.length_modify]
    exact has.complete

/-- A new class stands behind the system classes. -/
theorem newClass_system (classOfClass : ClassAddress) :
    KeepsSystem (HasSystemClasses classes) (newClass classOfClass)
      fun result image => initialClasses.length ≤ result ∧ HasSystemClasses classes image := by
  apply Triple.of_states fun image has => ?_
  apply Triple.read
  have grown : HasSystemClasses classes
      { image with classes := image.classes ++ [{ clazz := classOfClass }] } := by
    refine ⟨?_, ?_, has.objectClass, has.classClass, has.metaClassClass⟩
    · rw [← has.same, Image.systemClasses, Image.systemClasses,
        List.take_append_of_le_length has.complete]
    · rw [List.length_append]
      exact Nat.le_add_right_of_le has.complete
  have appended : KeepsSystem (fun other => other = image)
      (Process.modify fun image =>
        { image with classes := image.classes ++ [{ clazz := classOfClass }] } : ClassM Unit)
      fun _ => HasSystemClasses classes :=
    triple_modify (fun _ _ _ known => known) fun other same => same ▸ grown
  have stored : KeepsSystem (HasSystemClasses classes)
      (setGlobal "NewClass" (some (.clazz image.classes.length)))
      fun _ => HasSystemClasses classes :=
    triple_modify (fun _ _ _ known => known) fun _ has => has.of_same rfl rfl rfl rfl
  apply Triple.bind _ appended fun _ => ?_
  apply Triple.bind _ stored fun _ => ?_
  exact triple_pure fun _ grown => ⟨has.complete, grown⟩

theorem setGlobal_system (name : String) (val : Option Global) :
    KeepsSystem (HasSystemClasses classes) (setGlobal name val)
      fun _ => HasSystemClasses classes :=
  triple_modify (fun _ _ _ known => known) fun _ has => has.of_same rfl rfl rfl rfl

theorem setHolder_system (holder : ClassAddress) (invokable : InvokableAddress) :
    KeepsSystem (HasSystemClasses classes) (setHolder holder invokable)
      fun _ => HasSystemClasses classes :=
  triple_modify (fun _ _ _ known => known) fun _ has => has.of_same rfl rfl rfl rfl

theorem setInstanceInvokables_system (address : ClassAddress)
    (invokables : List InvokableAddress) :
    KeepsSystem (HasSystemClasses classes) (setInstanceInvokables address invokables)
      fun _ => HasSystemClasses classes := by
  have attached : KeepsSystem (HasSystemClasses classes)
      (changeClass address fun clazz => { clazz with instanceInvokables := invokables })
      fun _ => HasSystemClasses classes := changeClass_system (.inr fun _ => rfl)
  apply Triple.bind _ attached fun _ => ?_
  clear attached
  induction invokables with
  | nil => exact triple_pure fun _ has => has
  | cons invokable others inductionHypothesis =>
      exact Triple.bind _ (setHolder_system address invokable) fun _ => inductionHypothesis

theorem addInstanceInvokable_system (address : ClassAddress) (newInvokable : InvokableAddress) :
    KeepsSystem (HasSystemClasses classes) (addInstanceInvokable address newInvokable)
      fun _ => HasSystemClasses classes := by
  apply Triple.bind _ (readsOnly_read.keeps _) fun image => ?_
  apply Triple.bind _ ((readsOnly_readClass address).keeps _) fun clazz => ?_
  split
  · next index _ =>
      have replaced : KeepsSystem (HasSystemClasses classes)
          (setInstanceInvokable address index newInvokable) fun _ => HasSystemClasses classes :=
        Triple.bind _ (changeClass_system (.inr fun _ => rfl)) fun _ =>
          setHolder_system address newInvokable
      exact Triple.bind _ replaced fun _ => triple_pure fun _ has => has
  · exact Triple.bind _ (changeClass_system (.inr fun _ => rfl)) fun _ =>
      triple_pure fun _ has => has

theorem storeMethods_system (compilation address : Nat) (objects : List CompiledObject) :
    KeepsSystem (HasSystemClasses classes) (storeMethods compilation address objects)
      fun _ => HasSystemClasses classes := by
  induction objects generalizing address with
  | nil => exact triple_pure fun _ has => has
  | cons object objects inductionHypothesis =>
      cases object with
      | method method =>
          exact Triple.bind _ (setGlobal_system _ _) fun _ => inductionHypothesis (address + 1)
      | integer value => exact inductionHypothesis (address + 1)
      | string chars => exact inductionHypothesis (address + 1)
      | primitive signature => exact inductionHypothesis (address + 1)

theorem assemble_system {loadClass : String → ClassM (Option ClassAddress)}
    (loads : Loads (HasSystemClasses classes) anyClass loadClass) (compilation : Nat)
    (source : Compilation) :
    KeepsSystem (HasSystemClasses classes) (assemble loadClass compilation source)
      fun _ => HasSystemClasses classes := by
  have load := (loads source.classContext.superName).weaken (fun _ has => has)
    fun _ _ found => found.1
  apply Triple.bind _ load fun found => ?_
  apply Triple.bind _ (readsOnly_read.keeps _) fun image => ?_
  apply Triple.bind _ (newClass_system _) fun resultClass => ?_
  apply Triple.assume fun isBehind => ?_
  apply Triple.bind _ (changeClass_system (.inl isBehind)) fun _ => ?_
  apply Triple.demand fun classMethods _ => ?_
  apply Triple.bind _ (setInstanceInvokables_system _ _) fun _ => ?_
  apply Triple.bind _ (changeClass_system (.inl isBehind)) fun _ => ?_
  apply Triple.demand fun superClass _ => ?_
  apply Triple.bind _ ((readsOnly_readClass superClass).keeps _) fun clazz => ?_
  apply Triple.bind _ (changeClass_system (.inl isBehind)) fun _ => ?_
  apply Triple.bind _ (newClass_system _) fun result => ?_
  apply Triple.assume fun isBehindToo => ?_
  apply Triple.bind _ (changeClass_system (.inl isBehindToo)) fun _ => ?_
  apply Triple.demand fun instanceMethods _ => ?_
  apply Triple.bind _ (setInstanceInvokables_system _ _) fun _ => ?_
  apply Triple.bind _ (changeClass_system (.inl isBehindToo)) fun _ => ?_
  apply Triple.bind _ (changeClass_system (.inl isBehindToo)) fun _ => ?_
  exact triple_pure fun _ has => has

/-- What every compilation does first. -/
theorem compile_begins (image : Image) (source : Source) :
    KeepsSystem (HasSystemClasses classes) (do
        Process.modify fun image =>
          { image with compilations := image.compilations ++ [parseSource source] }
        storeMethods image.compilations.length 0 (parseSource source).objects : ClassM Unit)
      fun _ => HasSystemClasses classes := by
  have compiles : KeepsSystem (HasSystemClasses classes) (Process.modify fun image =>
      { image with compilations := image.compilations ++ [parseSource source] } : ClassM Unit)
      fun _ => HasSystemClasses classes :=
    triple_modify (fun _ _ _ known => known) fun _ has => has.of_same rfl rfl rfl rfl
  exact Triple.bind _ compiles fun _ => storeMethods_system _ _ _

theorem systemRules : LoadRules (fun classes => HasSystemClasses classes) anyClass where
  global _ _ := trivial
  isClass _ _ := trivial
  setGlobal classes name val :=
    (setGlobal_system name val).weaken (fun _ holds => holds.1) fun _ _ has => has
  bootstrapHolder classes systemClass := setHolder_system systemClass _
  compile loads classes source := by
    apply Triple.bind _ (readsOnly_read.keeps _) fun image => ?_
    have begins := Triple.bind _ (compile_begins image source) fun _ =>
      assemble_system (loads classes) image.compilations.length (parseSource source)
    simp only [bind_assoc] at begins
    exact begins.weaken (fun _ has => has) fun _ _ has => ⟨has, trivial⟩
  evaluation classes result argc := by
    have evaluations : KeepsSystem (HasSystemClasses classes) (Process.modify fun image =>
        { image with evaluations := image.evaluations ++ [argc] })
        fun _ => HasSystemClasses classes :=
      triple_modify (fun _ _ _ known => known) fun _ has => has.of_same rfl rfl rfl rfl
    have last : KeepsSystem (HasSystemClasses classes) (Pure.pure () : ClassM Unit)
        fun _ => HasSystemClasses classes := triple_pure fun _ has => has
    have adds := Triple.bind _ (readsOnly_read.keeps (HasSystemClasses classes)) fun image =>
      Triple.bind _ evaluations fun _ =>
        Triple.bind _ (addInstanceInvokable_system result (.evaluation image.evaluations.length))
          fun _ => last
    exact adds.weaken (fun _ found => found.1) fun _ _ has => ⟨has, fun _ _ => trivial⟩

/-! ### The sources of the system classes -/

/-- The source of a class with the name: the first one on the path. -/
def ClassPath.source (path : ClassPath) (name : String) : Option Source :=
  path.directories.findSome? fun directory => directory name

/-- The fields that the source of a class declares for its instances. -/
def ClassPath.instanceFields (path : ClassPath) (name : String) : List String :=
  ((path.source name).map fun source => (parseSource source).classContext.instanceFields).getD []

/-- The fields of a system class and its metaclass are those of a source. -/
def withFields (classes : List VMClass) (systemClass metaclass : ClassAddress)
    (cgc : ClassGenerationContext) : List VMClass :=
  (classes.modify systemClass fun clazz =>
      { clazz with instanceFields := cgc.instanceFields }).modify metaclass fun clazz =>
    { clazz with instanceFields := cgc.classFields }

theorem setInstanceFields_declares (address : ClassAddress) (fields : List String) :
    KeepsSystem (HasSystemClasses classes) (setInstanceFields address fields) fun _ =>
      HasSystemClasses (classes.modify address fun clazz =>
        { clazz with instanceFields := fields }) := by
  refine triple_modify (fun _ _ _ known => known) fun image has => ?_
  refine ⟨?_, ?_, has.objectClass, has.classClass, has.metaClassClass⟩
  · rw [← has.same]
    apply List.ext_getElem?
    intro index
    rw [Image.systemClasses_getElem?, List.getElem?_modify, List.getElem?_modify,
      Image.systemClasses_getElem?]
    split
    · cases image.classes[index]? with
      | none => rfl
      | some clazz => by_cases here : address = index <;> simp [here, VMClass.declaration]
    · rfl
  · rw [List.length_modify]
    exact has.complete

/-- A system class that is read has the links and the name of its declaration. -/
theorem readClass_system {address : ClassAddress} {declared : VMClass}
    (below : address < initialClasses.length) (isClass : classes[address]? = some declared) :
    KeepsSystem (HasSystemClasses classes) (readClass address) fun clazz image =>
      clazz.declaration = declared ∧ HasSystemClasses classes image := by
  apply Triple.of_states fun image has => ?_
  apply Triple.read
  refine (triple_demand Halt.undefined _).weaken (fun _ same => same) ?_
  intro clazz other ⟨found, same⟩
  have here := has.getElem? below
  rw [isClass, found] at here
  exact ⟨(Option.some.inj here).symm, same ▸ has⟩

variable {systemClass : ClassAddress} {declared : VMClass}
  {loadClass : String → ClassM (Option ClassAddress)}

theorem assembleSystemClass_declares (below : systemClass < initialClasses.length)
    (isClass : classes[systemClass]? = some declared) (compilation : Nat) (source : Compilation) :
    KeepsSystem (HasSystemClasses classes) (assembleSystemClass systemClass compilation source)
      fun _ => HasSystemClasses
        (withFields classes systemClass declared.clazz source.classContext) := by
  have isClassStill : (classes.modify systemClass fun clazz => { clazz with
      instanceFields := source.classContext.instanceFields })[systemClass]? =
        some { declared with instanceFields := source.classContext.instanceFields } := by
    rw [List.getElem?_modify_eq, isClass]
    rfl
  apply Triple.demand fun instanceMethods _ => ?_
  apply Triple.bind _ (setInstanceInvokables_system _ _) fun _ => ?_
  apply Triple.bind _ (setInstanceFields_declares _ _) fun _ => ?_
  apply Triple.bind _ (readClass_system below isClassStill) fun clazz => ?_
  apply Triple.assume fun isDeclared => ?_
  have metaclass : clazz.clazz = declared.clazz := by
    have same := congrArg VMClass.clazz isDeclared
    exact same
  apply Triple.demand fun classMethods _ => ?_
  apply Triple.bind _ (setInstanceInvokables_system _ _) fun _ => ?_
  rw [metaclass]
  exact setInstanceFields_declares _ _

theorem compile_declares (below : systemClass < initialClasses.length)
    (isClass : classes[systemClass]? = some declared) (source : Source) :
    KeepsSystem (HasSystemClasses classes) (compile loadClass (some systemClass) source)
      fun result image => result = systemClass ∧ HasSystemClasses
        (withFields classes systemClass declared.clazz (parseSource source).classContext)
        image := by
  apply Triple.bind _ (readsOnly_read.keeps _) fun image => ?_
  have assembles : KeepsSystem (HasSystemClasses classes) (do
      assembleSystemClass systemClass image.compilations.length (parseSource source)
      return systemClass) fun result image => result = systemClass ∧ HasSystemClasses
        (withFields classes systemClass declared.clazz (parseSource source).classContext)
        image :=
    Triple.bind _ (assembleSystemClass_declares below isClass _ _) fun _ =>
      triple_pure fun _ has => ⟨rfl, has⟩
  have begins := Triple.bind _ (compile_begins image source) fun _ => assembles
  simp only [bind_assoc] at begins
  exact begins

/-- The first source on the path is the one of the class. -/
theorem loadClassBasic_declares (below : systemClass < initialClasses.length)
    (isClass : classes[systemClass]? = some declared)
    (directories : List (String → Option Source)) :
    KeepsSystem (HasSystemClasses classes)
      (loadClassBasic loadClass declared.name (some systemClass) directories)
      fun result image => ∀ address, result = some address → ∃ source,
        (directories.findSome? fun directory => directory declared.name) = some source ∧
          HasSystemClasses (withFields classes systemClass declared.clazz
            (parseSource source).classContext) image := by
  induction directories with
  | nil => exact triple_pure fun _ _ => nofun
  | cons directory directories inductionHypothesis =>
      rw [List.findSome?_cons]
      cases found : directory declared.name with
      | none =>
          have reads : KeepsSystem (HasSystemClasses classes)
              (compileClass loadClass directory declared.name (some systemClass))
              fun result image => result = none ∧ HasSystemClasses classes image := by
            unfold compileClass
            rw [found]
            exact triple_pure fun _ has => ⟨rfl, has⟩
          apply Triple.bind _ reads fun result => ?_
          apply Triple.assume fun isNone => ?_
          subst isNone
          exact inductionHypothesis
      | some source =>
          have named : ∃ later, (withFields classes systemClass declared.clazz
              (parseSource source).classContext)[systemClass]? = some later ∧
                later.name = declared.name := by
            rw [withFields, List.getElem?_modify, List.getElem?_modify_eq, isClass]
            split <;> exact ⟨_, rfl, rfl⟩
          obtain ⟨later, isLater, sameName⟩ := named
          have reads : KeepsSystem (HasSystemClasses classes)
              (compileClass loadClass directory declared.name (some systemClass))
              fun result image => result = some systemClass ∧ HasSystemClasses
                (withFields classes systemClass declared.clazz (parseSource source).classContext)
                image := by
            unfold compileClass
            rw [found]
            apply Triple.bind _ (compile_declares below isClass source) fun result => ?_
            apply Triple.assume fun isResult => ?_
            subst isResult
            apply Triple.bind _ (readClass_system below isLater) fun clazz => ?_
            apply Triple.assume fun isDeclared => ?_
            have cname : clazz.name = declared.name :=
              (congrArg VMClass.name isDeclared).trans sameName
            dsimp only
            rw [cname, if_neg (fun differs => differs rfl)]
            exact triple_pure fun _ has => ⟨rfl, has⟩
          apply Triple.bind _ reads fun result => ?_
          apply Triple.assume fun isResult => ?_
          subst isResult
          exact triple_pure fun image has address _ => ⟨source, rfl, has⟩

theorem loadSystemClass_declares (path : ClassPath) (depth : Nat)
    (below : systemClass < initialClasses.length)
    (isClass : classes[systemClass]? = some declared) :
    KeepsSystem (HasSystemClasses classes) (loadSystemClass path depth systemClass)
      fun _ image => ∃ source, path.source declared.name = some source ∧
        HasSystemClasses (withFields classes systemClass declared.clazz
          (parseSource source).classContext) image := by
  apply Triple.bind _ (readClass_system below isClass) fun clazz => ?_
  apply Triple.assume fun isDeclared => ?_
  have name : clazz.name = declared.name := by
    have same := congrArg VMClass.name isDeclared
    exact same
  rw [name]
  apply Triple.bind _ (loadClassBasic_declares below isClass path.directories) fun result => ?_
  cases result with
  | none => exact triple_stop _
  | some result =>
      exact ((readsOnly_loadPrimitivesIfAny path result).keeps _).weaken
        (fun image loaded => loaded result rfl) fun _ _ has => has

/-! ### Declared fields -/

/-- The classes have their links and names still, and those that are listed have the
fields of their sources. -/
structure Declared (path : ClassPath) (loaded : List ClassAddress) (classes : List VMClass) :
    Prop where
  links : classes.map VMClass.link = initialClasses.map VMClass.link
  names : classes.map VMClass.name = initialClasses.map VMClass.name
  fields : ∀ address ∈ loaded, ∀ clazz, classes[address]? = some clazz →
    clazz.instanceFields = path.instanceFields clazz.name

theorem map_withFields {Data : Type} {view : VMClass → Data}
    (same : ∀ clazz fields, view { clazz with instanceFields := fields } = view clazz)
    (systemClass metaclass : ClassAddress) (cgc : ClassGenerationContext) :
    (withFields classes systemClass metaclass cgc).map view = classes.map view := by
  have keeps : ∀ (classes : List VMClass) (address : ClassAddress) (fields : List String),
      (classes.modify address fun clazz => { clazz with instanceFields := fields }).map view =
        classes.map view := by
    intro classes address fields
    apply List.ext_getElem?
    intro index
    rw [List.getElem?_map, List.getElem?_map, List.getElem?_modify]
    cases classes[index]? with
    | none => rfl
    | some clazz => by_cases here : address = index <;> simp [here, same]
  rw [withFields, keeps, keeps]

variable {path : ClassPath} {loaded : List ClassAddress}

/-- The metaclass of a system class stands behind it. -/
theorem Declared.metaclass (isDeclared : Declared path loaded classes)
    (below : systemClass < initialClasses.length) (even : systemClass % 2 = 0)
    (isClass : classes[systemClass]? = some declared) : declared.clazz = systemClass + 1 := by
  have link : (classes.map VMClass.link)[systemClass]? = some declared.link := by
    rw [List.getElem?_map, isClass]
    rfl
  have count : initialClasses.length = 26 := by decide +kernel
  have isMetaclass := systemHierarchy_links.2.2 systemClass (count ▸ below)
  rw [if_pos even] at isMetaclass
  have same : systemHierarchy.classOf systemClass = some declared.clazz := by
    rw [Hierarchy.classOf, systemHierarchy, Image.hierarchy]
    change ((initialClasses.map VMClass.link)[systemClass]?).map Link.clazz = _
    rw [← isDeclared.links, link]
    rfl
  exact Option.some.inj (same.symm.trans isMetaclass)

/-- A load of a system class declares its fields and leaves the other system classes alone. -/
theorem Declared.load (isDeclared : Declared path loaded classes)
    (below : systemClass < initialClasses.length)
    (even : ∀ address ∈ systemClass :: loaded, address % 2 = 0)
    (isClass : classes[systemClass]? = some declared) {source : Source}
    (isSource : path.source declared.name = some source) :
    Declared path (systemClass :: loaded)
      (withFields classes systemClass declared.clazz (parseSource source).classContext) where
  links := (map_withFields (fun _ _ => rfl) _ _ _).trans isDeclared.links
  names := (map_withFields (fun _ _ => rfl) _ _ _).trans isDeclared.names
  fields := by
    intro address isLoaded clazz found
    have metaclass := isDeclared.metaclass below (even _ List.mem_cons_self) isClass
    have odd : ∀ first second metaclass : Nat, first % 2 = 0 → second % 2 = 0 →
        metaclass = first + 1 → metaclass ≠ second := by omega
    have aside := odd systemClass address declared.clazz (even _ List.mem_cons_self)
      (even address isLoaded) metaclass
    rw [withFields, List.getElem?_modify_ne _ _ aside] at found
    by_cases here : systemClass = address
    · subst here
      rw [List.getElem?_modify_eq, isClass] at found
      obtain rfl := Option.some.inj found
      dsimp only
      rw [ClassPath.instanceFields, isSource]
      rfl
    · have there : address ∈ loaded :=
        (List.mem_cons.mp isLoaded).resolve_left fun same => here same.symm
      rw [List.getElem?_modify_ne _ _ here] at found
      exact isDeclared.fields address there clazz found

theorem loadSystemClasses_declare (path : ClassPath) (depth : Nat)
    (systemClasses : List ClassAddress) : ∀ loaded : List ClassAddress,
      (∀ address ∈ systemClasses, address < initialClasses.length ∧ address % 2 = 0) →
      (∀ address ∈ loaded, address % 2 = 0) →
      KeepsSystem (fun image => ∃ classes, Declared path loaded classes ∧
          HasSystemClasses classes image)
        (systemClasses.forM (loadSystemClass path depth))
        fun _ image => ∃ classes, Declared path (systemClasses.reverse ++ loaded) classes ∧
          HasSystemClasses classes image := by
  induction systemClasses with
  | nil => exact fun loaded _ _ => triple_pure fun _ has => has
  | cons systemClass others inductionHypothesis =>
      intro loaded areSystem areEven
      obtain ⟨⟨below, even⟩, othersSystem⟩ := List.forall_mem_cons.mp areSystem
      have evenStill : ∀ address ∈ systemClass :: loaded, address % 2 = 0 :=
        List.forall_mem_cons.mpr ⟨even, areEven⟩
      have load : KeepsSystem
          (fun image => ∃ classes, Declared path loaded classes ∧ HasSystemClasses classes image)
          (loadSystemClass path depth systemClass) fun _ image => ∃ classes,
            Declared path (systemClass :: loaded) classes ∧ HasSystemClasses classes image := by
        apply Triple.of_states fun image some => ?_
        obtain ⟨classes, isDeclared, has⟩ := some
        have there : systemClass < image.classes.length := Nat.lt_of_lt_of_le below has.complete
        have isClass : classes[systemClass]? = some (image.classes[systemClass]).declaration := by
          rw [has.getElem? below, List.getElem?_eq_getElem there]
          rfl
        apply (loadSystemClass_declares path depth below isClass).weaken
        · exact fun other same => same ▸ has
        · intro _ later ⟨source, isSource, hasLater⟩
          exact ⟨_, isDeclared.load below evenStill isClass isSource, hasLater⟩
      apply Triple.bind _ load fun _ => ?_
      rw [List.reverse_cons, List.append_assoc]
      exact inductionHypothesis (systemClass :: loaded) othersSystem evenStill

/-- The system classes in the order in which their sources are read. -/
def systemAddresses : List ClassAddress := [2, 6, 0, 4, 8, 12, 10, 14, 16, 18, 20, 22, 24]

theorem newSystemClasses_result : (newSystemClasses.run {}).result = .ok systemAddresses := by
  decide +kernel

/-- In every reachable image the system classes have the fields of their sources. -/
theorem Reachable.declares {image : Image} (reachable : Reachable path image) :
    ∃ classes, Declared path systemAddresses.reverse classes ∧ HasSystemClasses classes image := by
  refine systemRules.reachable (fun depth ends => ?_) reachable
  apply systemRules.bootstrap (fun systemClasses isResult => ?_) ends
  obtain rfl := Except.ok.inj (newSystemClasses_result.symm.trans isResult)
  have count : initialClasses.length = 26 := by decide +kernel
  have areSystem : ∀ address ∈ systemAddresses, address < initialClasses.length ∧
      address % 2 = 0 := by
    rw [count]
    decide
  have loads := loadSystemClasses_declare path depth systemAddresses [] areSystem (by simp)
  rw [List.append_nil] at loads
  refine loads.weaken (fun image same => ?_) fun _ _ has => has
  subst same
  refine ⟨initialClasses.map VMClass.declaration, ⟨?_, ?_, by simp⟩, ?_⟩
  · rw [List.map_map]
    rfl
  · rw [List.map_map]
    rfl
  · refine ⟨?_, Nat.le_refl _, rfl, rfl, rfl⟩
    exact congrArg _ (List.take_length (l := initialClasses))

/-- The field names of a system class, found by the name of the class. -/
theorem Reachable.fieldsOf_system {image : Image} (reachable : Reachable path image)
    {address : ClassAddress} (isSystem : address ∈ systemAddresses) {name : String}
    (named : (initialClasses.map VMClass.name)[address]? = some name) :
    image.fieldsOf address = path.instanceFields name := by
  obtain ⟨classes, isDeclared, has⟩ := reachable.declares
  obtain ⟨below, -⟩ := List.getElem?_eq_some_iff.mp named
  rw [List.length_map] at below
  rw [← isDeclared.names, List.getElem?_map] at named
  have here := has.getElem? below
  cases found : image.classes[address]? with
  | none =>
      rw [here, found] at named
      cases named
  | some clazz =>
      rw [found] at here
      rw [here] at named
      have fields := isDeclared.fields address (List.mem_reverse.mpr isSystem) _ here
      have isName : clazz.name = name := Option.some.inj named
      rw [Image.fieldsOf, found, ← isName]
      exact fields

/-- The superclass of a system class is the one of the bootstrap. -/
theorem Reachable.superClassOf_system {image : Image} (reachable : Reachable path image)
    {address : ClassAddress} (below : address < initialClasses.length) :
    image.superClassOf address = systemHierarchy.superClassOf address := by
  obtain ⟨classes, isDeclared, has⟩ := reachable.declares
  have links : (classes.map VMClass.link)[address]? =
      (initialClasses.map VMClass.link)[address]? := by rw [isDeclared.links]
  rw [List.getElem?_map, has.getElem? below] at links
  rw [Image.superClassOf, Hierarchy.superClassOf, systemHierarchy, Image.hierarchy]
  change _ = ((initialClasses.map VMClass.link)[address]?).bind Link.superClass
  rw [← links]
  cases image.classes[address]? <;> rfl

theorem Reachable.roots {image : Image} (reachable : Reachable path image) :
    image.objectClass = 2 ∧ image.classClass = 6 ∧ image.metaClassClass = 0 := by
  obtain ⟨classes, -, has⟩ := reachable.declares
  rw [has.objectClass, has.classClass, has.metaClassClass]
  decide +kernel

end

end Somr.Classes
