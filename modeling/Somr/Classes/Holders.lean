import Somr.Classes.LoadingRules
import Somr.Compiler.Ownership

/-!
Owns the holders of methods: a method or primitive among the invokables of a class
has that class as its holder.

Holders are set when an array of invokables is attached to a class. Between the
compilation of a source and that moment the superclass is loaded, so the invariant
carries the methods that no class may have yet.
-/

namespace Somr.Classes

open Foundation Compiler Interpreter Process

/-- The method is among the invokables of the class. -/
def Image.Defines (image : Image) (address : ClassAddress) (method : MethodAddress) : Prop :=
  ∃ clazz, image.classes[address]? = some clazz ∧ .code method ∈ clazz.instanceInvokables

/-- The object is among the methods of a compilation of the image. -/
def Image.Installed (image : Image) (method : MethodAddress) : Prop :=
  ∃ compilation address source, method = .compiled compilation address ∧
    image.compilations[compilation]? = some source ∧ source.classContext.Installs address

theorem Image.Installed.below {image : Image} {compilation address : Nat}
    (installed : image.Installed (.compiled compilation address)) :
    compilation < image.compilations.length := by
  obtain ⟨other, _, source, same, found, -⟩ := installed
  obtain ⟨rfl, -⟩ := MethodAddress.compiled.inj same
  exact (List.getElem?_eq_some_iff.mp found).1

/-- Methods have the classes that define them as their holders, and the free ones have
no class. -/
structure Held (free : MethodAddress → Prop) (image : Image) : Prop where
  holder : ∀ {address method}, image.Defines address method →
    image.getHolder (.code method) = some address
  installed : ∀ {address method}, image.Defines address method → image.Installed method
  freeInstalled : ∀ {method}, free method → image.Installed method
  freeUndefined : ∀ {method address}, free method → ¬ image.Defines address method
  parsed : ∀ compilation ∈ image.compilations, ∃ source, compilation = parseSource source

/-- Nothing is remembered of the classes found. -/
abbrev anyClass (_ : Image) (_ : ClassAddress) : Prop := True

abbrev KeepsHeld (pre : Image → Prop) {Value : Type} (process : ClassM Value)
    (post : Value → Image → Prop) : Prop :=
  Triple (keepsKnown anyClass) pre process post

variable {free : MethodAddress → Prop} {image : Image}

theorem Held.weaken {fewer : MethodAddress → Prop} (held : Held free image)
    (weaker : ∀ {method}, fewer method → free method) : Held fewer image :=
  { held with
    freeInstalled := fun isFree => held.freeInstalled (weaker isFree)
    freeUndefined := fun isFree => held.freeUndefined (weaker isFree) }

/-! ### Steps of a load -/

theorem keepsHeld_modify {pre : Image → Prop} {post : Unit → Image → Prop}
    {change : Image → Image} (ends : ∀ image, pre image → post () (change image)) :
    KeepsHeld pre (Process.modify change) post :=
  triple_modify (fun _ _ _ known => known) ends

theorem Held.of_same {other : Image} (held : Held free image)
    (classes : other.classes = image.classes) (holders : other.holders = image.holders)
    (compilations : other.compilations = image.compilations) : Held free other := by
  have defines : ∀ {address method}, other.Defines address method ↔
      image.Defines address method := by
    intro address method
    rw [Image.Defines, classes, Image.Defines]
  have installed : ∀ {method}, other.Installed method ↔ image.Installed method := by
    intro method
    rw [Image.Installed, compilations, Image.Installed]
  exact {
    holder := fun isDefined => by
      rw [Image.getHolder, holders]
      exact held.holder (defines.mp isDefined)
    installed := fun isDefined => installed.mpr (held.installed (defines.mp isDefined))
    freeInstalled := fun isFree => installed.mpr (held.freeInstalled isFree)
    freeUndefined := fun isFree isDefined => held.freeUndefined isFree (defines.mp isDefined)
    parsed := by rw [compilations]; exact held.parsed }

theorem setGlobal_held (name : String) (val : Option Global) :
    KeepsHeld (Held free) (setGlobal name val) fun _ => Held free :=
  keepsHeld_modify fun _ held => held.of_same rfl rfl rfl

/-- Fewer methods in a class. -/
theorem Held.changeClass (held : Held free image) (address : ClassAddress)
    (change : VMClass → VMClass) (fewer : ∀ clazz method,
      InvokableAddress.code method ∈ (change clazz).instanceInvokables →
        .code method ∈ clazz.instanceInvokables) :
    Held free { image with classes := image.classes.modify address change } := by
  have defines : ∀ {other method}, Image.Defines
      { image with classes := image.classes.modify address change } other method →
        image.Defines other method := by
    rintro other method ⟨clazz, found, member⟩
    rw [List.getElem?_modify, Option.map_eq_map, Option.map_eq_some_iff] at found
    obtain ⟨before, there, rfl⟩ := found
    refine ⟨before, there, ?_⟩
    split at member
    · exact fewer before method member
    · exact member
  exact {
    holder := fun isDefined => held.holder (defines isDefined)
    installed := fun isDefined => held.installed (defines isDefined)
    freeInstalled := held.freeInstalled
    freeUndefined := fun isFree isDefined => held.freeUndefined isFree (defines isDefined)
    parsed := held.parsed }

theorem changeClass_held (address : ClassAddress) (change : VMClass → VMClass)
    (fewer : ∀ clazz method, InvokableAddress.code method ∈ (change clazz).instanceInvokables →
      .code method ∈ clazz.instanceInvokables) :
    KeepsHeld (Held free) (changeClass address change) fun _ => Held free :=
  keepsHeld_modify fun _ held => held.changeClass address change fewer

theorem newClass_held (classOfClass : ClassAddress) :
    KeepsHeld (Held free) (newClass classOfClass) fun _ => Held free := by
  have defines : ∀ {image : Image} {address method}, Image.Defines
      { image with classes := image.classes ++ [{ clazz := classOfClass }] } address method →
        image.Defines address method := by
    rintro image address method ⟨clazz, found, member⟩
    rcases List.mem_append.mp (List.mem_of_getElem? found) with isOld | isNew
    · rw [List.getElem?_append] at found
      split at found
      · exact ⟨clazz, found, member⟩
      · obtain rfl := List.mem_singleton.mp (List.mem_of_getElem? found)
        exact nomatch member
    · obtain rfl := List.mem_singleton.mp isNew
      exact nomatch member
  have reads : ReadsOnly (Process.read : ClassM Image) := fun _ => rfl
  apply Triple.bind _ (reads.keeps (Held free)) fun image => ?_
  apply Triple.bind (fun _ => Held free) ?_ fun _ => ?_
  · refine keepsHeld_modify fun image held => ?_
    exact {
      holder := fun isDefined => held.holder (defines isDefined)
      installed := fun isDefined => held.installed (defines isDefined)
      freeInstalled := held.freeInstalled
      freeUndefined := fun isFree isDefined => held.freeUndefined isFree (defines isDefined)
      parsed := held.parsed }
  · exact Triple.bind _ (setGlobal_held "NewClass" _) fun _ => triple_pure fun _ held => held

/-- Setting the holders of some invokables. -/
theorem setHolders (address : ClassAddress) (invokables : List InvokableAddress) (image : Image) :
    KeepsHeld (fun other => other = image) (invokables.forM (setHolder address))
      fun _ other => other.classes = image.classes ∧ other.compilations = image.compilations ∧
        ∀ invokable, other.getHolder invokable =
          if invokable ∈ invokables then some address else image.getHolder invokable := by
  induction invokables generalizing image with
  | nil => exact triple_pure fun _ same => same ▸ ⟨rfl, rfl, fun _ => rfl⟩
  | cons first others inductionHypothesis =>
      have step : KeepsHeld (fun other => other = image) (setHolder address first)
          fun _ other => other = { image with
            holders := assign (fun a b => a == b) first address image.holders } :=
        keepsHeld_modify fun _ same => same ▸ rfl
      refine (Triple.bind _ step fun _ => inductionHypothesis _).weaken (fun _ same => same) ?_
      rintro _ other ⟨classes, compilations, holders⟩
      refine ⟨classes, compilations, fun invokable => ?_⟩
      rw [holders, Image.getHolder, valueOf_beq_assign]
      by_cases isFirst : invokable = first
      · subst isFirst
        simp
      · have unequal : (invokable == first) = false := by simpa using isFirst
        simp only [unequal, List.mem_cons, isFirst, false_or, Bool.false_eq_true, if_false]
        rfl

/-- Free methods become those of a class. -/
theorem setInstanceInvokables_held (address : ClassAddress) (invokables : List InvokableAddress)
    (areFree : ∀ invokable ∈ invokables, ∃ method, invokable = .code method ∧ free method) :
    KeepsHeld (Held free) (setInstanceInvokables address invokables)
      fun _ => Held fun method => free method ∧ .code method ∉ invokables := by
  apply Triple.of_states fun image held => ?_
  have attached : KeepsHeld (fun other => other = image)
      (changeClass address fun clazz => { clazz with instanceInvokables := invokables })
      fun _ other => other = { image with classes := image.classes.modify address (fun clazz =>
        { clazz with instanceInvokables := invokables }) } :=
    keepsHeld_modify fun _ same => same ▸ rfl
  refine (Triple.bind _ attached fun _ => setHolders address invokables _).weaken
    (fun _ same => same) ?_
  rintro _ other ⟨classes, compilations, holders⟩
  have isFree : ∀ {method}, .code method ∈ invokables → free method := by
    intro method member
    obtain ⟨same, isCode, isFree⟩ := areFree _ member
    exact InvokableAddress.code.inj isCode ▸ isFree
  -- A method of the new array belongs to this class, any other to the class it had.
  have defines : ∀ {clazz method}, other.Defines clazz method →
      (clazz = address ∧ .code method ∈ invokables) ∨
        (.code method ∉ invokables ∧ image.Defines clazz method) := by
    rintro clazz method ⟨found, there, member⟩
    rw [classes, List.getElem?_modify, Option.map_eq_map, Option.map_eq_some_iff] at there
    obtain ⟨before, isBefore, rfl⟩ := there
    split at member
    · next here => exact .inl ⟨here.symm, member⟩
    · have isDefined : image.Defines clazz method := ⟨before, isBefore, member⟩
      exact .inr ⟨fun isNew => held.freeUndefined (isFree isNew) isDefined, isDefined⟩
  have installed : ∀ {method}, image.Installed method → other.Installed method := by
    intro method isInstalled
    rw [Image.Installed, compilations]
    exact isInstalled
  constructor
  · intro clazz method isDefined
    rw [holders]
    rcases defines isDefined with ⟨rfl, isNew⟩ | ⟨isOld, isDefined⟩
    · rw [if_pos isNew]
    · rw [if_neg isOld]
      exact held.holder isDefined
  · intro clazz method isDefined
    rcases defines isDefined with ⟨-, isNew⟩ | ⟨-, isDefined⟩
    · exact installed (held.freeInstalled (isFree isNew))
    · exact installed (held.installed isDefined)
  · exact fun isFree => installed (held.freeInstalled isFree.1)
  · intro method clazz stillFree isDefined
    rcases defines isDefined with ⟨-, isNew⟩ | ⟨-, isDefined⟩
    · exact stillFree.2 isNew
    · exact held.freeUndefined stillFree.1 isDefined
  · rw [compilations]
    exact held.parsed

/-! ### The methods of one source -/

section

variable {compilation : Nat} {objects : List CompiledObject} {literals : List Literal}
  {invokables : List InvokableAddress}

/-- The invokables of a new array come from its literals. -/
theorem literal_of_newArrayList
    (made : literals.mapM (invokable? compilation objects) = some invokables)
    {invokable : InvokableAddress} (member : invokable ∈ invokables) :
    ∃ literal ∈ literals, invokable? compilation objects literal = some invokable := by
  induction literals generalizing invokables with
  | nil =>
      obtain rfl : invokables = [] := (Option.some.inj made).symm
      exact nomatch member
  | cons literal literals inductionHypothesis =>
      rw [List.mapM_cons] at made
      obtain ⟨first, isFirst, made⟩ := Option.bind_eq_some_iff.mp made
      obtain ⟨others, areOthers, made⟩ := Option.bind_eq_some_iff.mp made
      obtain rfl := Option.some.inj made
      rcases List.mem_cons.mp member with rfl | later
      · exact ⟨literal, List.mem_cons_self, isFirst⟩
      · obtain ⟨other, there, same⟩ := inductionHypothesis areOthers later
        exact ⟨other, List.mem_cons_of_mem _ there, same⟩

/-- They are objects of the compilation. -/
theorem mem_newArrayList (made : literals.mapM (invokable? compilation objects) = some invokables)
    {invokable : InvokableAddress} (member : invokable ∈ invokables) :
    ∃ address, invokable = .code (.compiled compilation address) ∧
      .object address ∈ literals := by
  obtain ⟨literal, there, isFound⟩ := literal_of_newArrayList made member
  cases literal with
  | symbol text => exact nomatch isFound
  | object address =>
      refine ⟨address, ?_, there⟩
      rw [invokable?] at isFound
      split at isFound
      · exact (Option.some.inj isFound).symm
      · exact (Option.some.inj isFound).symm
      · exact nomatch isFound

/-- The methods of a source are free when the source has been compiled, and the others
stay free. -/
structure FreesSource (compilation : Nat) (cgenc : ClassGenerationContext)
    (before after : MethodAddress → Prop) : Prop where
  source : ∀ address, cgenc.Installs address → after (.compiled compilation address)
  others : ∀ {method}, before method → after method ∧
    ∀ address, method ≠ .compiled compilation address

variable {cgenc : ClassGenerationContext} {before after : MethodAddress → Prop}

theorem FreesSource.areFree (frees : FreesSource compilation cgenc before after)
    (installs : ∀ address, .object address ∈ literals → cgenc.Installs address)
    (made : literals.mapM (invokable? compilation objects) = some invokables) :
    ∀ invokable ∈ invokables, ∃ method, invokable = .code method ∧ after method := by
  intro invokable member
  obtain ⟨address, same, there⟩ := mem_newArrayList made member
  exact ⟨_, same, frees.source address (installs address there)⟩

/-- The methods of the second side are free when those of the first side are taken. -/
theorem FreesSource.stillFree (frees : FreesSource compilation cgenc before after)
    {early late : List Literal} {first second : List InvokableAddress}
    (installs : ∀ address, .object address ∈ late → cgenc.Installs address)
    (apart : ∀ address, .object address ∈ early → .object address ∉ late)
    (isFirst : early.mapM (invokable? compilation objects) = some first)
    (isSecond : late.mapM (invokable? compilation objects) = some second) :
    ∀ invokable ∈ second, ∃ method, invokable = .code method ∧
      after method ∧ .code method ∉ first := by
  intro invokable member
  obtain ⟨address, rfl, inLate⟩ := mem_newArrayList isSecond member
  refine ⟨_, rfl, frees.source address (installs address inLate), fun inFirst => ?_⟩
  obtain ⟨other, same, inEarly⟩ := mem_newArrayList isFirst inFirst
  obtain ⟨-, rfl⟩ := MethodAddress.compiled.inj (InvokableAddress.code.inj same)
  exact apart address inEarly inLate

/-- When both sides have their methods, the methods free before are still free. -/
theorem FreesSource.finish (frees : FreesSource compilation cgenc before after)
    {early late : List Literal} {first second : List InvokableAddress}
    (isFirst : early.mapM (invokable? compilation objects) = some first)
    (isSecond : late.mapM (invokable? compilation objects) = some second) (image : Image)
    (held : Held (fun method => (after method ∧ .code method ∉ first) ∧ .code method ∉ second)
      image) : Held before image := by
  apply held.weaken
  intro method isFree
  obtain ⟨isAfter, other⟩ := frees.others isFree
  have notOf : ∀ {literals : List Literal} {invokables : List InvokableAddress},
      literals.mapM (invokable? compilation objects) = some invokables →
        .code method ∉ invokables := by
    intro literals invokables made member
    obtain ⟨address, same, -⟩ := mem_newArrayList made member
    exact other address (InvokableAddress.code.inj same)
  exact ⟨⟨isAfter, notOf isFirst⟩, notOf isSecond⟩

end

theorem methods_apart {objects : List CompiledObject} {cgenc : ClassGenerationContext}
    (separated : Parser.Separated objects cgenc) (address : Nat) :
    .object address ∈ cgenc.instanceMethods → .object address ∉ cgenc.classMethods := by
  intro isInstance isClass
  have nodup := separated.methods
  rw [Parser.methodLiterals, Parser.references_append] at nodup
  exact (List.nodup_append.mp nodup).2.2 _ (Parser.mem_references.mpr isInstance) _
    (Parser.mem_references.mpr isClass) rfl

theorem setInstanceFields_held (address : ClassAddress) (fields : List String) :
    KeepsHeld (Held free) (setInstanceFields address fields) fun _ => Held free :=
  changeClass_held address (fun clazz => { clazz with instanceFields := fields })
    fun _ _ member => member

theorem setName_held (address : ClassAddress) (name : String) :
    KeepsHeld (Held free) (setName address name) fun _ => Held free :=
  changeClass_held address (fun clazz => { clazz with name := name }) fun _ _ member => member

theorem setSuperClass_held (address superClass : ClassAddress) :
    KeepsHeld (Held free) (setSuperClass address superClass) fun _ => Held free :=
  changeClass_held address (fun clazz => { clazz with superClass := some superClass })
    fun _ _ member => member

theorem assemble_held {compilation : Nat} {before after : MethodAddress → Prop}
    {source : Compilation} (frees : FreesSource compilation source.classContext before after)
    (separated : Parser.Separated source.objects source.classContext)
    {loadClass : String → ClassM (Option ClassAddress)}
    (loads : Loads (Held after) anyClass loadClass) :
    KeepsHeld (Held after) (assemble loadClass compilation source) fun _ => Held before := by
  have load := (loads source.classContext.superName).weaken (fun _ held => held)
    fun _ _ found => found.1
  have reads : ReadsOnly (Process.read : ClassM Image) := fun _ => rfl
  apply Triple.bind _ load fun found => ?_
  apply Triple.bind _ (reads.keeps _) fun image => ?_
  apply Triple.bind _ (newClass_held _) fun resultClass => ?_
  apply Triple.bind _ (setInstanceFields_held _ _) fun _ => ?_
  apply Triple.demand fun classMethods isClassSide => ?_
  apply Triple.bind _ (setInstanceInvokables_held _ _
    (frees.areFree (fun _ => .inr) isClassSide)) fun _ => ?_
  apply Triple.bind _ (setName_held _ _) fun _ => ?_
  apply Triple.demand fun superClass _ => ?_
  apply Triple.bind _ ((readsOnly_readClass superClass).keeps _) fun clazz => ?_
  apply Triple.bind _ (setSuperClass_held _ _) fun _ => ?_
  apply Triple.bind _ (newClass_held _) fun result => ?_
  apply Triple.bind _ (setInstanceFields_held _ _) fun _ => ?_
  apply Triple.demand fun instanceMethods isInstanceSide => ?_
  have apart := fun address isClass isInstance =>
    methods_apart separated address isInstance isClass
  have areFree := frees.stillFree (fun _ => .inl) apart isClassSide isInstanceSide
  apply Triple.bind _ (setInstanceInvokables_held _ _ areFree) fun _ => ?_
  apply Triple.bind _ (setName_held _ _) fun _ => ?_
  apply Triple.bind _ (setSuperClass_held _ _) fun _ => ?_
  exact triple_pure (frees.finish isClassSide isInstanceSide)

theorem assembleSystemClass_held {compilation : Nat} {before after : MethodAddress → Prop}
    {source : Compilation} (frees : FreesSource compilation source.classContext before after)
    (separated : Parser.Separated source.objects source.classContext)
    (systemClass : ClassAddress) :
    KeepsHeld (Held after) (assembleSystemClass systemClass compilation source)
      fun _ => Held before := by
  apply Triple.demand fun instanceMethods isInstanceSide => ?_
  apply Triple.bind _ (setInstanceInvokables_held _ _
    (frees.areFree (fun _ => .inl) isInstanceSide)) fun _ => ?_
  apply Triple.bind _ (setInstanceFields_held _ _) fun _ => ?_
  apply Triple.bind _ ((readsOnly_readClass systemClass).keeps _) fun clazz => ?_
  apply Triple.demand fun classMethods isClassSide => ?_
  have areFree := frees.stillFree (fun _ => .inr) (methods_apart separated) isInstanceSide
    isClassSide
  apply Triple.bind _ (setInstanceInvokables_held _ _ areFree) fun _ => ?_
  exact (setInstanceFields_held _ _).weaken (fun _ held => held)
    fun _ image held => frees.finish isInstanceSide isClassSide image held

/-! ### Every load -/

theorem storeMethods_held (compilation address : Nat) (objects : List CompiledObject) :
    KeepsHeld (Held free) (storeMethods compilation address objects) fun _ => Held free := by
  induction objects generalizing address with
  | nil => exact triple_pure fun _ held => held
  | cons object objects inductionHypothesis =>
      cases object with
      | method method =>
          exact Triple.bind _ (setGlobal_held _ _) fun _ => inductionHypothesis (address + 1)
      | integer value => exact inductionHypothesis (address + 1)
      | string chars => exact inductionHypothesis (address + 1)
      | primitive signature => exact inductionHypothesis (address + 1)

/-- These methods and those of the next compilation. -/
def orNext (free : MethodAddress → Prop) (image : Image) (source : Source)
    (method : MethodAddress) : Prop :=
  free method ∨ ∃ address, method = .compiled image.compilations.length address ∧
    (parseSource source).classContext.Installs address

theorem Held.freesSource (held : Held free image) (source : Source) :
    FreesSource image.compilations.length (parseSource source).classContext free
      (orNext free image source) where
  source address installs := .inr ⟨address, rfl, installs⟩
  others := by
    intro method isFree
    refine ⟨.inl isFree, fun address same => ?_⟩
    subst same
    exact Nat.lt_irrefl _ (held.freeInstalled isFree).below

/-- The methods of a source that has just been compiled are free. -/
theorem Held.compile (held : Held free image) (source : Source) :
    Held (orNext free image source)
      { image with compilations := image.compilations ++ [parseSource source] } := by
  have installed : ∀ {method}, image.Installed method → Image.Installed
      { image with compilations := image.compilations ++ [parseSource source] } method := by
    rintro method ⟨compilation, address, found, same, isSource, installs⟩
    have below := (List.getElem?_eq_some_iff.mp isSource).1
    exact ⟨compilation, address, found, same,
      (List.getElem?_append_left below).trans isSource, installs⟩
  constructor
  · exact held.holder
  · exact fun isDefined => installed (held.installed isDefined)
  · rintro method (isFree | ⟨address, rfl, installs⟩)
    · exact installed (held.freeInstalled isFree)
    · exact ⟨_, address, _, rfl, List.getElem?_concat_length, installs⟩
  · rintro method clazz (isFree | ⟨address, rfl, -⟩) isDefined
    · exact held.freeUndefined isFree isDefined
    · exact Nat.lt_irrefl _ (held.installed isDefined).below
  · intro compilation member
    rcases List.mem_append.mp member with isOld | isNew
    · exact held.parsed compilation isOld
    · exact ⟨source, List.mem_singleton.mp isNew⟩

theorem compile_held {loadClass : String → ClassM (Option ClassAddress)}
    (loads : ∀ free, Loads (Held free) anyClass loadClass) (free : MethodAddress → Prop)
    (systemClass : Option ClassAddress) (source : Source) :
    KeepsHeld (Held free) (compile loadClass systemClass source) fun result image =>
      Held free image ∧ (systemClass = none → anyClass image result) := by
  apply Triple.of_states fun image held => ?_
  apply Triple.read
  have compiles : KeepsHeld (fun other => other = image) (Process.modify fun image =>
      { image with compilations := image.compilations ++ [parseSource source] })
      fun _ => Held (orNext free image source) :=
    keepsHeld_modify fun _ same => same ▸ held.compile source
  have separated : Parser.Separated (parseSource source).objects (parseSource source).classContext :=
    Parser.separated_parse source
  apply Triple.bind _ compiles fun _ => ?_
  apply Triple.bind _ (storeMethods_held _ _ _) fun _ => ?_
  cases systemClass with
  | none =>
      exact (assemble_held (held.freesSource source) separated (loads _)).weaken (fun _ held => held)
        fun _ _ held => ⟨held, fun _ => trivial⟩
  | some systemClass =>
      apply Triple.bind _
        (assembleSystemClass_held (held.freesSource source) separated systemClass) fun _ => ?_
      exact triple_pure fun _ held => ⟨held, fun _ => trivial⟩

/-- An evaluation primitive is no method. -/
theorem addEvaluation_held (address : ClassAddress) (evaluation : Nat) :
    KeepsHeld (Held free) (addInstanceInvokable address (.evaluation evaluation))
      fun _ => Held free := by
  have reads : ReadsOnly (Process.read : ClassM Image) := fun _ => rfl
  have holder : KeepsHeld (Held free) (setHolder address (.evaluation evaluation))
      fun _ => Held free := by
    refine keepsHeld_modify fun image held => { held with holder := fun isDefined => ?_ }
    rw [Image.getHolder, valueOf_beq_assign]
    exact held.holder isDefined
  apply Triple.bind _ (reads.keeps _) fun image => ?_
  apply Triple.bind _ ((readsOnly_readClass address).keeps _) fun clazz => ?_
  split
  · next index _ =>
      have replaced : KeepsHeld (Held free) (setInstanceInvokable address index
          (.evaluation evaluation)) fun _ => Held free := by
        refine Triple.bind _ (changeClass_held address _ fun clazz method member => ?_)
          fun _ => holder
        exact (List.mem_or_eq_of_mem_set member).resolve_right fun same => nomatch same
      exact Triple.bind _ replaced fun _ => triple_pure fun _ held => held
  · refine Triple.bind _ (changeClass_held address _ fun clazz method member => ?_)
      fun _ => triple_pure fun _ held => held
    exact (List.mem_append.mp member).resolve_right fun isNew =>
      nomatch List.mem_singleton.mp isNew

theorem systemClasses_held : Held (fun _ => False) (newSystemClasses.run {}).state := by
  have noMethods : (newSystemClasses.run {}).state.classes.all
      (fun clazz => clazz.instanceInvokables.isEmpty) = true := by
    decide +kernel
  have undefined : ∀ {address method},
      ¬ Image.Defines (newSystemClasses.run {}).state address method := by
    rintro address method ⟨clazz, found, member⟩
    have empty := List.all_eq_true.mp noMethods clazz (List.mem_of_getElem? found)
    rw [List.isEmpty_iff.mp empty] at member
    exact nomatch member
  have noSources : (newSystemClasses.run {}).state.compilations.length = 0 := by decide +kernel
  constructor
  · exact fun isDefined => absurd isDefined undefined
  · exact fun isDefined => absurd isDefined undefined
  · exact False.elim
  · exact fun isFree => isFree.elim
  · intro compilation member
    rw [List.eq_nil_of_length_eq_zero noSources] at member
    exact nomatch member

theorem heldRules : LoadingRules Held anyClass fun _ => False where
  systemClasses := systemClasses_held
  global _ _ := trivial
  isClass _ _ := trivial
  setGlobal free name val :=
    (setGlobal_held name val).weaken (fun _ holds => holds.1) fun _ _ held => held
  bootstrapHolder free systemClass := by
    refine keepsHeld_modify fun image held => { held with holder := fun isDefined => ?_ }
    rw [Image.getHolder, valueOf_beq_assign]
    obtain ⟨compilation, other, source, rfl, -⟩ := held.installed isDefined
    exact held.holder isDefined
  compile loads free systemClass source := compile_held loads free systemClass source
  evaluation free result argc := by
    have reads : ReadsOnly (Process.read : ClassM Image) := fun _ => rfl
    have evaluations : KeepsHeld (Held free) (Process.modify fun image =>
        { image with evaluations := image.evaluations ++ [argc] }) fun _ => Held free :=
      keepsHeld_modify fun _ held => held.of_same rfl rfl rfl
    have last : KeepsHeld (Held free) (Pure.pure () : ClassM Unit) fun _ => Held free :=
      triple_pure fun _ held => held
    have adds := Triple.bind _ (reads.keeps (Held free)) fun image =>
      Triple.bind _ evaluations fun _ =>
        Triple.bind _ (addEvaluation_held result image.evaluations.length) fun _ => last
    exact adds.weaken (fun _ found => found.1) fun _ _ held => ⟨held, fun _ _ => trivial⟩

/-- In every reachable image, a method is held by the class that defines it. -/
theorem holder_of_defines {path : ClassPath} (reachable : Reachable path image)
    {address : ClassAddress} {method : MethodAddress} (defines : image.Defines address method) :
    image.getHolder (.code method) = some address :=
  (heldRules.reachable reachable).holder defines

end Somr.Classes
