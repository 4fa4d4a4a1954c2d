import Somr.Classes.Metaclasses
import Somr.Compiler.ClassDefinitions

/-!
Owns what becomes of a source with syntax errors, and that a class definition
compiles to a class.

`SourcecodeCompiler::compile` assembles whatever the parser leaves. The errors are
printed only, so the answer of the compiler does not depend on them; a class, its
metaclass and its methods are made of every source, and they become globals.
-/

namespace Somr.Classes

open Foundation Compiler Interpreter Process

/-! ### Outlines -/

/-- The globals of an image and the names of its classes. -/
structure Outline where
  globals : List (String × Option Global)
  names : List String

def Image.outline (image : Image) : Outline := ⟨image.globals, image.classes.map VMClass.name⟩

def Outline.setGlobal (outline : Outline) (name : String) (val : Option Global) : Outline :=
  { outline with globals := assign (fun a b => a == b) name val outline.globals }

/-- A new class, which has no name yet. -/
def Outline.newClass (outline : Outline) : Outline :=
  { outline.setGlobal "NewClass" (some (.clazz outline.names.length)) with
    names := outline.names ++ [""] }

def Outline.setName (outline : Outline) (address : ClassAddress) (name : String) : Outline :=
  { outline with names := outline.names.set address name }

/-- The computation succeeds and takes one outline to the other. -/
def Outlines (before : Outline) {Value : Type} (process : ClassM Value) (after : Outline) : Prop :=
  Succeeds (fun image => image.outline = before) process fun _ image => image.outline = after

theorem ReadsOnly.triple {Value : Type} {process : ClassM Value} (reads : ReadsOnly process)
    (condition : Image → Prop) :
    Triple (.any Empty Image) condition process fun _ => condition := by
  intro image holds _
  rw [reads image]
  exact ⟨trivial, fun _ _ => holds⟩

variable {outline : Outline}

theorem Image.length_names (image : Image) : image.outline.names.length = image.classes.length :=
  List.length_map _

theorem outlines_modify {change : Image → Image} {after : Outline}
    (same : ∀ image, image.outline = outline → (change image).outline = after) :
    Outlines outline (Process.modify change) after :=
  succeeds_modify same

theorem changeClass_outline (address : ClassAddress) (change : VMClass → VMClass)
    (same : ∀ clazz, (change clazz).name = clazz.name) :
    Outlines outline (changeClass address change) outline := by
  refine outlines_modify fun image isOutline => ?_
  have names : (image.classes.modify address change).map VMClass.name =
      image.classes.map VMClass.name := by
    apply List.ext_getElem?
    intro index
    rw [List.getElem?_map, List.getElem?_map, List.getElem?_modify]
    cases image.classes[index]? with
    | none => rfl
    | some clazz =>
        by_cases here : address = index
        · simp [here, same]
        · simp [here]
  rw [← isOutline, Image.outline, Image.outline]
  dsimp only
  rw [names]

theorem setInstanceFields_outline (address : ClassAddress) (fields : List String) :
    Outlines outline (setInstanceFields address fields) outline :=
  changeClass_outline address (fun clazz => { clazz with instanceFields := fields }) fun _ => rfl

theorem setSuperClass_outline (address superClass : ClassAddress) :
    Outlines outline (setSuperClass address superClass) outline :=
  changeClass_outline address (fun clazz => { clazz with superClass := some superClass })
    fun _ => rfl

theorem setName_outline (address : ClassAddress) (name : String) :
    Outlines outline (setName address name) (outline.setName address name) := by
  refine outlines_modify fun image isOutline => ?_
  have names : (image.classes.modify address fun clazz => { clazz with name := name }).map
      VMClass.name = (image.classes.map VMClass.name).set address name := by
    apply List.ext_getElem?
    intro index
    rw [List.getElem?_map, List.getElem?_modify, List.getElem?_set, List.length_map,
      List.getElem?_map]
    by_cases here : address = index
    · subst here
      by_cases inside : address < image.classes.length
      · simp [inside]
      · simp [inside]
    · simp [here]
  rw [← isOutline, Image.outline, Image.outline, Outline.setName]
  dsimp only
  rw [names]

theorem setHolders_outline (address : ClassAddress) (invokables : List InvokableAddress) :
    Outlines outline (invokables.forM (setHolder address)) outline := by
  induction invokables with
  | nil => exact succeeds_pure fun _ same => same
  | cons invokable others inductionHypothesis =>
      have holder : Outlines outline (setHolder address invokable) outline :=
        outlines_modify fun _ same => same
      exact Succeeds.bind _ holder fun _ => inductionHypothesis

theorem setInstanceInvokables_outline (address : ClassAddress)
    (invokables : List InvokableAddress) :
    Outlines outline (setInstanceInvokables address invokables) outline := by
  have attached : Outlines outline (changeClass address fun clazz =>
      { clazz with instanceInvokables := invokables }) outline :=
    changeClass_outline address _ fun _ => rfl
  exact Succeeds.bind _ attached fun _ => setHolders_outline address invokables

theorem newClass_outline (classOfClass : ClassAddress) :
    Succeeds (fun image => image.outline = outline) (newClass classOfClass) fun result image =>
      result = outline.names.length ∧ image.outline = outline.newClass := by
  rintro image rfl
  have runs : (newClass classOfClass).Runs image image.classes.length { image with
      classes := image.classes ++ [{ clazz := classOfClass }]
      globals := assign (fun a b => a == b) "NewClass" (some (.clazz image.classes.length))
        image.globals } := ⟨[], rfl⟩
  refine ⟨_, _, runs, image.length_names.symm, ?_⟩
  rw [Outline.newClass, image.length_names, Image.outline]
  simp only [List.map_append]
  rfl

theorem readClass_outline (address : ClassAddress) (inside : address < outline.names.length) :
    Succeeds (fun image => image.outline = outline) (readClass address) fun clazz image =>
      outline.names[address]? = some clazz.name ∧ image.outline = outline := by
  rintro image rfl
  rw [Image.length_names] at inside
  have found : image.classes[address]? = some image.classes[address] :=
    List.getElem?_eq_getElem inside
  refine ⟨image.classes[address], image, ⟨[], ?_⟩, ?_, rfl⟩
  · rw [readClass, bind_of_silent (run_read image), found]
    rfl
  · rw [Image.outline, List.getElem?_map, found]
    rfl

/-! ### A class and its metaclass -/

/-- What `assemble` leaves where the superclass has been loaded. -/
def Outline.assemble (outline : Outline) (name : String) : Outline :=
  let metaclass := outline.newClass.setName outline.names.length (name ++ " class")
  metaclass.newClass.setName metaclass.names.length name

theorem Outline.length_newClass (outline : Outline) :
    outline.newClass.names.length = outline.names.length + 1 :=
  List.length_append

theorem Outline.length_setName (outline : Outline) (address : ClassAddress) (name : String) :
    (outline.setName address name).names.length = outline.names.length :=
  List.length_set

/-- The class is the one made last. -/
theorem Outline.assemble_newest (outline : Outline) (name : String) :
    valueOf (fun a b => a == b) "NewClass" (outline.assemble name).globals =
      some (some (.clazz (outline.names.length + 1))) := by
  rw [assemble, setName, newClass, setGlobal]
  dsimp only
  rw [valueOf_beq_assign, if_pos (beq_self_eq_true _), length_setName, length_newClass]

theorem Outline.assemble_name (outline : Outline) (name : String) :
    (outline.assemble name).names[outline.names.length + 1]? = some name := by
  rw [assemble, length_setName, length_newClass, setName]
  apply List.getElem?_set_self
  rw [length_newClass, length_setName, length_newClass]
  exact Nat.lt_succ_self _

section

variable {loadClass : String → ClassM (Option ClassAddress)} {compilation : Nat}
  {source : Compilation}

/-- Whatever the source is, a class that is assembled is made behind those that the
load of its superclass leaves, and becomes a global. -/
theorem assemble_outline (image : Image) :
    Triple (.any Empty Image) (fun other => other = image) (assemble loadClass compilation source)
      fun result after => ∃ superClass loaded,
        (loadClass source.classContext.superName).Runs image (some superClass) loaded ∧
          result = loaded.classes.length + 1 ∧
          after.outline = loaded.outline.assemble source.classContext.name := by
  have load : Triple (.any Empty Image) (fun other => other = image)
      (loadClass source.classContext.superName)
      ((loadClass source.classContext.superName).Runs image) := by
    rintro _ rfl _
    exact ⟨trivial, fun _ ends => runs_of_result ends⟩
  apply Triple.bind _ load fun found => ?_
  apply Triple.of_states fun loaded loads => ?_
  apply Triple.read
  have outlined := fun other (same : other = loaded) => congrArg Image.outline same
  apply Triple.bind _ ((newClass_outline _).triple.weaken outlined fun _ _ ends => ends)
    fun resultClass => ?_
  apply Triple.assume fun isNext => ?_
  subst isNext
  apply Triple.bind _ (setInstanceFields_outline _ _).triple fun _ => ?_
  apply Triple.demand fun classMethods _ => ?_
  apply Triple.bind _ (setInstanceInvokables_outline _ _).triple fun _ => ?_
  apply Triple.bind _ (setName_outline _ _).triple fun _ => ?_
  apply Triple.demand fun superClass isFound => ?_
  subst isFound
  apply Triple.bind _ ((readsOnly_readClass superClass).triple _) fun clazz => ?_
  apply Triple.bind _ (setSuperClass_outline _ _).triple fun _ => ?_
  apply Triple.bind _ (newClass_outline _).triple fun result => ?_
  apply Triple.assume fun isNext => ?_
  subst isNext
  apply Triple.bind _ (setInstanceFields_outline _ _).triple fun _ => ?_
  apply Triple.demand fun instanceMethods _ => ?_
  apply Triple.bind _ (setInstanceInvokables_outline _ _).triple fun _ => ?_
  apply Triple.bind _ (setName_outline _ _).triple fun _ => ?_
  apply Triple.bind _ (setSuperClass_outline _ _).triple fun _ => ?_
  refine triple_pure fun after same => ⟨superClass, loaded, loads, ?_, same⟩
  rw [Outline.length_setName, Outline.length_newClass, Image.length_names]

/-- Where the superclass has been loaded and the methods are invokables, a class is
assembled. -/
theorem assemble_succeeds {image loaded : Image} {superClass : ClassAddress}
    {classMethods instanceMethods : List InvokableAddress}
    (loads : (loadClass source.classContext.superName).Runs image (some superClass) loaded)
    (isClass : superClass < loaded.classes.length)
    (classSide : source.classContext.classMethods.mapM (invokable? compilation source.objects) =
      some classMethods)
    (instanceSide : source.classContext.instanceMethods.mapM
      (invokable? compilation source.objects) = some instanceMethods) :
    (assemble loadClass compilation source).Finishes image := by
  apply Finishes.bind ⟨_, _, loads⟩
  intro found after runs
  obtain ⟨rfl, rfl⟩ := loads.unique runs
  apply Succeeds.finishes
  apply Succeeds.read
  have outlined := fun other (same : other = loaded) => congrArg Image.outline same
  have inside : superClass < loaded.outline.names.length := loaded.length_names ▸ isClass
  apply Succeeds.bind _ ((newClass_outline _).weaken outlined fun _ _ ends => ends)
    fun resultClass => ?_
  apply Succeeds.assume fun isNext => ?_
  subst isNext
  apply Succeeds.bind _ (setInstanceFields_outline _ _) fun _ => ?_
  apply Succeeds.demand classSide
  apply Succeeds.bind _ (setInstanceInvokables_outline _ _) fun _ => ?_
  apply Succeeds.bind _ (setName_outline _ _) fun _ => ?_
  apply Succeeds.demand rfl
  apply Succeeds.bind _ (readClass_outline superClass ?_) fun clazz => ?_
  · rw [Outline.length_setName, Outline.length_newClass]
    exact Nat.lt_succ_of_lt inside
  apply Succeeds.assume fun isName => ?_
  apply Succeeds.bind _ (setSuperClass_outline _ _) fun _ => ?_
  apply Succeeds.bind _ (newClass_outline _) fun result => ?_
  apply Succeeds.assume fun isNext => ?_
  subst isNext
  apply Succeeds.bind _ (setInstanceFields_outline _ _) fun _ => ?_
  apply Succeeds.demand instanceSide
  apply Succeeds.bind _ (setInstanceInvokables_outline _ _) fun _ => ?_
  apply Succeeds.bind _ (setName_outline _ _) fun _ => ?_
  apply Succeeds.bind _ (setSuperClass_outline _ _) fun _ => ?_
  exact succeeds_pure fun _ _ => trivial

end

/-! ### The methods of a class definition -/

/-- What methods added to a class context keep. -/
theorem generateMethods_keeps (add : Literal → ClassGenerationContext → ClassGenerationContext)
    {Holds : ClassGenerationContext → Prop}
    (adds : ∀ address cgenc, Holds cgenc → Holds (add (.object address) cgenc))
    (definitions : List MethodDefinition) :
    ∀ (base : Nat) (cgenc : ClassGenerationContext), Holds cgenc →
      Holds (generateMethods add base cgenc definitions).classContext := by
  induction definitions with
  | nil => exact fun _ _ holds => holds
  | cons definition rest inductionHypothesis =>
      intro base cgenc holds
      apply inductionHypothesis
      cases definition with
      | primitive pattern => exact adds base cgenc holds
      | code pattern locals body => exact adds _ cgenc holds

theorem generate_keeps {Holds : ClassGenerationContext → Prop} (definition : ClassDefinition)
    (start : Holds definition.instanceContext)
    (instanceMethod : ∀ address cgenc, Holds cgenc →
      Holds { cgenc with instanceMethods := cgenc.instanceMethods ++ [.object address] })
    (classSide : ∀ fields cgenc, Holds cgenc →
      Holds { cgenc with classSide := true, classFields := cgenc.classFields ++ fields })
    (classMethod : ∀ address cgenc, Holds cgenc →
      Holds { cgenc with classMethods := cgenc.classMethods ++ [.object address] }) :
    Holds definition.generate.classContext := by
  have early := generateMethods_keeps (fun invokable cgenc =>
    { cgenc with instanceMethods := cgenc.instanceMethods ++ [invokable] }) instanceMethod
      definition.instanceSide.methods 0 definition.instanceContext start
  cases isSide : definition.classSide with
  | none =>
      rw [ClassDefinition.generate, isSide]
      exact early
  | some side =>
      rw [ClassDefinition.generate, isSide]
      exact generateMethods_keeps (fun invokable cgenc =>
        { cgenc with classMethods := cgenc.classMethods ++ [invokable] }) classMethod
          side.methods _ _ (classSide _ _ early)

theorem name_generate (definition : ClassDefinition) :
    definition.generate.classContext.name = definition.name.text :=
  @generate_keeps (fun cgenc => cgenc.name = definition.name.text) definition rfl
    (fun _ _ same => same) (fun _ _ same => same) fun _ _ same => same

/-- The methods of a class are objects. -/
def OnlyObjects (cgenc : ClassGenerationContext) : Prop :=
  ∀ literal, literal ∈ cgenc.instanceMethods ∨ literal ∈ cgenc.classMethods →
    ∃ address, literal = .object address

theorem onlyObjects_generate (definition : ClassDefinition) :
    OnlyObjects definition.generate.classContext := by
  have added : ∀ {literals : List Literal} {address : Nat} {literal : Literal},
      literal ∈ literals ++ [.object address] →
        literal ∈ literals ∨ ∃ address, literal = .object address := by
    intro literals address literal member
    exact (List.mem_append.mp member).imp_right fun isNew => ⟨address, List.mem_singleton.mp isNew⟩
  apply generate_keeps
  · rintro literal (there | there) <;> exact nomatch there
  · rintro address cgenc objects literal (isInstance | isClass)
    · exact (added isInstance).elim (fun isOld => objects literal (.inl isOld)) id
    · exact objects literal (.inr isClass)
  · exact fun _ _ objects => objects
  · rintro address cgenc objects literal (isInstance | isClass)
    · exact objects literal (.inl isInstance)
    · exact (added isClass).elim (fun isOld => objects literal (.inr isOld)) id

/-- The methods of a class definition are invokables. -/
theorem invokables_definition (definition : ClassDefinition) (compilation : Nat)
    {literals : List Literal} (methods : ∀ literal ∈ literals,
      literal ∈ definition.generate.classContext.instanceMethods ∨
        literal ∈ definition.generate.classContext.classMethods) :
    ∃ invokables,
      literals.mapM (invokable? compilation definition.generate.objects) = some invokables := by
  induction literals with
  | nil => exact ⟨[], rfl⟩
  | cons literal literals inductionHypothesis =>
      rw [List.forall_mem_cons] at methods
      obtain ⟨others, areOthers⟩ := inductionHypothesis methods.2
      obtain ⟨address, rfl⟩ := onlyObjects_generate definition literal methods.1
      have isInvokable : invokable? compilation definition.generate.objects (.object address) =
          some (.code (.compiled compilation address)) := by
        rcases outermost_or_primitive_of_installed methods.1 with
          ⟨unit, isUnit, rfl, -⟩ | ⟨signature, isPrimitive⟩
        · rw [invokable?, (located_units definition unit isUnit).placed]
        · rw [invokable?, isPrimitive]
      refine ⟨.code (.compiled compilation address) :: others, ?_⟩
      rw [List.mapM_cons, isInvokable, areOthers]
      rfl

/-! ### Compiling a source -/

/-- The image in which the class of a source is assembled. -/
def Image.parsed (image : Image) (source : Source) : Image :=
  ((storeMethods image.compilations.length 0 (parseSource source).objects).run
    { image with compilations := image.compilations ++ [parseSource source] }).state

theorem storeMethods_run (compilation address : Nat) (objects : List CompiledObject)
    (image : Image) : (storeMethods compilation address objects).run image =
      ⟨.ok (), ((storeMethods compilation address objects).run image).state, []⟩ := by
  induction objects generalizing address image with
  | nil => rfl
  | cons object objects inductionHypothesis =>
      cases object with
      | method method =>
          rw [storeMethods, setGlobal, bind_of_silent (run_modify _ _)]
          exact inductionHypothesis (address + 1) _
      | integer value => exact inductionHypothesis (address + 1) image
      | string chars => exact inductionHypothesis (address + 1) image
      | primitive signature => exact inductionHypothesis (address + 1) image

/-- The names of the classes are those before. -/
theorem parsed_names (image : Image) (source : Source) :
    (image.parsed source).outline.names = image.outline.names := by
  have stores : ∀ (compilation address : Nat) (objects : List CompiledObject) (image : Image),
      ((storeMethods compilation address objects).run image).state.classes = image.classes := by
    intro compilation address objects
    induction objects generalizing address with
    | nil => exact fun _ => rfl
    | cons object objects inductionHypothesis =>
        intro image
        cases object with
        | method method =>
            rw [storeMethods, setGlobal, bind_of_silent (run_modify _ _)]
            exact inductionHypothesis (address + 1) _
        | integer value => exact inductionHypothesis (address + 1) image
        | string chars => exact inductionHypothesis (address + 1) image
        | primitive signature => exact inductionHypothesis (address + 1) image
  rw [Image.outline, Image.outline, Image.parsed, stores]

section

variable {loadClass : String → ClassM (Option ClassAddress)} {image : Image} {source : Source}

theorem compile_class_run : (compile loadClass none source).run image =
    (assemble loadClass image.compilations.length (parseSource source)).run
      (image.parsed source) := by
  rw [compile, bind_of_silent (run_read image), bind_of_silent (run_modify _ _),
    bind_of_silent (storeMethods_run _ _ _ _)]
  rfl

theorem compile_system_run (systemClass : ClassAddress) :
    (compile loadClass (some systemClass) source).run image =
      (do
        assembleSystemClass systemClass image.compilations.length (parseSource source)
        return systemClass : ClassM ClassAddress).run (image.parsed source) := by
  rw [compile, bind_of_silent (run_read image), bind_of_silent (run_modify _ _),
    bind_of_silent (storeMethods_run _ _ _ _)]
  rfl

/-! ### Calls of the compiler -/

/-- How the universe calls the compiler. -/
inductive CompilerCall where
  /-- `CompileClassString` for a statement of the shell. -/
  | classString
  /-- `CompileClass` for a class that is not there yet. -/
  | newClass (file : String)
  /-- `CompileClass` for a system class. -/
  | systemClass (address : ClassAddress)

/-- What the call answers, where `none` is a null pointer. -/
def CompilerCall.run (loadClass : String → ClassM (Option ClassAddress)) (source : Source) :
    CompilerCall → ClassM (Option ClassAddress)
  | .classString => do
      let result ← compileClassString loadClass source
      return some result
  | .newClass file => compileClass loadClass (fun _ => some source) file none
  | .systemClass address => do
      let systemClass ← readClass address
      compileClass loadClass (fun _ => some source) systemClass.name (some address)

/-- The name of the class definition is the one that the class is looked up by. -/
def CompilerCall.Names (image : Image) (name : String) : CompilerCall → Prop
  | .classString => True
  | .newClass file => name = file
  | .systemClass address => (image.classes[address]?).map VMClass.name = some name

/-- The image in which the superclass of the source has been loaded. -/
def Image.loadedFor (image : Image) (loadClass : String → ClassM (Option ClassAddress))
    (source : Source) : Image :=
  ((loadClass (parseSource source).classContext.superName).run (image.parsed source)).state

/-- Classes that are made when the superclass has been loaded and methods of the
compilation are made from the source. -/
inductive FromSource (loadClass : String → ClassM (Option ClassAddress)) (image : Image)
    (source : Source) : Global → Prop
  | method (address : Nat) : FromSource loadClass image source
      (.invokable (.code (.compiled image.compilations.length address)))
  | clazz (address : ClassAddress) :
      (image.loadedFor loadClass source).classes.length ≤ address →
      FromSource loadClass image source (.clazz address)

/-- The answer is a null pointer, and the program cannot see anything made from the
source. -/
structure Rejected (loadClass : String → ClassM (Option ClassAddress)) (image : Image)
    (call : CompilerCall) (source : Source) : Prop where
  answer : ((call.run loadClass source).run image).result = .ok none
  invisible : ∀ name val, ((call.run loadClass source).run image).state.getGlobal name = some val →
    ¬ FromSource loadClass image source val

/-- An `expect` or `expectOneOf` of the parser fails on the source. -/
def HasSyntaxErrors (source : Source) : Prop := (Parser.parse source).events ≠ []

/-- Sources with syntax errors are rejected, and class definitions compile to a class. -/
structure HandlesErrors (loadClass : String → ClassM (Option ClassAddress)) (image : Image)
    (call : CompilerCall) (source : Source) : Prop where
  rejects : HasSyntaxErrors source → Rejected loadClass image call source
  compiles : ∀ definition : ClassDefinition, source = definition.tokens →
    call.Names image definition.name.text →
    ∃ result, ((call.run loadClass source).run image).result = .ok (some result)

/-- The superclass is there or can be loaded, where the call needs it. -/
def CompilerCall.LoadsSuper (loadClass : String → ClassM (Option ClassAddress)) (image : Image)
    (source : Source) : CompilerCall → Prop
  | .systemClass _ => True
  | _ => ∃ superClass loaded, (loadClass (parseSource source).classContext.superName).Runs
      (image.parsed source) (some superClass) loaded

/-! ### No source is rejected -/

/-- A class that is compiled is made behind the loads of its superclass, and the
dictionary has it. -/
theorem compile_class_outline {result : ClassAddress} {after : Image}
    (runs : (compile loadClass none source).Runs image result after) :
    (∃ superClass, (loadClass (parseSource source).classContext.superName).Runs
      (image.parsed source) (some superClass) (image.loadedFor loadClass source)) ∧
      result = (image.loadedFor loadClass source).classes.length + 1 ∧
      after.outline = (image.loadedFor loadClass source).outline.assemble
        (parseSource source).classContext.name := by
  obtain ⟨events, ran⟩ := runs
  rw [compile_class_run] at ran
  have ends := (@assemble_outline loadClass image.compilations.length (parseSource source)
    (image.parsed source) _ rfl fun _ _ => trivial).2 result
  rw [ran] at ends
  obtain ⟨superClass, loaded, loads, isLast, outline⟩ := ends rfl
  have same : image.loadedFor loadClass source = loaded := by
    obtain ⟨events, ran⟩ := loads
    exact congrArg Outcome.state ran
  exact ⟨⟨superClass, same ▸ loads⟩, same ▸ isLast, same ▸ outline⟩

/-- A system class keeps its name. -/
theorem compile_system_names {systemClass result : ClassAddress} {after : Image}
    (runs : (compile loadClass (some systemClass) source).Runs image result after) :
    result = systemClass ∧ after.outline.names = image.outline.names := by
  have keeps : ∀ outline, Triple (.any Empty Image) (fun image => image.outline = outline)
      (assembleSystemClass systemClass image.compilations.length (parseSource source))
      fun _ image => image.outline = outline := by
    intro outline
    apply Triple.demand fun instanceMethods _ => ?_
    apply Triple.bind _ (setInstanceInvokables_outline _ _).triple fun _ => ?_
    apply Triple.bind _ (setInstanceFields_outline _ _).triple fun _ => ?_
    apply Triple.bind _ ((readsOnly_readClass systemClass).triple _) fun clazz => ?_
    apply Triple.demand fun classMethods _ => ?_
    apply Triple.bind _ (setInstanceInvokables_outline _ _).triple fun _ => ?_
    exact (setInstanceFields_outline _ _).triple
  obtain ⟨events, ran⟩ := runs
  rw [compile_system_run] at ran
  obtain ⟨done, middle, early, late, assembles, ends, -⟩ := bind_eq_ok ran
  obtain ⟨isResult, isState, -⟩ := Outcome.mk.injEq .. ▸ ends
  have outline := (keeps _ (image.parsed source) rfl fun _ _ => trivial).2 done
  rw [assembles] at outline
  refine ⟨(Except.ok.inj isResult).symm, ?_⟩
  rw [← isState, outline rfl, parsed_names]

theorem readClass_of_runs {address : ClassAddress} {clazz : VMClass} {after : Image}
    (runs : (readClass address).Runs image clazz after) :
    after = image ∧ image.classes[address]? = some clazz := by
  obtain ⟨events, ran⟩ := runs
  rw [readClass, bind_of_silent (run_read image)] at ran
  cases found : image.classes[address]? with
  | none =>
      rw [found] at ran
      exact nomatch congrArg Outcome.result ran
  | some other =>
      rw [found, demand_some, run_pure, Outcome.mk.injEq] at ran
      exact ⟨ran.2.1.symm, congrArg some (Except.ok.inj ran.1)⟩

/-- Where the name is another one, the class that was made is a global all the same. -/
theorem never_rejected (call : CompilerCall) : ¬ Rejected loadClass image call source := by
  intro rejected
  have answer := rejected.answer
  have invisible := rejected.invisible
  cases outcome : (call.run loadClass source).run image with
  | mk result final events =>
  rw [outcome] at answer invisible
  obtain rfl : result = .ok none := answer
  cases call with
  | classString =>
      obtain ⟨result, after, early, late, -, ends, -⟩ := bind_eq_ok outcome
      exact nomatch congrArg Outcome.result ends
  | newClass file =>
      obtain ⟨result, after, early, late, compiles, rest, -⟩ := bind_eq_ok outcome
      obtain ⟨-, isLast, outline⟩ := compile_class_outline ⟨early, compiles⟩
      obtain ⟨clazz, same, early', late', reads, ends, -⟩ := bind_eq_ok rest
      obtain ⟨rfl, -⟩ := readClass_of_runs ⟨early', reads⟩
      dsimp only at ends
      split at ends
      · obtain rfl : same = final := congrArg Outcome.state ends
        have newest : same.getGlobal "NewClass" = some (.clazz result) := by
          have stored := Outline.assemble_newest (image.loadedFor loadClass source).outline
            (parseSource source).classContext.name
          rw [← outline, Image.length_names, ← isLast] at stored
          rw [Image.getGlobal, show same.globals = same.outline.globals from rfl, stored]
          rfl
        exact invisible _ _ newest (.clazz result (isLast ▸ Nat.le_succ _))
      · exact nomatch congrArg Outcome.result ends
  | systemClass address =>
      obtain ⟨clazz, after, early, late, reads, calls, -⟩ := bind_eq_ok outcome
      obtain ⟨rfl, found⟩ := readClass_of_runs ⟨early, reads⟩
      obtain ⟨result, middle, early', late', compiles, rest, -⟩ := bind_eq_ok calls
      obtain ⟨rfl, names⟩ := compile_system_names ⟨early', compiles⟩
      obtain ⟨clazz', same, early'', late'', reads', ends, -⟩ := bind_eq_ok rest
      obtain ⟨rfl, found'⟩ := readClass_of_runs ⟨early'', reads'⟩
      have sameName : clazz.name = clazz'.name := by
        have here := congrArg (fun names => names[result]?) names
        rw [Image.outline, Image.outline] at here
        simp only [List.getElem?_map, found, found', Option.map_some, Option.some.injEq] at here
        exact here.symm
      rw [if_neg (not_not_intro sameName)] at ends
      exact nomatch congrArg Outcome.result ends

/-! ### Class definitions compile -/

theorem parseSource_tokens (definition : ClassDefinition) :
    parseSource definition.tokens =
      ⟨definition.generate.objects, definition.generate.classContext⟩ := by
  rw [parseSource, Parser.parse_tokens]

variable {definition : ClassDefinition}

theorem compile_class_finishes {superClass : ClassAddress} {loaded : Image}
    (loads : (loadClass (parseSource definition.tokens).classContext.superName).Runs
      (image.parsed definition.tokens) (some superClass) loaded)
    (isClass : superClass < loaded.classes.length) :
    (compile loadClass none definition.tokens).Finishes image := by
  have sides := @invokables_definition definition image.compilations.length
  obtain ⟨classMethods, classSide⟩ := sides fun _ => .inr
  obtain ⟨instanceMethods, instanceSide⟩ := sides fun _ => .inl
  have same := parseSource_tokens definition
  obtain ⟨result, after, events, runs⟩ :
      (assemble loadClass image.compilations.length (parseSource definition.tokens)).Finishes
        (image.parsed definition.tokens) :=
    assemble_succeeds loads isClass (by rw [same]; exact classSide)
      (by rw [same]; exact instanceSide)
  exact ⟨result, after, events, compile_class_run.trans runs⟩

theorem compile_system_finishes {systemClass : ClassAddress}
    (isClass : systemClass < image.classes.length) :
    (compile loadClass (some systemClass) definition.tokens).Finishes image := by
  have sides := @invokables_definition definition image.compilations.length
  obtain ⟨classMethods, classSide⟩ := sides fun _ => .inr
  obtain ⟨instanceMethods, instanceSide⟩ := sides fun _ => .inl
  have inside : systemClass < (image.parsed definition.tokens).outline.names.length := by
    rw [parsed_names, Image.length_names]
    exact isClass
  have assembles : (assembleSystemClass systemClass image.compilations.length
      (parseSource definition.tokens)).Finishes (image.parsed definition.tokens) := by
    rw [parseSource_tokens]
    apply Succeeds.finishes
    have outlined := fun other (same : other = image.parsed definition.tokens) =>
      congrArg Image.outline same
    apply Succeeds.demand instanceSide
    apply Succeeds.bind _ ((setInstanceInvokables_outline _ _).weaken outlined
      fun _ _ ends => ends) fun _ => ?_
    apply Succeeds.bind _ (setInstanceFields_outline _ _) fun _ => ?_
    apply Succeeds.bind _ (readClass_outline systemClass inside) fun clazz => ?_
    apply Succeeds.assume fun _ => ?_
    apply Succeeds.demand classSide
    apply Succeeds.bind _ (setInstanceInvokables_outline _ _) fun _ => ?_
    exact (setInstanceFields_outline _ _).weaken (fun _ same => same) fun _ _ _ => trivial
  obtain ⟨_, after, runs⟩ := assembles
  have ends : (do
      assembleSystemClass systemClass image.compilations.length (parseSource definition.tokens)
      return systemClass : ClassM ClassAddress).Runs (image.parsed definition.tokens) systemClass
        after := runs.bind (runs_pure systemClass after)
  obtain ⟨events, ran⟩ := ends
  exact ⟨systemClass, after, events, (compile_system_run systemClass).trans ran⟩

/-- The check of the name passes where the class has the name of the file. -/
theorem compileClass_runs {systemClass : Option ClassAddress} {file : String}
    {result : ClassAddress} {after : Image}
    (compiles : (compile loadClass systemClass source).Runs image result after)
    (named : after.outline.names[result]? = some file) :
    (compileClass loadClass (fun _ => some source) file systemClass).Runs image (some result)
      after := by
  rw [Image.outline, List.getElem?_map, Option.map_eq_some_iff] at named
  obtain ⟨clazz, found, rfl⟩ := named
  have reads : (readClass result).run after = ⟨.ok clazz, after, []⟩ := by
    rw [readClass, bind_of_silent (run_read after), found]
    rfl
  have checks : (do
      let cname := (← readClass result).name
      if clazz.name ≠ cname then return none else return some result :
        ClassM (Option ClassAddress)).Runs after (some result) after := by
    refine ⟨[], ?_⟩
    rw [bind_of_silent reads]
    dsimp only
    rw [if_neg (not_not_intro rfl)]
    rfl
  exact compiles.bind checks

theorem parsed_mirrors (mirrors : Mirrors image) (source : Source) :
    Mirrors (image.parsed source) := by
  have stores := storeMethods_mirrors image.compilations.length 0 (parseSource source).objects
  have compiled : Mirrors
      { image with compilations := image.compilations ++ [parseSource source] } :=
    ⟨mirrors.mirrored, mirrors.globals⟩
  apply (stores _ compiled fun _ _ => trivial).2 ()
  rw [storeMethods_run]

theorem definition_compiles {path : ClassPath} {depth : Nat} (mirrors : Mirrors image)
    (call : CompilerCall)
    (isThere : ∀ address, call = .systemClass address → address < image.classes.length)
    (names : call.Names image definition.name.text)
    (loads : call.LoadsSuper (Classes.loadClass path depth) image definition.tokens) :
    ∃ result, ((call.run (Classes.loadClass path depth) definition.tokens).run image).result =
      .ok (some result) := by
  have finishes : (∃ superClass loaded, (Classes.loadClass path depth
      (parseSource definition.tokens).classContext.superName).Runs
        (image.parsed definition.tokens) (some superClass) loaded) →
      (compile (Classes.loadClass path depth) none definition.tokens).Finishes image := by
    rintro ⟨superClass, loaded, events, runs⟩
    have found := (mirrorsRules.loadClass path depth ()
      (parseSource definition.tokens).classContext.superName (image.parsed definition.tokens)
        (parsed_mirrors mirrors _) fun _ _ => trivial).2 (some superClass)
    rw [runs] at found
    have isClass : loaded.hierarchy.IsClass superClass := (found rfl).2 superClass rfl
    have below := isClass.lt
    rw [Image.hierarchy, List.length_map] at below
    exact compile_class_finishes ⟨events, runs⟩ below
  have answers : ∀ {result : ClassAddress} {after : Image},
      (call.run (Classes.loadClass path depth) definition.tokens).Runs image (some result) after →
      ∃ result, ((call.run (Classes.loadClass path depth) definition.tokens).run image).result =
        .ok (some result) := by
    rintro result after ⟨events, ran⟩
    exact ⟨result, congrArg Outcome.result ran⟩
  cases call with
  | classString =>
      obtain ⟨result, after, runs⟩ := finishes loads
      have ends : (CompilerCall.classString.run (Classes.loadClass path depth)
          definition.tokens).Runs image (some result) after :=
        Runs.bind runs (runs_pure (some result) after)
      exact answers ends
  | newClass file =>
      obtain ⟨result, after, runs⟩ := finishes loads
      obtain ⟨-, isLast, outline⟩ := compile_class_outline runs
      have named := Outline.assemble_name (image.loadedFor (Classes.loadClass path depth)
        definition.tokens).outline (parseSource definition.tokens).classContext.name
      rw [← outline, Image.length_names, ← isLast, parseSource_tokens, name_generate,
        show definition.name.text = file from names] at named
      exact answers (compileClass_runs runs named)
  | systemClass address =>
      have isClass := isThere address rfl
      obtain ⟨result, after, runs⟩ :
          (compile (Classes.loadClass path depth) (some address) definition.tokens).Finishes image :=
        compile_system_finishes isClass
      obtain ⟨rfl, kept⟩ := compile_system_names runs
      have found : image.classes[result]? = some image.classes[result] :=
        List.getElem?_eq_getElem isClass
      have reads : (readClass result).Runs image image.classes[result] image := by
        refine ⟨[], ?_⟩
        rw [readClass, bind_of_silent (run_read image), found]
        rfl
      have named : after.outline.names[result]? = some image.classes[result].name := by
        rw [kept, Image.outline, List.getElem?_map, found]
        rfl
      have compiles := compileClass_runs runs named
      have ends : ((CompilerCall.systemClass result).run (Classes.loadClass path depth)
          definition.tokens).Runs image (some result) after :=
        Runs.bind reads compiles
      exact answers ends

/-- A class is compiled only if its superclass has been loaded. -/
theorem loadsSuper_of_compiled {call : CompilerCall} {result : ClassAddress}
    (compiled : ((call.run loadClass source).run image).result = .ok (some result)) :
    call.LoadsSuper loadClass image source := by
  have loads : ∀ {result after}, (compile loadClass none source).Runs image result after →
      ∃ superClass loaded, (loadClass (parseSource source).classContext.superName).Runs
        (image.parsed source) (some superClass) loaded := by
    intro result after runs
    obtain ⟨⟨superClass, loads⟩, -⟩ := compile_class_outline runs
    exact ⟨superClass, _, loads⟩
  cases outcome : (call.run loadClass source).run image with
  | mk answer final events =>
  rw [outcome] at compiled
  obtain rfl : answer = .ok (some result) := compiled
  cases call with
  | classString =>
      obtain ⟨result, after, early, late, compiles, -⟩ := bind_eq_ok outcome
      exact loads ⟨early, compiles⟩
  | newClass file =>
      obtain ⟨result, after, early, late, compiles, -⟩ := bind_eq_ok outcome
      exact loads ⟨early, compiles⟩
  | systemClass address => trivial

/-- The compiler meets its contract on exactly the sources without syntax errors whose
superclass is loaded, where they are class definitions of the right name. -/
theorem handles_errors_iff {path : ClassPath} {depth : Nat} {image : Image}
    (mirrors : Mirrors image) (call : CompilerCall)
    (isThere : ∀ address, call = .systemClass address → address < image.classes.length)
    (source : Source) :
    HandlesErrors (Classes.loadClass path depth) image call source ↔
      ¬ HasSyntaxErrors source ∧ ∀ definition : ClassDefinition, source = definition.tokens →
        call.Names image definition.name.text →
          call.LoadsSuper (Classes.loadClass path depth) image source := by
  constructor
  · intro handles
    refine ⟨fun hasErrors => never_rejected call (handles.rejects hasErrors), ?_⟩
    intro definition same names
    obtain ⟨result, compiled⟩ := handles.compiles definition same names
    exact loadsSuper_of_compiled compiled
  · rintro ⟨noErrors, loads⟩
    refine ⟨fun hasErrors => absurd hasErrors noErrors, ?_⟩
    rintro definition rfl names
    exact definition_compiles mirrors call isThere names (loads definition rfl names)

end

/-! ### A return without an expression -/

/-- `Foo = ( run = ( ^ ) )`. -/
def returnNothing : Source :=
  [⟨.identifier, "Foo"⟩, ⟨.equal, "="⟩, ⟨.newTerm, "("⟩, ⟨.identifier, "run"⟩, ⟨.equal, "="⟩,
    ⟨.newTerm, "("⟩, ⟨.exit, "^"⟩, ⟨.endTerm, ")"⟩, ⟨.endTerm, ")"⟩]

/-- The image behind the bootstrap. -/
def startImage : Image := ((initializeImage emptyPath 2).run {}).state

theorem startImage_mirrors : Mirrors startImage :=
  mirrorsRules.reachable (.bootstrap 2 (by decide +kernel))

theorem returnNothing_accepted : ¬ ∀ (path : ClassPath) (depth : Nat) (image : Image),
    Mirrors image → ∀ source,
      HandlesErrors (loadClass path depth) image .classString source := by
  intro handles
  have rejects := (handles emptyPath 2 startImage startImage_mirrors returnNothing).rejects
  have rejected := rejects (show (Parser.parse returnNothing).events ≠ [] by decide +kernel)
  exact absurd rejected.answer (by decide +kernel)

theorem emptySource_handled :
    HandlesErrors (loadClass emptyPath 2) startImage .classString (emptySource "Foo") := by
  have loads : CompilerCall.classString.LoadsSuper (loadClass emptyPath 2) startImage
      (emptySource "Foo") := by
    have ends : ((loadClass emptyPath 2
        (parseSource (emptySource "Foo")).classContext.superName).run
          (startImage.parsed (emptySource "Foo"))).result = .ok (some 2) := by
      decide +kernel
    exact ⟨2, _, runs_of_result ends⟩
  apply (handles_errors_iff startImage_mirrors .classString nofun (emptySource "Foo")).mpr
  refine ⟨?_, fun _ _ _ => loads⟩
  exact not_not_intro (show (Parser.parse (emptySource "Foo")).events = [] by decide +kernel)

end Somr.Classes
