import Somr.Classes.LoadingRules

/-!
Owns the mirror between classes and metaclasses: the class of a class is a
metaclass, and the metaclasses are linked as their classes are, up to the
metaclass of the root, whose superclass is `Class`.

A hierarchy is what remains of an image when only the two links of every class are
kept. The bootstrap closes the circle between the classes by hand, which is
checked by evaluation; a load puts a class and its metaclass below it.
-/

namespace Somr.Classes

open Foundation Compiler Interpreter Process

/-! ### Hierarchies -/

/-- The class and the superclass of a class. -/
structure Link where
  clazz : ClassAddress
  superClass : Option ClassAddress := none
deriving DecidableEq, Repr

structure Hierarchy where
  links : List Link
  metaClassClass : ClassAddress
  objectClass : ClassAddress
  classClass : ClassAddress
deriving DecidableEq, Repr

namespace Hierarchy

def classOf (hierarchy : Hierarchy) (address : ClassAddress) : Option ClassAddress :=
  (hierarchy.links[address]?).map Link.clazz

def superClassOf (hierarchy : Hierarchy) (address : ClassAddress) : Option ClassAddress :=
  (hierarchy.links[address]?).bind Link.superClass

/-- A class that is not an instance of `Metaclass`. -/
def IsClass (hierarchy : Hierarchy) (address : ClassAddress) : Prop :=
  ∃ clazz, hierarchy.classOf address = some clazz ∧ clazz ≠ hierarchy.metaClassClass

/-- The class of a class. -/
def IsMetaclass (hierarchy : Hierarchy) (address : ClassAddress) : Prop :=
  ∃ clazz, hierarchy.IsClass clazz ∧ hierarchy.classOf clazz = some address

/-- The metaclasses are linked as the classes are. -/
structure Mirrored (hierarchy : Hierarchy) : Prop where
  classified : ∀ address < hierarchy.links.length,
    hierarchy.IsClass address ∨ hierarchy.IsMetaclass address
  metaclass : ∀ {address}, hierarchy.IsMetaclass address →
    hierarchy.classOf address = some hierarchy.metaClassClass
  superIsClass : ∀ {clazz superClass}, hierarchy.IsClass clazz →
    hierarchy.superClassOf clazz = some superClass → hierarchy.IsClass superClass
  superMetaclass : ∀ {clazz superClass metaclass}, hierarchy.IsClass clazz →
    hierarchy.superClassOf clazz = some superClass → hierarchy.classOf clazz = some metaclass →
    hierarchy.superClassOf metaclass = hierarchy.classOf superClass
  rootMetaclass : ∀ {metaclass}, hierarchy.classOf hierarchy.objectClass = some metaclass →
    hierarchy.superClassOf metaclass = some hierarchy.classClass
  metaClassIsClass : hierarchy.IsClass hierarchy.metaClassClass
  classIsClass : hierarchy.IsClass hierarchy.classClass
  classBelowRoot : hierarchy.superClassOf hierarchy.classClass = some hierarchy.objectClass
  rootIsTop : hierarchy.superClassOf hierarchy.objectClass = none
  onlyRoot : ∀ {clazz}, hierarchy.IsClass clazz → hierarchy.superClassOf clazz = none →
    clazz = hierarchy.objectClass
  ancestors : ∀ {clazz}, hierarchy.IsClass clazz →
    ∃ ancestors, Chain hierarchy.superClassOf clazz ancestors

/-- The hierarchy with a class below another one, and with its metaclass. -/
def subclass (hierarchy : Hierarchy) (superClass superMClass : ClassAddress) : Hierarchy :=
  { hierarchy with
    links := hierarchy.links ++
      [⟨hierarchy.metaClassClass, some superMClass⟩, ⟨hierarchy.links.length, some superClass⟩] }

section

variable {hierarchy : Hierarchy} {superClass superMClass address : ClassAddress}

theorem IsClass.lt (isClass : hierarchy.IsClass address) : address < hierarchy.links.length := by
  obtain ⟨clazz, found, -⟩ := isClass
  rw [classOf, Option.map_eq_some_iff] at found
  obtain ⟨link, there, -⟩ := found
  exact (List.getElem?_eq_some_iff.mp there).1

theorem links_subclass_lt (below : address < hierarchy.links.length) :
    (hierarchy.subclass superClass superMClass).links[address]? = hierarchy.links[address]? :=
  List.getElem?_append_left below

theorem classOf_subclass_lt (below : address < hierarchy.links.length) :
    (hierarchy.subclass superClass superMClass).classOf address = hierarchy.classOf address := by
  rw [classOf, classOf, links_subclass_lt below]

theorem superClassOf_subclass_lt (below : address < hierarchy.links.length) :
    (hierarchy.subclass superClass superMClass).superClassOf address =
      hierarchy.superClassOf address := by
  rw [superClassOf, superClassOf, links_subclass_lt below]

/-- The addresses of a hierarchy with one more class. -/
theorem cases_subclass (below : address < (hierarchy.subclass superClass superMClass).links.length) :
    address < hierarchy.links.length ∨ address = hierarchy.links.length ∨
      address = hierarchy.links.length + 1 := by
  have length : (hierarchy.subclass superClass superMClass).links.length =
      hierarchy.links.length + 2 := List.length_append
  have bound : address < hierarchy.links.length + 2 := length ▸ below
  exact (Nat.lt_or_ge address hierarchy.links.length).imp_right fun above => by grind

theorem links_subclass_metaclass :
    (hierarchy.subclass superClass superMClass).links[hierarchy.links.length]? =
      some ⟨hierarchy.metaClassClass, some superMClass⟩ := by
  rw [subclass]
  simp

theorem links_subclass_class :
    (hierarchy.subclass superClass superMClass).links[hierarchy.links.length + 1]? =
      some ⟨hierarchy.links.length, some superClass⟩ := by
  rw [subclass, List.getElem?_append_right (Nat.le_succ _)]
  simp

theorem IsClass.subclass (isClass : hierarchy.IsClass address) :
    (hierarchy.subclass superClass superMClass).IsClass address := by
  obtain ⟨clazz, found, other⟩ := isClass
  exact ⟨clazz, (classOf_subclass_lt (IsClass.lt ⟨clazz, found, other⟩)).trans found, other⟩

/-- A class of the larger hierarchy is the new one or one there was. -/
theorem IsClass.of_subclass (isClass : (hierarchy.subclass superClass superMClass).IsClass address) :
    hierarchy.IsClass address ∨ address = hierarchy.links.length + 1 := by
  obtain ⟨clazz, found, other⟩ := isClass
  rcases cases_subclass (IsClass.lt ⟨clazz, found, other⟩) with below | rfl | rfl
  · rw [classOf_subclass_lt below] at found
    exact .inl ⟨clazz, found, other⟩
  · rw [classOf, links_subclass_metaclass] at found
    exact absurd (Option.some.inj found).symm other
  · exact .inr rfl

namespace Mirrored

variable (mirrored : hierarchy.Mirrored)

include mirrored

/-- The new class is a class. -/
theorem isClass_subclass :
    (hierarchy.subclass superClass superMClass).IsClass (hierarchy.links.length + 1) := by
  refine ⟨hierarchy.links.length, ?_, ?_⟩
  · rw [classOf, links_subclass_class]
    rfl
  · exact (Nat.ne_of_lt mirrored.metaClassIsClass.lt).symm

/-- The classes of the ancestors of a class are metaclasses there are. -/
theorem classOf_lt {clazz metaclass : ClassAddress} (isClass : hierarchy.IsClass clazz)
    (found : hierarchy.classOf clazz = some metaclass) : metaclass < hierarchy.links.length := by
  have ofMetaclass := mirrored.metaclass ⟨clazz, isClass, found⟩
  rw [classOf, Option.map_eq_some_iff] at ofMetaclass
  obtain ⟨link, there, -⟩ := ofMetaclass
  exact (List.getElem?_eq_some_iff.mp there).1

/-- A load keeps the mirror. -/
theorem subclass (isClass : hierarchy.IsClass superClass)
    (isMetaclass : hierarchy.classOf superClass = some superMClass) :
    (hierarchy.subclass superClass superMClass).Mirrored where
  classified := by
    intro address below
    rcases cases_subclass below with below | rfl | rfl
    · refine (mirrored.classified address below).imp IsClass.subclass ?_
      rintro ⟨clazz, isClass, found⟩
      exact ⟨clazz, isClass.subclass, (classOf_subclass_lt isClass.lt).trans found⟩
    · refine .inr ⟨_, mirrored.isClass_subclass, ?_⟩
      rw [classOf, links_subclass_class]
      rfl
    · exact .inl mirrored.isClass_subclass
  metaclass := by
    rintro address ⟨clazz, isClass, found⟩
    rcases isClass.of_subclass with isOld | rfl
    · rw [classOf_subclass_lt isOld.lt] at found
      rw [classOf_subclass_lt (mirrored.classOf_lt isOld found)]
      exact mirrored.metaclass ⟨clazz, isOld, found⟩
    · rw [classOf, links_subclass_class] at found
      obtain rfl := Option.some.inj found
      rw [classOf, links_subclass_metaclass]
      rfl
  superIsClass := by
    intro clazz other isClass' found
    rcases isClass'.of_subclass with isOld | rfl
    · rw [superClassOf_subclass_lt isOld.lt] at found
      exact (mirrored.superIsClass isOld found).subclass
    · rw [superClassOf, links_subclass_class] at found
      obtain rfl := Option.some.inj found
      exact isClass.subclass
  superMetaclass := by
    intro clazz other metaclass isClass' found isClassOf
    rcases isClass'.of_subclass with isOld | rfl
    · rw [superClassOf_subclass_lt isOld.lt] at found
      rw [classOf_subclass_lt isOld.lt] at isClassOf
      rw [superClassOf_subclass_lt (mirrored.classOf_lt isOld isClassOf),
        classOf_subclass_lt (mirrored.superIsClass isOld found).lt]
      exact mirrored.superMetaclass isOld found isClassOf
    · rw [superClassOf, links_subclass_class] at found
      rw [classOf, links_subclass_class] at isClassOf
      obtain rfl := Option.some.inj found
      obtain rfl := Option.some.inj isClassOf
      rw [superClassOf, links_subclass_metaclass, classOf_subclass_lt isClass.lt, isMetaclass]
      rfl
  rootMetaclass := by
    intro metaclass found
    have isRoot := mirrored.superIsClass mirrored.classIsClass mirrored.classBelowRoot
    change (hierarchy.subclass superClass superMClass).classOf hierarchy.objectClass = _ at found
    rw [classOf_subclass_lt isRoot.lt] at found
    rw [superClassOf_subclass_lt (mirrored.classOf_lt isRoot found)]
    exact mirrored.rootMetaclass found
  metaClassIsClass := mirrored.metaClassIsClass.subclass
  classIsClass := mirrored.classIsClass.subclass
  classBelowRoot := (superClassOf_subclass_lt mirrored.classIsClass.lt).trans mirrored.classBelowRoot
  rootIsTop := by
    have isRoot := mirrored.superIsClass mirrored.classIsClass mirrored.classBelowRoot
    exact (superClassOf_subclass_lt isRoot.lt).trans mirrored.rootIsTop
  onlyRoot := by
    intro clazz isClass' noSuper
    rcases isClass'.of_subclass with isOld | rfl
    · rw [superClassOf_subclass_lt isOld.lt] at noSuper
      exact mirrored.onlyRoot isOld noSuper
    · rw [superClassOf, links_subclass_class] at noSuper
      exact nomatch noSuper
  ancestors := by
    have old : ∀ {clazz}, hierarchy.IsClass clazz →
        ∃ ancestors, Chain (hierarchy.subclass superClass superMClass).superClassOf clazz ancestors
        := by
      intro clazz isClass'
      obtain ⟨ancestors, chain⟩ := mirrored.ancestors isClass'
      have classes := chain.forall_mem isClass' mirrored.superIsClass
      exact ⟨ancestors, chain.of_agree fun other member =>
        superClassOf_subclass_lt (classes other member).lt⟩
    intro clazz isClass'
    rcases isClass'.of_subclass with isOld | rfl
    · exact old isOld
    · obtain ⟨ancestors, chain⟩ := old isClass
      refine ⟨_, .up ?_ chain⟩
      rw [superClassOf, links_subclass_class]
      rfl

/-! ### Ancestors of metaclasses -/

/-- The chain of `Class`. -/
theorem classClass_chain :
    Chain hierarchy.superClassOf hierarchy.classClass
      [hierarchy.classClass, hierarchy.objectClass] :=
  .up mirrored.classBelowRoot (.root mirrored.rootIsTop)

end Mirrored

/-- The class of a class, where there is one. -/
def metaclassOf (hierarchy : Hierarchy) (clazz : ClassAddress) : ClassAddress :=
  (hierarchy.classOf clazz).getD hierarchy.metaClassClass

theorem IsClass.classOf_eq (isClass : hierarchy.IsClass address) :
    hierarchy.classOf address = some (hierarchy.metaclassOf address) := by
  obtain ⟨clazz, found, -⟩ := isClass
  rw [metaclassOf, found]
  rfl

namespace Mirrored

variable (mirrored : hierarchy.Mirrored)

include mirrored

/-- A metaclass has the metaclasses of the ancestors of its class above it, and then
`Class` and `Object`. -/
theorem metaclass_chain {clazz : ClassAddress} {ancestors : List ClassAddress}
    (isClass : hierarchy.IsClass clazz)
    (chain : Chain hierarchy.superClassOf clazz ancestors) :
    Chain hierarchy.superClassOf (hierarchy.metaclassOf clazz)
      (ancestors.map hierarchy.metaclassOf ++ [hierarchy.classClass, hierarchy.objectClass]) := by
  have classes := chain.forall_mem isClass mirrored.superIsClass
  apply chain.map
  · intro other member above found
    have isClass := classes other member
    rw [mirrored.superMetaclass isClass found isClass.classOf_eq]
    exact (mirrored.superIsClass isClass found).classOf_eq
  · intro root member noSuper
    have isClass := classes root member
    obtain rfl := mirrored.onlyRoot isClass noSuper
    exact .up (mirrored.rootMetaclass isClass.classOf_eq) mirrored.classClass_chain

theorem superClassOf_lt {superClass : ClassAddress} (below : address < hierarchy.links.length)
    (found : hierarchy.superClassOf address = some superClass) :
    superClass < hierarchy.links.length := by
  rcases mirrored.classified address below with isClass | ⟨clazz, isClass, isMetaclass⟩
  · exact (mirrored.superIsClass isClass found).lt
  · cases above : hierarchy.superClassOf clazz with
    | none =>
        obtain rfl := mirrored.onlyRoot isClass above
        rw [mirrored.rootMetaclass isMetaclass] at found
        exact Option.some.inj found ▸ mirrored.classIsClass.lt
    | some superClass =>
        rw [mirrored.superMetaclass isClass above isMetaclass] at found
        exact mirrored.classOf_lt (mirrored.superIsClass isClass above) found

/-- Every class and every metaclass has a chain. -/
theorem exists_chain (below : address < hierarchy.links.length) :
    ∃ nodes, Chain hierarchy.superClassOf address nodes := by
  rcases mirrored.classified address below with isClass | ⟨clazz, isClass, found⟩
  · exact mirrored.ancestors isClass
  · obtain ⟨ancestors, chain⟩ := mirrored.ancestors isClass
    have above := mirrored.metaclass_chain isClass chain
    rw [metaclassOf, found] at above
    exact ⟨_, above⟩

theorem acyclic (address : ClassAddress) :
    ¬ Relation.TransGen (IsParent hierarchy.superClassOf) address address := by
  by_cases below : address < hierarchy.links.length
  · obtain ⟨nodes, chain⟩ := mirrored.exists_chain below
    exact chain.acyclic
  · have noSuper : hierarchy.superClassOf address = none := by
      rw [superClassOf, List.getElem?_eq_none (Nat.le_of_not_lt below)]
      rfl
    exact (Chain.root noSuper).acyclic

end Mirrored
end
end Hierarchy

/-! ### Images -/

def VMClass.link (clazz : VMClass) : Link := ⟨clazz.clazz, clazz.superClass⟩

def Image.hierarchy (image : Image) : Hierarchy :=
  ⟨image.classes.map VMClass.link, image.metaClassClass, image.objectClass, image.classClass⟩

theorem Image.superClassOf_hierarchy (image : Image) :
    image.hierarchy.superClassOf = image.superClassOf := by
  funext address
  rw [Hierarchy.superClassOf, Image.superClassOf, hierarchy, List.getElem?_map, Option.bind_map]
  rfl

/-- The hierarchy is mirrored and every class that is a global is no metaclass. -/
structure Mirrors (image : Image) : Prop where
  mirrored : image.hierarchy.Mirrored
  globals : ∀ {name address}, image.getGlobal name = some (.clazz address) →
    image.hierarchy.IsClass address

/-- What is known of a class that was found. -/
def KnownClass (image : Image) (address : ClassAddress) : Prop := image.hierarchy.IsClass address

/-! ### Steps of a load -/

/-- During the load of a class the image has these links, and the class made last is a
global. -/
structure Stage (image : Image) (links : List Link) (latest : Option ClassAddress)
    (other : Image) : Prop where
  hierarchy : other.hierarchy = { image.hierarchy with links := links }
  globals : ∀ {name address}, other.getGlobal name = some (.clazz address) →
    image.getGlobal name = some (.clazz address) ∨ name = "NewClass" ∧ latest = some address

variable {image : Image} {links : List Link} {latest : Option ClassAddress}

theorem Stage.start {other : Image} (same : other = image) :
    Stage image image.hierarchy.links none other := by
  subst same
  exact ⟨rfl, .inl⟩

/-- Classes stay classes where the hierarchy grows at its end. -/
theorem known_of_links {before after : Image} (roots : after.metaClassClass = before.metaClassClass)
    (grows : ∀ address clazz, before.hierarchy.classOf address = some clazz →
      after.hierarchy.classOf address = some clazz) :
    (keepsKnown KnownClass).holds before [] after := by
  rintro address ⟨clazz, found, other⟩
  refine ⟨clazz, grows address clazz found, ?_⟩
  rw [show after.hierarchy.metaClassClass = before.hierarchy.metaClassClass from roots]
  exact other

theorem getGlobal_assign (image : Image) (name other : String) (val : Option Global) :
    Image.getGlobal { image with
      globals := assign (fun a b => a == b) name val image.globals } other =
        if other == name then val else image.getGlobal other := by
  rw [Image.getGlobal, valueOf_beq_assign]
  split <;> rfl

theorem changeClass_hierarchy (address : ClassAddress) (change : VMClass → VMClass)
    (changeLink : Link → Link) (same : ∀ clazz, (change clazz).link = changeLink clazz.link) :
    Image.hierarchy { image with classes := image.classes.modify address change } =
      { image.hierarchy with links := image.hierarchy.links.modify address changeLink } := by
  have links : (image.classes.modify address change).map VMClass.link =
      (image.classes.map VMClass.link).modify address changeLink := by
    apply List.ext_getElem?
    intro index
    rw [List.getElem?_map, List.getElem?_modify, List.getElem?_modify, List.getElem?_map]
    cases image.classes[index]? with
    | none => rfl
    | some clazz =>
        by_cases here : address = index
        · simp [here, same]
        · simp [here]
  rw [Image.hierarchy, Image.hierarchy]
  simp only [links]

/-- A change of a class that leaves its class alone. -/
theorem changeClass_stage (address : ClassAddress) (change : VMClass → VMClass)
    (changeLink : Link → Link) (same : ∀ clazz, (change clazz).link = changeLink clazz.link)
    (keepsClass : ∀ link, (changeLink link).clazz = link.clazz) :
    Triple (keepsKnown KnownClass) (Stage image links latest) (changeClass address change)
      fun _ => Stage image (links.modify address changeLink) latest := by
  refine triple_modify (fun other stage => ?_) fun other stage => ⟨?_, stage.globals⟩
  · refine known_of_links ?_ fun index clazz found => ?_
    · rfl
    rw [changeClass_hierarchy address change changeLink same, Hierarchy.classOf]
    rw [Hierarchy.classOf, Option.map_eq_some_iff] at found
    obtain ⟨link, there, rfl⟩ := found
    rw [List.getElem?_modify, there]
    by_cases here : address = index
    · simp [here, keepsClass]
    · simp [here]
  · rw [changeClass_hierarchy address change changeLink same, stage.hierarchy]

/-- A change of the class made last. -/
theorem modify_last (links : List Link) (link : Link) (change : Link → Link) :
    (links ++ [link]).modify links.length change = links ++ [change link] := by
  induction links with
  | nil => rfl
  | cons first links inductionHypothesis =>
      rw [List.cons_append, List.length_cons, List.modify_succ_cons, inductionHypothesis]
      rfl

theorem modify_id_links (links : List Link) (address : ClassAddress) :
    links.modify address id = links := by
  apply List.ext_getElem?
  intro index
  rw [List.getElem?_modify]
  cases links[index]? <;> simp

/-- A change of a class that leaves its links alone. -/
theorem changeData_stage (address : ClassAddress) (change : VMClass → VMClass)
    (same : ∀ clazz, (change clazz).link = clazz.link) :
    Triple (keepsKnown KnownClass) (Stage image links latest) (changeClass address change)
      fun _ => Stage image links latest := by
  have changed : Triple (keepsKnown KnownClass) (Stage image links latest)
      (changeClass address change) fun _ => Stage image (links.modify address id) latest :=
    changeClass_stage address change id same fun _ => rfl
  rwa [modify_id_links] at changed

theorem setInstanceFields_stage (address : ClassAddress) (fields : List String) :
    Triple (keepsKnown KnownClass) (Stage image links latest) (setInstanceFields address fields)
      fun _ => Stage image links latest :=
  changeData_stage address (fun clazz => { clazz with instanceFields := fields }) fun _ => rfl

theorem setName_stage (address : ClassAddress) (name : String) :
    Triple (keepsKnown KnownClass) (Stage image links latest) (setName address name)
      fun _ => Stage image links latest :=
  changeData_stage address (fun clazz => { clazz with name := name }) fun _ => rfl

theorem setSuperClass_stage (address superClass : ClassAddress) :
    Triple (keepsKnown KnownClass) (Stage image links latest) (setSuperClass address superClass)
      fun _ => Stage image
        (links.modify address fun link => { link with superClass := some superClass }) latest :=
  changeClass_stage address (fun clazz => { clazz with superClass := some superClass }) _
    (fun _ => rfl) fun _ => rfl

theorem setHolder_stage (holder : ClassAddress) (invokable : InvokableAddress) :
    Triple (keepsKnown KnownClass) (Stage image links latest) (setHolder holder invokable)
      fun _ => Stage image links latest :=
  triple_modify (fun _ _ _ known => known) fun _ stage => ⟨stage.hierarchy, stage.globals⟩

theorem setInstanceInvokables_stage (address : ClassAddress) (invokables : List InvokableAddress) :
    Triple (keepsKnown KnownClass) (Stage image links latest)
      (setInstanceInvokables address invokables) fun _ => Stage image links latest := by
  have attached : Triple (keepsKnown KnownClass) (Stage image links latest)
      (changeClass address fun clazz => { clazz with instanceInvokables := invokables })
      fun _ => Stage image links latest :=
    changeData_stage address _ fun _ => rfl
  apply Triple.bind _ attached fun _ => ?_
  clear attached
  induction invokables with
  | nil => exact triple_pure fun _ stage => stage
  | cons invokable others inductionHypothesis =>
      exact Triple.bind _ (setHolder_stage address invokable) fun _ => inductionHypothesis

theorem newClass_stage (classOfClass : ClassAddress) :
    Triple (keepsKnown KnownClass) (Stage image links latest) (newClass classOfClass)
      fun result other => result = links.length ∧
        Stage image (links ++ [⟨classOfClass, none⟩]) (some links.length) other := by
  apply Triple.of_states fun before stage => ?_
  apply Triple.read
  have length : before.classes.length = links.length := by
    have lengths := congrArg List.length (congrArg Hierarchy.links stage.hierarchy)
    rwa [Image.hierarchy, List.length_map] at lengths
  have allocates : Triple (keepsKnown KnownClass) (fun other => other = before)
      (Process.modify fun image =>
        { image with classes := image.classes ++ [{ clazz := classOfClass }] } : ClassM Unit)
      fun _ other => other = { before with
        classes := before.classes ++ [{ clazz := classOfClass }] } := by
    refine triple_modify ?_ fun _ same => same ▸ rfl
    rintro _ rfl
    refine known_of_links ?_ fun index clazz found => ?_
    · rfl
    rw [Hierarchy.classOf, Option.map_eq_some_iff] at found ⊢
    obtain ⟨link, there, rfl⟩ := found
    refine ⟨link, ?_, rfl⟩
    rw [Image.hierarchy, List.map_append]
    rw [Image.hierarchy] at there
    exact (List.getElem?_append_left (List.getElem?_eq_some_iff.mp there).1).trans there
  apply Triple.bind _ allocates fun _ => ?_
  apply Triple.bind (fun _ other => Stage image (links ++ [⟨classOfClass, none⟩])
    (some links.length) other) ?_ fun _ => triple_pure fun _ stage => ⟨length, stage⟩
  refine triple_modify (fun _ _ _ known => known) ?_
  rintro _ rfl
  constructor
  · have same := stage.hierarchy
    rw [Image.hierarchy] at same ⊢
    simp only [List.map_append]
    rw [Hierarchy.mk.injEq] at same
    rw [same.1, same.2.1, same.2.2.1, same.2.2.2]
    rfl
  · intro name address found
    rw [getGlobal_assign] at found
    split at found
    · next isNew =>
        refine .inr ⟨eq_of_beq isNew, ?_⟩
        rw [← length]
        exact congrArg some (Global.clazz.inj (Option.some.inj found))
    · next other =>
        rcases stage.globals (show before.getGlobal name = _ from found) with isOld | ⟨isNew, -⟩
        · exact .inl isOld
        · exact absurd (beq_iff_eq.mpr isNew) (by simpa using other)

theorem readClass_stage (address : ClassAddress) :
    Triple (keepsKnown KnownClass) (Stage image links latest) (readClass address)
      fun clazz other => links[address]? = some clazz.link ∧ Stage image links latest other := by
  apply Triple.of_states fun before stage => ?_
  apply Triple.read
  refine (triple_demand Halt.undefined _).weaken (fun _ same => same) ?_
  rintro clazz other ⟨found, same⟩
  subst same
  refine ⟨?_, stage⟩
  have same : other.classes.map VMClass.link = links :=
    congrArg Hierarchy.links stage.hierarchy
  rw [← same, List.getElem?_map, found]
  rfl

/-- The image once a class and its metaclass have been linked below a class. -/
theorem Stage.finish (mirrors : Mirrors image) {superClass superMClass : ClassAddress}
    (isClass : image.hierarchy.IsClass superClass)
    (isMetaclass : image.hierarchy.classOf superClass = some superMClass) {other : Image}
    (stage : Stage image (image.hierarchy.subclass superClass superMClass).links
      (some (image.hierarchy.links.length + 1)) other) :
    Mirrors other ∧ KnownClass other (image.hierarchy.links.length + 1) := by
  have hierarchy : other.hierarchy = image.hierarchy.subclass superClass superMClass :=
    stage.hierarchy
  have isNew : other.hierarchy.IsClass (image.hierarchy.links.length + 1) := by
    rw [hierarchy]
    exact mirrors.mirrored.isClass_subclass
  refine ⟨⟨?_, fun found => ?_⟩, isNew⟩
  · rw [hierarchy]
    exact mirrors.mirrored.subclass isClass isMetaclass
  · rcases stage.globals found with isOld | ⟨-, same⟩
    · rw [hierarchy]
      exact (mirrors.globals isOld).subclass
    · exact Option.some.inj same ▸ isNew

theorem assemble_mirrors {loadClass : String → ClassM (Option ClassAddress)}
    (loads : Loads Mirrors KnownClass loadClass) (compilation : Nat) (source : Compilation) :
    Triple (keepsKnown KnownClass) Mirrors (assemble loadClass compilation source)
      fun result image => Mirrors image ∧ KnownClass image result := by
  apply Triple.bind _ (loads source.classContext.superName) fun found => ?_
  apply Triple.of_states fun image holds => ?_
  obtain ⟨mirrors, known⟩ := holds
  apply Triple.read
  have metaclass : Triple (keepsKnown KnownClass) (fun other => other = image)
      (newClass image.metaClassClass) fun result other => result = image.hierarchy.links.length ∧
        Stage image (image.hierarchy.links ++ [⟨image.metaClassClass, none⟩])
          (some image.hierarchy.links.length) other :=
    (newClass_stage image.metaClassClass).weaken (fun _ same => Stage.start same)
      fun _ _ ends => ends
  apply Triple.bind _ metaclass fun resultClass => ?_
  apply Triple.assume fun isNext => ?_
  subst isNext
  apply Triple.bind _ (setInstanceFields_stage _ _) fun _ => ?_
  apply Triple.demand fun classMethods _ => ?_
  apply Triple.bind _ (setInstanceInvokables_stage _ _) fun _ => ?_
  apply Triple.bind _ (setName_stage _ _) fun _ => ?_
  apply Triple.demand fun superClass isFound => ?_
  have isClass : image.hierarchy.IsClass superClass := known superClass isFound
  apply Triple.bind _ (readClass_stage superClass) fun clazz => ?_
  apply Triple.assume fun isSuper => ?_
  have isMetaclass : image.hierarchy.classOf superClass = some clazz.clazz := by
    rw [List.getElem?_append_left isClass.lt] at isSuper
    rw [Hierarchy.classOf, isSuper]
    rfl
  apply Triple.bind _ (setSuperClass_stage _ _) fun _ => ?_
  apply Triple.bind _ (newClass_stage _) fun result => ?_
  apply Triple.assume fun isNext => ?_
  subst isNext
  apply Triple.bind _ (setInstanceFields_stage _ _) fun _ => ?_
  apply Triple.demand fun instanceMethods _ => ?_
  apply Triple.bind _ (setInstanceInvokables_stage _ _) fun _ => ?_
  apply Triple.bind _ (setName_stage _ _) fun _ => ?_
  apply Triple.bind _ (setSuperClass_stage _ _) fun _ => ?_
  refine triple_pure fun other stage => ?_
  rw [modify_last] at stage ⊢
  rw [modify_last, List.append_assoc, List.length_append] at stage
  rw [List.length_append]
  exact Stage.finish mirrors isClass isMetaclass stage

/-! ### Every load -/

theorem setGlobal_mirrors (name : String) (val : Option Global) :
    Triple (keepsKnown KnownClass)
      (fun image => Mirrors image ∧ ∀ address, val = some (.clazz address) → KnownClass image address)
      (setGlobal name val) fun _ => Mirrors := by
  refine triple_modify (fun _ _ _ known => known) ?_
  rintro image ⟨mirrors, known⟩
  refine ⟨mirrors.mirrored, fun {other address} found => ?_⟩
  rw [getGlobal_assign] at found
  split at found
  · exact known address found
  · exact mirrors.globals (show image.getGlobal other = _ from found)

/-- Methods stored under their signatures are no classes. -/
theorem storeMethods_mirrors (compilation address : Nat) (objects : List CompiledObject) :
    Triple (keepsKnown KnownClass) Mirrors (storeMethods compilation address objects)
      fun _ => Mirrors := by
  induction objects generalizing address with
  | nil => exact triple_pure fun _ holds => holds
  | cons object objects inductionHypothesis =>
      cases object with
      | method method =>
          have stores : Triple (keepsKnown KnownClass) Mirrors (setGlobal method.signature
              (some (.invokable (.code (.compiled compilation address))))) fun _ => Mirrors :=
            (setGlobal_mirrors _ _).weaken
              (fun image holds => ⟨holds, fun other same => nomatch same⟩) fun _ _ ends => ends
          exact Triple.bind _ stores fun _ => inductionHypothesis (address + 1)
      | integer value => exact inductionHypothesis (address + 1)
      | string chars => exact inductionHypothesis (address + 1)
      | primitive signature => exact inductionHypothesis (address + 1)

/-- What leaves links and globals alone. -/
theorem mirrors_of_stage {Value : Type} {process : ClassM Value}
    (keeps : ∀ image, Triple (keepsKnown KnownClass) (Stage image image.hierarchy.links none) process
      fun _ => Stage image image.hierarchy.links none) :
    Triple (keepsKnown KnownClass) Mirrors process fun _ => Mirrors := by
  apply Triple.of_states fun image mirrors => ?_
  refine (keeps image).weaken (fun _ same => Stage.start same) fun _ other stage => ?_
  refine ⟨?_, fun found => ?_⟩
  · rw [stage.hierarchy]
    exact mirrors.mirrored
  · rw [stage.hierarchy]
    exact mirrors.globals ((stage.globals found).resolve_right fun absent => nomatch absent.2)

theorem assembleSystemClass_mirrors (systemClass : ClassAddress) (compilation : Nat)
    (source : Compilation) :
    Triple (keepsKnown KnownClass) Mirrors (assembleSystemClass systemClass compilation source)
      fun _ => Mirrors := by
  apply mirrors_of_stage fun image => ?_
  apply Triple.demand fun instanceMethods _ => ?_
  apply Triple.bind _ (setInstanceInvokables_stage _ _) fun _ => ?_
  apply Triple.bind _ (setInstanceFields_stage _ _) fun _ => ?_
  apply Triple.bind _ ((readsOnly_readClass systemClass).keeps _) fun clazz => ?_
  apply Triple.demand fun classMethods _ => ?_
  apply Triple.bind _ (setInstanceInvokables_stage _ _) fun _ => ?_
  exact setInstanceFields_stage _ _

theorem compile_mirrors {loadClass : String → ClassM (Option ClassAddress)}
    (loads : Loads Mirrors KnownClass loadClass) (systemClass : Option ClassAddress)
    (source : Source) : Triple (keepsKnown KnownClass) Mirrors
      (compile loadClass systemClass source) fun result image => Mirrors image ∧
        (systemClass = none → KnownClass image result) := by
  have compilations : Triple (keepsKnown KnownClass) Mirrors
      (Process.modify fun image =>
        { image with compilations := image.compilations ++ [parseSource source] } : ClassM Unit)
      fun _ => Mirrors :=
    triple_modify (fun _ _ _ known => known) fun _ holds => ⟨holds.mirrored, holds.globals⟩
  have reads : ReadsOnly (Process.read : ClassM Image) := fun _ => rfl
  apply Triple.bind _ (reads.keeps Mirrors) fun image => ?_
  apply Triple.bind _ compilations fun _ => ?_
  apply Triple.bind _ (storeMethods_mirrors _ _ _) fun _ => ?_
  cases systemClass with
  | none =>
      exact (assemble_mirrors loads _ _).weaken (fun _ holds => holds)
        fun _ _ ends => ⟨ends.1, fun _ => ends.2⟩
  | some systemClass =>
      apply Triple.bind _ (assembleSystemClass_mirrors systemClass _ _) fun _ => ?_
      exact triple_pure fun _ holds => ⟨holds, fun absent => nomatch absent⟩

/-- An evaluation primitive is added to a class without touching its links. -/
theorem addInstanceInvokable_stage (address : ClassAddress) (newInvokable : InvokableAddress) :
    Triple (keepsKnown KnownClass) (Stage image links latest)
      (addInstanceInvokable address newInvokable) fun _ => Stage image links latest := by
  have reads : ReadsOnly (Process.read : ClassM Image) := fun _ => rfl
  apply Triple.bind _ (reads.keeps _) fun before => ?_
  apply Triple.bind _ ((readsOnly_readClass address).keeps _) fun clazz => ?_
  split
  · next index _ =>
      have replaced : Triple (keepsKnown KnownClass) (Stage image links latest)
          (changeClass address fun clazz => { clazz with
            instanceInvokables := clazz.instanceInvokables.set index newInvokable })
          fun _ => Stage image links latest :=
        changeData_stage address _ fun _ => rfl
      have attached : Triple (keepsKnown KnownClass) (Stage image links latest)
          (setInstanceInvokable address index newInvokable) fun _ => Stage image links latest :=
        Triple.bind _ replaced fun _ => setHolder_stage address newInvokable
      exact Triple.bind _ attached fun _ => triple_pure fun _ stage => stage
  · have added : Triple (keepsKnown KnownClass) (Stage image links latest)
        (changeClass address fun clazz => { clazz with
          instanceInvokables := clazz.instanceInvokables ++ [newInvokable] })
        fun _ => Stage image links latest :=
      changeData_stage address _ fun _ => rfl
    exact Triple.bind _ added fun _ => triple_pure fun _ stage => stage

/-! ### The bootstrap -/

/-- The links of the classes before any source is read. -/
def systemHierarchy : Hierarchy := (newSystemClasses.run {}).state.hierarchy

/-- The ancestors of a class, within this many steps. -/
def ancestorsWithin (hierarchy : Hierarchy) : (rounds : Nat) → ClassAddress →
    Option (List ClassAddress)
  | 0, _ => none
  | rounds + 1, address =>
      match hierarchy.superClassOf address with
      | none => some [address]
      | some superClass => (ancestorsWithin hierarchy rounds superClass).map (address :: ·)

theorem chain_ancestorsWithin {hierarchy : Hierarchy} {rounds : Nat} {address : ClassAddress}
    {ancestors : List ClassAddress}
    (found : ancestorsWithin hierarchy rounds address = some ancestors) :
    Chain hierarchy.superClassOf address ancestors := by
  induction rounds generalizing address ancestors with
  | zero => exact nomatch found
  | succ rounds inductionHypothesis =>
      rw [ancestorsWithin] at found
      cases above : hierarchy.superClassOf address with
      | none =>
          rw [above] at found
          obtain rfl := Option.some.inj found
          exact .root above
      | some superClass =>
          rw [above] at found
          obtain ⟨rest, isRest, rfl⟩ := Option.map_eq_some_iff.mp found
          exact .up above (inductionHypothesis isRest)

/-- The bootstrap makes classes and metaclasses by turns. -/
theorem systemHierarchy_links :
    systemHierarchy.links.length = 26 ∧ systemHierarchy.metaClassClass = 0 ∧
    ∀ address < 26, systemHierarchy.classOf address =
      some (if address % 2 = 0 then address + 1 else 0) := by
  decide +kernel

theorem systemHierarchy_superClasses :
    ∀ address < 26, address % 2 = 0 →
      (∀ superClass ∈ systemHierarchy.superClassOf address, superClass % 2 = 0 ∧ superClass < 26 ∧
        systemHierarchy.superClassOf (address + 1) = some (superClass + 1)) ∧
      (systemHierarchy.superClassOf address = none → address = systemHierarchy.objectClass) ∧
      (ancestorsWithin systemHierarchy 26 address).isSome = true := by
  decide +kernel

theorem systemHierarchy_isClass {address : ClassAddress} :
    systemHierarchy.IsClass address ↔ address < 26 ∧ address % 2 = 0 := by
  obtain ⟨length, isMetaClass, classes⟩ := systemHierarchy_links
  constructor
  · intro isClass
    have below : address < 26 := length ▸ isClass.lt
    obtain ⟨clazz, found, other⟩ := isClass
    rw [classes address below] at found
    refine ⟨below, ?_⟩
    by_contra odd
    rw [if_neg odd] at found
    rw [isMetaClass] at other
    exact other (Option.some.inj found).symm
  · rintro ⟨below, even⟩
    refine ⟨address + 1, ?_, ?_⟩
    · rw [classes address below, if_pos even]
    · rw [isMetaClass]
      exact Nat.succ_ne_zero address

theorem systemHierarchy_mirrored : systemHierarchy.Mirrored where
  classified := by
    obtain ⟨length, -, classes⟩ := systemHierarchy_links
    intro address below
    rw [length] at below
    by_cases even : address % 2 = 0
    · exact .inl (systemHierarchy_isClass.mpr ⟨below, even⟩)
    · have odd : ∀ number : Nat, number < 26 → ¬ number % 2 = 0 →
          (number - 1 < 26 ∧ (number - 1) % 2 = 0) ∧ number - 1 + 1 = number := by omega
      obtain ⟨isClass, next⟩ := odd address below even
      refine .inr ⟨address - 1, systemHierarchy_isClass.mpr isClass, ?_⟩
      rw [classes (address - 1) isClass.1, if_pos isClass.2, next]
  metaclass := by
    obtain ⟨-, isMetaClass, classes⟩ := systemHierarchy_links
    rintro address ⟨clazz, isClass, found⟩
    obtain ⟨below, even⟩ := systemHierarchy_isClass.mp isClass
    rw [classes clazz below, if_pos even] at found
    obtain rfl := Option.some.inj found
    have next : ∀ number : Nat, number < 26 → number % 2 = 0 →
        number + 1 < 26 ∧ ¬ (number + 1) % 2 = 0 := by omega
    obtain ⟨inside, odd⟩ := next clazz below even
    rw [classes (clazz + 1) inside, if_neg odd, isMetaClass]
  superIsClass := by
    intro clazz superClass isClass found
    obtain ⟨below, even⟩ := systemHierarchy_isClass.mp isClass
    obtain ⟨aboveEven, aboveBelow, -⟩ :=
      (systemHierarchy_superClasses clazz below even).1 superClass found
    exact systemHierarchy_isClass.mpr ⟨aboveBelow, aboveEven⟩
  superMetaclass := by
    obtain ⟨-, -, classes⟩ := systemHierarchy_links
    intro clazz superClass metaclass isClass found isMetaclass
    obtain ⟨below, even⟩ := systemHierarchy_isClass.mp isClass
    obtain ⟨aboveEven, aboveBelow, same⟩ :=
      (systemHierarchy_superClasses clazz below even).1 superClass found
    rw [classes clazz below, if_pos even] at isMetaclass
    obtain rfl := Option.some.inj isMetaclass
    rw [same, classes superClass aboveBelow, if_pos aboveEven]
  rootMetaclass := by decide +kernel
  metaClassIsClass := systemHierarchy_isClass.mpr (by decide +kernel)
  classIsClass := systemHierarchy_isClass.mpr (by decide +kernel)
  classBelowRoot := by decide +kernel
  rootIsTop := by decide +kernel
  onlyRoot := by
    intro clazz isClass noSuper
    obtain ⟨below, even⟩ := systemHierarchy_isClass.mp isClass
    exact (systemHierarchy_superClasses clazz below even).2.1 noSuper
  ancestors := by
    intro clazz isClass
    obtain ⟨below, even⟩ := systemHierarchy_isClass.mp isClass
    obtain ⟨ancestors, found⟩ := Option.isSome_iff_exists.mp
      (systemHierarchy_superClasses clazz below even).2.2
    exact ⟨ancestors, chain_ancestorsWithin found⟩

/-- The globals of the bootstrap, before any source is read. -/
theorem systemGlobals : ∀ entry ∈ (newSystemClasses.run {}).state.globals,
    ∃ address, entry.2 = some (.clazz address) ∧ address < 26 ∧ address % 2 = 0 := by
  have checked : ∀ entry ∈ (newSystemClasses.run {}).state.globals,
      ∃ address ∈ List.range 26, entry.2 = some (.clazz address) ∧ address % 2 = 0 := by
    decide +kernel
  intro entry member
  obtain ⟨address, isBelow, isClass, isEven⟩ := checked entry member
  exact ⟨address, isClass, List.mem_range.mp isBelow, isEven⟩

theorem systemClasses_mirrors : Mirrors (newSystemClasses.run {}).state where
  mirrored := systemHierarchy_mirrored
  globals := by
    intro name address found
    rw [Image.getGlobal, Option.join_eq_some_iff] at found
    obtain ⟨other, same, isEven⟩ := systemGlobals _ (valueOf_beq_mem found)
    obtain rfl := Global.clazz.inj (Option.some.inj same)
    exact systemHierarchy_isClass.mpr isEven

theorem Image.classOf_hierarchy (image : Image) : image.hierarchy.classOf = image.classOf := by
  funext address
  rw [Hierarchy.classOf, Image.classOf, hierarchy, List.getElem?_map, Option.map_map]
  rfl

theorem mirrorsRules : LoadingRules (fun _ : Unit => Mirrors) KnownClass () where
  systemClasses := systemClasses_mirrors
  global mirrors found := mirrors.globals found
  isClass := by
    rintro _ image address - ⟨clazz, isClass, noMetaclass⟩
    rw [← image.classOf_hierarchy] at isClass
    exact ⟨clazz, isClass, noMetaclass⟩
  setGlobal _ := setGlobal_mirrors
  bootstrapHolder _ systemClass := mirrors_of_stage fun image => setHolder_stage _ _
  compile loads _ := compile_mirrors (loads ())
  evaluation _ result argc := by
    have evaluations : Triple (keepsKnown KnownClass) Mirrors
        (Process.modify fun image =>
          { image with evaluations := image.evaluations ++ [argc] } : ClassM Unit)
        fun _ => Mirrors :=
      triple_modify (fun _ _ _ known => known) fun _ holds => ⟨holds.mirrored, holds.globals⟩
    have reads : ReadsOnly (Process.read : ClassM Image) := fun _ => rfl
    have adds : Triple (keepsKnown KnownClass) Mirrors (do
        let image ← Process.read
        Process.modify fun image => { image with evaluations := image.evaluations ++ [argc] }
        let _ ← addInstanceInvokable result (.evaluation image.evaluations.length) : ClassM Unit)
        fun _ => Mirrors := by
      apply Triple.bind _ (reads.keeps _) fun image => ?_
      apply Triple.bind _ evaluations fun _ => ?_
      have added : Triple (keepsKnown KnownClass) Mirrors
          (addInstanceInvokable result (.evaluation image.evaluations.length)) fun _ => Mirrors :=
        mirrors_of_stage fun _ => addInstanceInvokable_stage _ _
      exact Triple.bind _ added fun _ => triple_pure fun _ holds => holds
    exact adds.frame fun stays known address same => stays address (known address same)

/-! ### Metaclasses of reachable images -/

namespace Image

/-- The invokables of the metaclasses of some classes come first, then those of
`Class` and `Object`. -/
def firstOnClassSide (image : Image) (ancestors : List ClassAddress) (name : String) :
    Option InvokableAddress :=
  (ancestors.map image.hierarchy.metaclassOf ++ [image.classClass, image.objectClass]).findSome?
    (image.ownInvokable name)

end Image

/-- The metaclasses of an image mirror its classes. Class-side lookup ends within as
many rounds as there are classes; it finds the first invokable on the class side of
the ancestors, and behind them one of `Class` or `Object`. -/
structure MetaclassesMirror (image : Image) : Prop where
  classified : ∀ address < image.classes.length,
    image.hierarchy.IsClass address ∨ image.hierarchy.IsMetaclass address
  superMetaclass : ∀ {clazz superClass}, image.hierarchy.IsClass clazz →
    image.superClassOf clazz = some superClass → ∃ metaclass superMetaclass,
      image.classOf clazz = some metaclass ∧ image.classOf superClass = some superMetaclass ∧
        image.superClassOf metaclass = some superMetaclass
  rootMetaclass : ∃ metaclass, image.classOf image.objectClass = some metaclass ∧
    image.superClassOf metaclass = some image.classClass
  onlyRoot : ∀ {clazz}, image.hierarchy.IsClass clazz →
    (image.superClassOf clazz = none ↔ clazz = image.objectClass)
  metaclass : ∀ {address}, image.hierarchy.IsMetaclass address →
    image.classOf address = some image.metaClassClass
  acyclic : ∀ address, ¬ Relation.TransGen (IsParent image.superClassOf) address address
  lookup : ∀ {clazz}, image.hierarchy.IsClass clazz → ∃ ancestors metaclass,
    Chain image.superClassOf clazz ancestors ∧ image.classOf clazz = some metaclass ∧
      ∀ rounds name, image.classes.length ≤ rounds →
        image.lookupInvokable rounds metaclass name = some (image.firstOnClassSide ancestors name)

theorem Mirrors.metaclassesMirror (mirrors : Mirrors image) : MetaclassesMirror image := by
  have mirrored := mirrors.mirrored
  have classOf := image.classOf_hierarchy
  have superClassOf := image.superClassOf_hierarchy
  have length : image.hierarchy.links.length = image.classes.length := List.length_map _
  refine ⟨length ▸ mirrored.classified, ?_, ?_, ?_, ?_, ?_, ?_⟩
  · intro clazz superClass isClass found
    rw [← superClassOf] at found ⊢
    rw [← classOf]
    have isSuper := mirrored.superIsClass isClass found
    refine ⟨_, _, isClass.classOf_eq, isSuper.classOf_eq, ?_⟩
    rw [mirrored.superMetaclass isClass found isClass.classOf_eq, isSuper.classOf_eq]
  · have isRoot := mirrored.superIsClass mirrored.classIsClass mirrored.classBelowRoot
    rw [← superClassOf, ← classOf]
    exact ⟨_, isRoot.classOf_eq, mirrored.rootMetaclass isRoot.classOf_eq⟩
  · intro clazz isClass
    rw [← superClassOf]
    exact ⟨mirrored.onlyRoot isClass, fun same => same ▸ mirrored.rootIsTop⟩
  · intro address isMetaclass
    rw [← classOf]
    exact mirrored.metaclass isMetaclass
  · rw [← superClassOf]
    exact mirrored.acyclic
  · intro clazz isClass
    obtain ⟨ancestors, chain⟩ := mirrored.ancestors isClass
    rw [← superClassOf, ← classOf]
    refine ⟨ancestors, _, chain, isClass.classOf_eq, fun rounds name enough => ?_⟩
    have above := mirrored.metaclass_chain isClass chain
    have below := above.forall_mem (mirrored.classOf_lt isClass isClass.classOf_eq)
      mirrored.superClassOf_lt
    have short := above.length_le below
    rw [length] at short
    rw [Image.lookupInvokable_eq, ← superClassOf, above.searchUp_eq _ (Nat.le_trans short enough)]
    rfl

/-- In every image that the bootstrap and class loads lead to, the metaclasses mirror
the classes. -/
theorem metaclasses_mirror {path : ClassPath} (reachable : Reachable path image) :
    MetaclassesMirror image :=
  (mirrorsRules.reachable reachable).metaclassesMirror

/-! ### A class path of empty classes -/

/-- `Name = ( )`. -/
def emptySource (name : String) : Source :=
  [⟨.identifier, name⟩, ⟨.equal, "="⟩, ⟨.newTerm, "("⟩, ⟨.endTerm, ")"⟩]

/-- `Name = Super ( )`. -/
def emptySubclass (name superName : String) : Source :=
  [⟨.identifier, name⟩, ⟨.equal, "="⟩, ⟨.identifier, superName⟩, ⟨.newTerm, "("⟩, ⟨.endTerm, ")"⟩]

def emptyPath : ClassPath where
  directories := [fun name => some (emptySource name)]
  hasRoutine _ _ := false
  hasLibrary _ := false

/-- The image with a class `Foo`. -/
def loadedImage : Image :=
  ((loadClass emptyPath 2 "Foo").run ((initializeImage emptyPath 2).run {}).state).state

/-- `resolve:` has stored `Foo`, and a subclass is loaded then. -/
def fooImage : Image :=
  ((loadShellClass emptyPath 2 (emptySubclass "Bar" "Foo")).run
    ((setGlobal "Foo" (some (.clazz 35))).run loadedImage).state).state

theorem fooImage_reachable : Reachable emptyPath fooImage := by
  have ends : ((loadClass emptyPath 2 "Foo").run
      ((initializeImage emptyPath 2).run {}).state).result = .ok (some 35) := by
    decide +kernel
  have loaded : Reachable emptyPath loadedImage :=
    .loadClass 2 "Foo" (.bootstrap 2 (by decide +kernel)) ends
  have isFoo : loadedImage.IsClass 35 := ⟨34, by decide +kernel, by decide +kernel⟩
  have resolved := Reachable.setGlobal "Foo" (.clazz 35) loaded fun _ same =>
    Global.clazz.inj same ▸ isFoo
  have ends : ((loadShellClass emptyPath 2 (emptySubclass "Bar" "Foo")).run
      ((setGlobal "Foo" (some (.clazz 35))).run loadedImage).state).result = .ok 37 := by
    decide +kernel
  exact .loadShellClass 2 (emptySubclass "Bar" "Foo") resolved ends

theorem fooImage_metaclasses : MetaclassesMirror fooImage :=
  metaclasses_mirror fooImage_reachable

end Somr.Classes
