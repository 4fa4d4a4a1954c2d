import Somr.Classes.Signatures
import Somr.Classes.SystemClasses
import Somr.Library.Vector

/-!
Owns the reflective methods of the core library: `class` and `respondsTo:` of `Object`,
`superclass` and `hasMethod:` of `Class`, `signature` of `Method` and `Primitive`.

The methods read the objects of the virtual machine by the names of their fields, so
what they answer depends on the layouts that the sources of these classes declare.
Messages to the object and to classes are looked up, because a class may override
them.
-/

namespace Somr.Classes

open Foundation Compiler Interpreter
open Library (Elements)

/-! ### Objects of the virtual machine -/

/-- What a field holds that reflection reads. -/
inductive FieldValue where
  | nil
  | clazz (address : ClassAddress)
  | invokable (address : InvokableAddress)
  | symbol (text : String)
  | names (elements : Elements String)
  | invokables (elements : Elements InvokableAddress)
  /-- Any other object. -/
  | object
deriving DecidableEq, Repr

def FieldValue.clazz? : FieldValue → Option ClassAddress
  | .clazz address => some address
  | _ => none

def FieldValue.invokables? : FieldValue → Option (Elements InvokableAddress)
  | .invokables elements => some elements
  | _ => none

/-- A `VMObject`, whose first slot is its class. -/
def vmObject (clazz : ClassAddress) (others : List FieldValue) : Instance FieldValue :=
  ⟨clazz, .clazz clazz :: others⟩

/-- The class of methods, which the bootstrap makes sixth. -/
def methodClass : ClassAddress := 12

/-- The class of primitives, which the bootstrap makes tenth. -/
def primitiveClass : ClassAddress := 20

namespace Image

/-- A `VMClass` as an object. Behind these slots are those for the fields of the class
side. -/
def classObject (image : Image) (address : ClassAddress) : Option (Instance FieldValue) :=
  (image.classes[address]?).map fun clazz => vmObject clazz.clazz
    [(clazz.superClass.map FieldValue.clazz).getD .nil, .symbol clazz.name,
      .names clazz.instanceFields, .invokables clazz.instanceInvokables]

/-- A `VMMethod`, a `VMPrimitive` or a `VMEvaluationPrimitive` as an object. -/
def invokableObject (image : Image) (address : InvokableAddress) : Option (Instance FieldValue) :=
  (image.signature? address).map fun signature =>
    let holder := ((image.getHolder address).map FieldValue.clazz).getD .nil
    if image.isPrimitive address then vmObject primitiveClass [.symbol signature, holder]
    else vmObject methodClass ([.symbol signature, holder] ++ List.replicate 5 .object)

/-! ### Messages -/

/-- The message leads to the method that instances of the library class have. -/
def leadsTo (image : Image) (receiver : ClassAddress) (selector : String)
    (library : ClassAddress) : Bool :=
  image.lookupInvokable image.classes.length receiver selector =
    image.lookupInvokable image.classes.length library selector

section

variable {Answer Result : Type}

/-- A message to an instance of a class. A method that is not the one of the library is
not part of the model. -/
def send (image : Image) (receiver : ClassAddress) (selector : String) (library : ClassAddress)
    (method : Statement Answer Result) : Statement Answer Result :=
  if image.leadsTo receiver selector library then method else .error .exit

/-- A message to a class. -/
def sendToClass (image : Image) (cls : ClassAddress) (selector : String)
    (library : ClassAddress) (method : Statement Answer Result) : Statement Answer Result := do
  send image (← demand (image.classOf cls)) selector library method

/-- `PUSH_FIELD` in a method. -/
def field (image : Image) (self : Instance FieldValue) (name : String) : Statement Answer FieldValue :=
  demand (pushField image self name).toOption

end

end Image

/-! ### Reflective methods -/

namespace Image

/-- `Object>>class`. -/
def class_ {Answer : Type} (image : Image) (self : Instance FieldValue) :
    Statement Answer ClassAddress := do
  demand (← image.field self "class").clazz?

/-- `Class>>superclass`. -/
def superclass {Answer : Type} (image : Image) (self : ClassAddress) :
    Statement Answer FieldValue := do
  image.field (← demand (image.classObject self)) "superClass"

/-- `Method>>signature`, and the same of `Primitive`. -/
def signature {Answer : Type} (image : Image) (self : InvokableAddress) :
    Statement Answer FieldValue := do
  image.field (← demand (image.invokableObject self)) "signature"

/-- `Object>>isNil`, and the one of `Nil`. -/
def isNil {Answer : Type} (image : Image) : FieldValue → Statement Answer Bool
  | .clazz cls => image.sendToClass cls "isNil" image.objectClass (return false)
  | .nil => return true
  | _ => return false

/-- `m signature = aSymbol ifTrue: [ ^true ]`. -/
def hasSignature (image : Image) (aSymbol : String) (m : InvokableAddress) (_ : Unit) :
    Statement Bool Unit := do
  if (← image.signature m) = .symbol aSymbol then leave true

/-- `Class>>hasMethod:`. -/
def hasMethod_ (image : Image) (self : ClassAddress) (aSymbol : String) : Option Bool :=
  answering do
    let instanceInvokables ←
      image.field (← demand (image.classObject self)) "instanceInvokables"
    (← demand instanceInvokables.invokables?).do_ (image.hasSignature aSymbol) ()
    return false

/-- `cls hasMethod: aSymbol`. -/
def sendHasMethod {Answer : Type} (image : Image) (cls : ClassAddress) (aSymbol : String) :
    Statement Answer Bool :=
  image.sendToClass cls "hasMethod:" image.classClass (demand (image.hasMethod_ cls aSymbol))

/-- The loop of `respondsTo:`, for so many rounds. -/
def respondsAbove (image : Image) (aSymbol : String) : (rounds : Nat) → FieldValue →
    Statement Bool Unit
  | 0, _ => .error .unfinished
  | rounds + 1, cls => do
      if ← image.isNil cls then return ()
      else
        let cls ← demand cls.clazz?
        if ← image.sendHasMethod cls aSymbol then leave true
        else
          respondsAbove image aSymbol rounds
            (← image.sendToClass cls "superclass" image.classClass (image.superclass cls))

/-- `Object>>respondsTo:`. The loop goes on no longer than there are classes. -/
def respondsTo_ (image : Image) (self : Instance FieldValue) (aSymbol : String) : Option Bool :=
  answering do
    let sendClass := image.send self.clazz "class" image.objectClass (image.class_ self)
    if ← image.sendHasMethod (← sendClass) aSymbol then leave true
    else
      let clazz ← sendClass
      let cls ← image.sendToClass clazz "superclass" image.classClass (image.superclass clazz)
      image.respondsAbove aSymbol (image.classes.length + 1) cls
      return false

/-- `self respondsTo: aSymbol`. -/
def sendRespondsTo (image : Image) (self : Instance FieldValue) (aSymbol : String) : Option Bool :=
  answering (image.send self.clazz "respondsTo:" image.objectClass
    (demand (image.respondsTo_ self aSymbol)))

end Image

/-! ### Layouts -/

/-- The fields that the sources of the core library declare. -/
structure DeclaresReflection (path : ClassPath) : Prop where
  object : path.instanceFields "Object" = ["class"]
  clazz : path.instanceFields "Class" =
    ["superClass", "name", "instanceFields", "instanceInvokables"]
  array : path.instanceFields "Array" = []
  method : path.instanceFields "Method" =
    ["signature", "holder", "numberOfLocals", "maximumNumberOfStackElements"]
  primitive : path.instanceFields "Primitive" = ["signature", "holder"]

/-- A chain ends with a class without a superclass. -/
theorem exists_root {Node : Type} {parent : Node → Option Node} {node : Node} {nodes : List Node}
    (chain : Chain parent node nodes) :
    ∃ before root, nodes = before ++ [root] ∧ parent root = none := by
  induction chain with
  | @root node noParent => exact ⟨[], node, rfl, noParent⟩
  | @up node _ rest _ _ inductionHypothesis =>
      obtain ⟨before, root, same, noParent⟩ := inductionHypothesis
      exact ⟨node :: before, root, by rw [same]; rfl, noParent⟩

section

variable {path : ClassPath} {image : Image}

/-- The superclasses of a metaclass end with `Class` and `Object`. -/
theorem Reachable.metaclassChain (reachable : Reachable path image) {cls metaclass : ClassAddress}
    (isMetaclass : image.classOf cls = some metaclass) :
    ∃ before, SuperclassChain image metaclass (before ++ [image.classClass, image.objectClass]) := by
  have mirrored := (mirrorsRules.reachable reachable).mirrored
  have length : image.hierarchy.links.length = image.classes.length := List.length_map _
  have below : cls < image.hierarchy.links.length := by
    rw [length]
    rw [Image.classOf, Option.map_eq_some_iff] at isMetaclass
    obtain ⟨clazz, there, -⟩ := isMetaclass
    exact (List.getElem?_eq_some_iff.mp there).1
  rw [← image.classOf_hierarchy] at isMetaclass
  have leads : ∃ before, Chain image.hierarchy.superClassOf metaclass
      (before ++ [image.classClass, image.objectClass]) ∧
        metaclass < image.hierarchy.links.length := by
    rcases mirrored.classified cls below with isClass | ofMetaclass
    · obtain ⟨ancestors, chain⟩ := mirrored.ancestors isClass
      have above := mirrored.metaclass_chain isClass chain
      rw [Hierarchy.metaclassOf, isMetaclass] at above
      exact ⟨_, above, mirrored.classOf_lt isClass isMetaclass⟩
    · have isMetaClassClass := mirrored.metaclass ofMetaclass
      rw [isMetaclass] at isMetaClassClass
      obtain rfl := Option.some.inj isMetaClassClass
      have count : initialClasses.length = 26 := by decide +kernel
      have first : image.superClassOf image.metaClassClass = some image.classClass := by
        obtain ⟨-, isClassClass, isMetaClassClass⟩ := reachable.roots
        rw [isClassClass, isMetaClassClass, reachable.superClassOf_system (by rw [count]; decide)]
        decide +kernel
      rw [← image.superClassOf_hierarchy] at first
      exact ⟨[image.metaClassClass], .up first mirrored.classClass_chain,
        mirrored.metaClassIsClass.lt⟩
  obtain ⟨before, chain, inside⟩ := leads
  have exist := chain.forall_mem inside mirrored.superClassOf_lt
  rw [length] at exist
  rw [image.superClassOf_hierarchy] at chain
  exact ⟨before, chain, exist⟩

/-- The superclasses of every class end with `Object`. -/
theorem Reachable.rootChain (reachable : Reachable path image) {clazz : ClassAddress}
    (below : clazz < image.classes.length) :
    ∃ before, SuperclassChain image clazz (before ++ [image.objectClass]) := by
  have mirrored := (mirrorsRules.reachable reachable).mirrored
  have length : image.hierarchy.links.length = image.classes.length := List.length_map _
  rcases mirrored.classified clazz (length ▸ below) with isClass | ⟨cls, -, isMetaclass⟩
  · obtain ⟨chain, leads, exist⟩ := reachable.superclassChain below
    obtain ⟨before, root, rfl, noParent⟩ := exists_root leads
    have classes := leads.forall_mem isClass fun isClass isParent =>
      mirrored.superIsClass isClass (image.superClassOf_hierarchy ▸ isParent)
    have isRoot := mirrored.onlyRoot (classes root (List.mem_append_right _ List.mem_cons_self))
      (image.superClassOf_hierarchy ▸ noParent)
    obtain rfl : root = image.objectClass := isRoot
    exact ⟨before, leads, exist⟩
  · rw [image.classOf_hierarchy] at isMetaclass
    obtain ⟨before, chain⟩ := reachable.metaclassChain isMetaclass
    refine ⟨before ++ [image.classClass], ?_⟩
    rw [List.append_assoc]
    exact chain

/-- A field that the end of a chain declares has its index there. -/
theorem SuperclassChain.field_eq {before rest : List ClassAddress} {self : Instance FieldValue}
    (superclasses : SuperclassChain image self.clazz (before ++ rest)) {names : List String}
    (declares : image.layout rest = names) {name : String} (member : name ∈ names)
    {value : FieldValue} (holds : self.fields[names.idxOf name]? = some value) {Answer : Type} :
    (image.field self name : Statement Answer FieldValue) = .ok value := by
  have among : name ∈ image.layout (before ++ rest) := by
    rw [image.layout_append, declares]
    exact List.mem_append_left _ member
  have index : image.lookupFieldIndex self.clazz name = .ok ((names.idxOf name : Nat) : Int) := by
    rw [superclasses.lookupFieldIndex_eq, if_pos among, image.layout_append, declares,
      List.idxOf_append_of_mem member]
  have pushed : pushField image self name = .ok value := by
    rw [pushField, index]
    change self.getField ((names.idxOf name : Nat) : Int) = _
    rw [Instance.getField, if_neg (by omega), Int.toNat_natCast, holds]
  rw [Image.field, pushed]
  rfl

/-! ### What the methods read -/

variable (reachable : Reachable path image) (declares : DeclaresReflection path)

include reachable declares

theorem layout_object : image.layout [image.objectClass] = ["class"] := by
  have fields : image.fieldsOf image.objectClass = ["class"] := by
    rw [reachable.roots.1, reachable.fieldsOf_system (by decide)
      (show (initialClasses.map VMClass.name)[2]? = some "Object" by decide +kernel),
      declares.object]
  rw [Image.layout, Image.layout, fields]
  rfl

theorem layout_class : image.layout [image.classClass, image.objectClass] =
    ["class", "superClass", "name", "instanceFields", "instanceInvokables"] := by
  have fields : image.fieldsOf image.classClass =
      ["superClass", "name", "instanceFields", "instanceInvokables"] := by
    rw [reachable.roots.2.1, reachable.fieldsOf_system (by decide)
      (show (initialClasses.map VMClass.name)[6]? = some "Class" by decide +kernel),
      declares.clazz]
  rw [Image.layout, layout_object reachable declares, fields]
  rfl

/-- `class` answers the class of every object. -/
theorem class_eq {self : Instance FieldValue} (below : self.clazz < image.classes.length)
    (first : self.fields[0]? = some (.clazz self.clazz)) {Answer : Type} :
    (image.class_ self : Statement Answer ClassAddress) = .ok self.clazz := by
  obtain ⟨before, chain⟩ := reachable.rootChain below
  have read : (image.field self "class" : Statement Answer FieldValue) =
      .ok (.clazz self.clazz) :=
    chain.field_eq (layout_object reachable declares) List.mem_cons_self first
  rw [Image.class_, read]
  rfl

/-- The fields of a class as `superclass` and `hasMethod:` read them. -/
theorem classObject_fields {cls : ClassAddress} (below : cls < image.classes.length) :
    ∃ self, image.classObject cls = some self ∧ ∀ Answer : Type,
      (image.field self "superClass" : Statement Answer FieldValue) =
        .ok (((image.superClassOf cls).map FieldValue.clazz).getD .nil) ∧
      (image.field self "instanceInvokables" : Statement Answer FieldValue) =
        .ok (.invokables (image.invokablesOf cls)) := by
  have there := List.getElem?_eq_getElem below
  have isMetaclass : image.classOf cls = some image.classes[cls].clazz := by
    rw [Image.classOf, there]
    rfl
  obtain ⟨before, chain⟩ := reachable.metaclassChain isMetaclass
  have declared := layout_class reachable declares
  rw [Image.classObject, there]
  refine ⟨_, rfl, fun Answer => ⟨?_, ?_⟩⟩
  · apply SuperclassChain.field_eq chain declared (by decide)
    rw [Image.superClassOf, there]
    rfl
  · apply SuperclassChain.field_eq chain declared (by decide)
    rw [Image.invokablesOf, there]
    rfl

/-- `signature` answers the signature, of a method as of a primitive. -/
theorem signature_eq {m : InvokableAddress} {text : String}
    (signed : image.signature? m = some text) {Answer : Type} :
    (image.signature m : Statement Answer FieldValue) = .ok (.symbol text) := by
  have count : initialClasses.length = 26 := by decide +kernel
  have isRoot := reachable.roots.1
  have object := layout_object reachable declares
  have linked : ∀ {address : ClassAddress}, address < 26 →
      image.superClassOf address = systemHierarchy.superClassOf address :=
    fun below => reachable.superClassOf_system (count ▸ below)
  obtain ⟨classes, -, has⟩ := reachable.declares
  have complete : 26 ≤ image.classes.length := count ▸ has.complete
  have root : image.superClassOf image.objectClass = none := by
    rw [isRoot, linked (by decide)]
    decide +kernel
  rw [Image.signature, Image.invokableObject, signed]
  by_cases isPrimitive : image.isPrimitive m = true
  · have fields : image.fieldsOf primitiveClass = ["signature", "holder"] := by
      rw [reachable.fieldsOf_system (by decide)
        (show (initialClasses.map VMClass.name)[primitiveClass]? = some "Primitive" by
          decide +kernel), declares.primitive]
    have chain : SuperclassChain image primitiveClass
        ([] ++ [primitiveClass, image.objectClass]) := by
      refine ⟨.up ?_ (.root root), ?_⟩
      · rw [linked (by decide), isRoot]
        decide +kernel
      · rw [isRoot]
        intro address member
        have below : ∀ address ∈ [primitiveClass, 2], address < 26 := by decide
        exact Nat.lt_of_lt_of_le (below address member) complete
    have layout : image.layout [primitiveClass, image.objectClass] =
        ["class", "signature", "holder"] := by
      rw [Image.layout, object, fields]
      rfl
    dsimp only [Option.map_some]
    rw [if_pos isPrimitive]
    exact SuperclassChain.field_eq chain layout (by decide) rfl
  · have fields : image.fieldsOf methodClass =
        ["signature", "holder", "numberOfLocals", "maximumNumberOfStackElements"] := by
      rw [reachable.fieldsOf_system (by decide)
        (show (initialClasses.map VMClass.name)[methodClass]? = some "Method" by
          decide +kernel), declares.method]
    have fieldsOfArray : image.fieldsOf 8 = [] := by
      rw [reachable.fieldsOf_system (by decide)
        (show (initialClasses.map VMClass.name)[8]? = some "Array" by decide +kernel),
        declares.array]
    have chain : SuperclassChain image methodClass
        ([] ++ [methodClass, 8, image.objectClass]) := by
      refine ⟨.up ?_ (.up ?_ (.root root)), ?_⟩
      · rw [linked (by decide)]
        decide +kernel
      · rw [linked (by decide), isRoot]
        decide +kernel
      · rw [isRoot]
        intro address member
        have below : ∀ address ∈ [methodClass, 8, 2], address < 26 := by decide
        exact Nat.lt_of_lt_of_le (below address member) complete
    have layout : image.layout [methodClass, 8, image.objectClass] =
        ["class", "signature", "holder", "numberOfLocals", "maximumNumberOfStackElements"] := by
      rw [Image.layout, Image.layout, object, fields, fieldsOfArray]
      rfl
    dsimp only [Option.map_some]
    rw [if_neg isPrimitive]
    exact SuperclassChain.field_eq chain layout (by decide) rfl

/-! ### What the methods answer -/

/-- `hasMethod:` looks through the invokables of the class alone. -/
theorem hasMethod_eq {cls : ClassAddress} (below : cls < image.classes.length)
    (aSymbol : String) :
    image.hasMethod_ cls aSymbol = some (image.ownInvokable aSymbol cls).isSome := by
  obtain ⟨self, isObject, fields⟩ := classObject_fields reachable declares below
  obtain ⟨-, invokables⟩ := fields Bool
  have isSearch : ∀ m ∈ image.invokablesOf cls,
      image.hasSignature aSymbol m () =
        if image.signature? m == some aSymbol then leave true else .ok () := by
    intro m member
    obtain ⟨text, signed⟩ :=
      Option.isSome_iff_exists.mp (reachable.signature?_isSome member)
    have answered : (image.signature m : Statement Bool FieldValue) = .ok (.symbol text) :=
      signature_eq reachable declares signed
    rw [Image.hasSignature, answered, signed]
    by_cases same : text = aSymbol
    · subst same
      simp [Bind.bind, Except.bind]
    · simp [Bind.bind, Except.bind, same]
      rfl
  have search := answering_search (fun m => image.signature? m == some aSymbol) (fun _ => true)
    false isSearch
  have unfolded : image.hasMethod_ cls aSymbol = answering (do
      Elements.do_ (image.invokablesOf cls) (image.hasSignature aSymbol) ()
      return false) := by
    rw [Image.hasMethod_, isObject, demand_value]
    change answering (image.field self "instanceInvokables" >>= _) = _
    rw [invokables]
    rfl
  rw [unfolded, Elements.do_eq, search, Image.ownInvokable]
  cases (image.invokablesOf cls).find? fun m => image.signature? m == some aSymbol <;> rfl

end

/-- A class understands the messages of reflection as the library does. -/
structure Image.Reflects (image : Image) (cls : ClassAddress) : Prop where
  hasMethod : ∀ metaclass, image.classOf cls = some metaclass →
    image.leadsTo metaclass "hasMethod:" image.classClass = true
  superclass : ∀ metaclass, image.classOf cls = some metaclass →
    image.leadsTo metaclass "superclass" image.classClass = true
  isNil : ∀ metaclass, image.classOf cls = some metaclass →
    image.leadsTo metaclass "isNil" image.objectClass = true

/-- No message of reflection is overridden: those to instances of the class, and those to
the class and its superclasses. -/
structure Image.KeepsReflection (image : Image) (clazz : ClassAddress) : Prop where
  respondsTo : image.leadsTo clazz "respondsTo:" image.objectClass = true
  ofClass : image.leadsTo clazz "class" image.objectClass = true
  classes : ∀ cls, Relation.ReflTransGen (IsParent image.superClassOf) clazz cls →
    image.Reflects cls

section

variable {path : ClassPath} {image : Image}

theorem sendToClass_eq {cls library : ClassAddress} (below : cls < image.classes.length)
    {selector : String} (leads : ∀ metaclass, image.classOf cls = some metaclass →
      image.leadsTo metaclass selector library = true)
    {Answer Result : Type} (method : Statement Answer Result) :
    image.sendToClass cls selector library method = method := by
  have isMetaclass : image.classOf cls = some image.classes[cls].clazz := by
    rw [Image.classOf, List.getElem?_eq_getElem below]
    rfl
  rw [Image.sendToClass, isMetaclass, demand_value]
  change image.send _ _ _ _ = _
  rw [Image.send, if_pos (leads _ isMetaclass)]

variable (reachable : Reachable path image) (declares : DeclaresReflection path)

include reachable declares

theorem superclass_eq {cls : ClassAddress} (below : cls < image.classes.length) {Answer : Type} :
    (image.superclass cls : Statement Answer FieldValue) =
      .ok (((image.superClassOf cls).map FieldValue.clazz).getD .nil) := by
  obtain ⟨self, isObject, fields⟩ := classObject_fields reachable declares below
  rw [Image.superclass, isObject, demand_value]
  exact (fields Answer).1

theorem sendHasMethod_eq {cls : ClassAddress} (below : cls < image.classes.length)
    (leads : ∀ metaclass, image.classOf cls = some metaclass →
      image.leadsTo metaclass "hasMethod:" image.classClass = true)
    (aSymbol : String) {Answer : Type} :
    (image.sendHasMethod cls aSymbol : Statement Answer Bool) =
      .ok (image.ownInvokable aSymbol cls).isSome := by
  rw [Image.sendHasMethod, sendToClass_eq below leads, hasMethod_eq reachable declares below,
    demand_value]

/-- One round asks a class and goes on with its superclass. -/
theorem respondsAbove_step {cls : ClassAddress} (below : cls < image.classes.length)
    (reflects : image.Reflects cls) (aSymbol : String) (rounds : Nat) :
    image.respondsAbove aSymbol (rounds + 1) (.clazz cls) =
      if (image.ownInvokable aSymbol cls).isSome then leave true
      else image.respondsAbove aSymbol rounds
        (((image.superClassOf cls).map FieldValue.clazz).getD .nil) := by
  have noNil : (image.isNil (.clazz cls) : Statement Bool Bool) = .ok false :=
    sendToClass_eq below reflects.isNil (Pure.pure false)
  rw [Image.respondsAbove, noNil]
  change (image.sendHasMethod cls aSymbol >>= _) = _
  rw [sendHasMethod_eq reachable declares below reflects.hasMethod]
  change (if (image.ownInvokable aSymbol cls).isSome = true then leave true
    else image.sendToClass cls "superclass" image.classClass (image.superclass cls) >>= _) = _
  rw [sendToClass_eq below reflects.superclass, superclass_eq reachable declares below]
  rfl

/-- The loop finds an invokable of the class or of one above it, if there is one. -/
theorem respondsAbove_eq (aSymbol : String) {cls : ClassAddress} {chain : List ClassAddress}
    (leads : Chain image.superClassOf cls chain)
    (exist : ∀ above ∈ chain, above < image.classes.length)
    (reflect : ∀ above ∈ chain, image.Reflects above) {rounds : Nat}
    (enough : chain.length < rounds) :
    image.respondsAbove aSymbol rounds (.clazz cls) =
      if (chain.findSome? (image.ownInvokable aSymbol)).isSome then leave true else .ok () := by
  induction leads generalizing rounds with
  | @root cls noParent =>
      obtain ⟨rounds, rfl⟩ := Nat.exists_eq_add_of_le' enough
      have here := List.mem_singleton_self cls
      rw [List.length_singleton, respondsAbove_step reachable declares (exist cls here)
        (reflect cls here), noParent, List.findSome?_singleton]
      rfl
  | @up cls above rest isParent leads inductionHypothesis =>
      obtain ⟨rounds, rfl⟩ := Nat.exists_eq_add_of_le'
        (Nat.lt_of_le_of_lt (Nat.zero_le _) enough)
      rw [List.forall_mem_cons] at exist reflect
      have shorter : rest.length < rounds := Nat.lt_of_succ_lt_succ enough
      rw [respondsAbove_step reachable declares exist.1 reflect.1, isParent,
        List.findSome?_cons]
      cases image.ownInvokable aSymbol cls with
      | some found => rfl
      | none => exact inductionHypothesis exist.2 reflect.2 shorter

/-- `respondsTo:` answers whether the lookup finds an invokable. -/
theorem respondsTo_eq {self : Instance FieldValue} (below : self.clazz < image.classes.length)
    (first : self.fields[0]? = some (.clazz self.clazz))
    (keeps : image.KeepsReflection self.clazz) {chain : List ClassAddress}
    (superclasses : SuperclassChain image self.clazz chain) (aSymbol : String) :
    image.sendRespondsTo self aSymbol =
      some (chain.findSome? (image.ownInvokable aSymbol)).isSome := by
  have isClass : (image.class_ self : Statement Bool ClassAddress) = .ok self.clazz :=
    class_eq reachable declares below first
  have sent : (image.send self.clazz "class" image.objectClass (image.class_ self) :
      Statement Bool ClassAddress) = .ok self.clazz := by
    rw [Image.send, if_pos keeps.ofClass, isClass]
  have reflects := keeps.classes self.clazz .refl
  have unfolded : image.respondsTo_ self aSymbol = answering
      (if (image.ownInvokable aSymbol self.clazz).isSome then leave true
        else do
          image.respondsAbove aSymbol (image.classes.length + 1)
            (((image.superClassOf self.clazz).map FieldValue.clazz).getD .nil)
          return false) := by
    rw [Image.respondsTo_]
    dsimp only
    rw [sent]
    change answering (image.sendHasMethod self.clazz aSymbol >>= _) = _
    rw [sendHasMethod_eq reachable declares below reflects.hasMethod]
    change answering (if (image.ownInvokable aSymbol self.clazz).isSome = true then leave true
      else image.sendToClass self.clazz "superclass" image.classClass
        (image.superclass self.clazz) >>= _) = _
    rw [sendToClass_eq below reflects.superclass, superclass_eq reachable declares below]
    rfl
  have answers : image.respondsTo_ self aSymbol =
      some (chain.findSome? (image.ownInvokable aSymbol)).isSome := by
    rw [unfolded]
    have long := superclasses.length_le
    obtain ⟨leads, exist⟩ := superclasses
    generalize isClazz : self.clazz = clazz at leads
    cases leads with
    | root noParent =>
        rw [noParent, List.findSome?_singleton]
        cases image.ownInvokable aSymbol clazz <;> rfl
    | @up _ above rest isParent leads =>
        rw [isParent, List.findSome?_cons]
        have reflectsAbove : ∀ other ∈ rest, image.Reflects other := by
          have reached : ∀ other ∈ rest,
              Relation.ReflTransGen (IsParent image.superClassOf) self.clazz other :=
            leads.forall_mem (.single (isClazz ▸ isParent)) fun reached isNext =>
              reached.tail isNext
          exact fun other there => keeps.classes other (reached other there)
        have loop : image.respondsAbove aSymbol (image.classes.length + 1) (.clazz above) =
            if (rest.findSome? (image.ownInvokable aSymbol)).isSome then leave true
            else .ok () :=
          respondsAbove_eq reachable declares aSymbol leads
            (fun other there => exist other (List.mem_cons_of_mem _ there)) reflectsAbove
            (Nat.lt_succ_of_lt long)
        cases image.ownInvokable aSymbol clazz with
        | some found => rfl
        | none =>
            change answering (image.respondsAbove aSymbol (image.classes.length + 1)
              (.clazz above) >>= _) = _
            rw [loop]
            cases rest.findSome? (image.ownInvokable aSymbol) <;> rfl
  rw [Image.sendRespondsTo, Image.send, if_pos keeps.respondsTo, answers]
  rfl

end

/-- In every reachable image, where the messages of reflection are not overridden,
`respondsTo:` answers whether the lookup from the class of the object finds an invokable,
and `hasMethod:` whether the class itself has one with the signature. -/
theorem reflection_agrees {path : ClassPath} (declares : DeclaresReflection path) {image : Image}
    (reachable : Reachable path image) (aSymbol : String) :
    (∀ self : Instance FieldValue, self.clazz < image.classes.length →
      self.fields[0]? = some (.clazz self.clazz) → image.KeepsReflection self.clazz →
      ∃ found, image.lookupInvokable image.classes.length self.clazz aSymbol = some found ∧
        image.sendRespondsTo self aSymbol = some found.isSome) ∧
    ∀ cls < image.classes.length, (∀ metaclass, image.classOf cls = some metaclass →
        image.leadsTo metaclass "hasMethod:" image.classClass = true) →
      (image.sendHasMethod cls aSymbol : Statement Empty Bool) =
        .ok (decide (∃ m ∈ image.invokablesOf cls, image.signature? m = some aSymbol)) := by
  constructor
  · intro self below first keeps
    obtain ⟨chain, superclasses⟩ := reachable.superclassChain below
    refine ⟨chain.findSome? (image.ownInvokable aSymbol), ?_, ?_⟩
    · rw [image.lookupInvokable_eq, superclasses.leads.searchUp_eq _ superclasses.length_le]
    · exact respondsTo_eq reachable declares below first keeps superclasses aSymbol
  · intro cls below leads
    rw [sendHasMethod_eq reachable declares below leads]
    congr 1
    rw [Image.ownInvokable, Bool.eq_iff_iff, List.find?_isSome, decide_eq_true_eq]
    simp only [beq_iff_eq]

/-! ### An object of a small library -/

/-- A class with fields and primitives. -/
def librarySource (name : String) (fields : List String) (primitives : List (List Token)) :
    Source :=
  [⟨.identifier, name⟩, ⟨.equal, "="⟩, ⟨.newTerm, "("⟩, ⟨.or, "|"⟩] ++
    fields.map (fun field => ⟨.identifier, field⟩) ++ [⟨.or, "|"⟩] ++
    primitives.flatMap (· ++ [⟨.equal, "="⟩, ⟨.primitive, "primitive"⟩]) ++ [⟨.endTerm, ")"⟩]

def smallLibrary (name : String) : Source :=
  if name = "Object" then
    librarySource name ["class"] [[⟨.identifier, "class"⟩], [⟨.identifier, "isNil"⟩],
      [⟨.keyword, "respondsTo:"⟩, ⟨.identifier, "aSymbol"⟩]]
  else if name = "Class" then
    librarySource name ["superClass", "name", "instanceFields", "instanceInvokables"]
      [[⟨.identifier, "superclass"⟩], [⟨.keyword, "hasMethod:"⟩, ⟨.identifier, "aSymbol"⟩]]
  else if name = "Method" then
    librarySource name ["signature", "holder", "numberOfLocals", "maximumNumberOfStackElements"]
      [[⟨.identifier, "signature"⟩]]
  else if name = "Primitive" then
    librarySource name ["signature", "holder"] [[⟨.identifier, "signature"⟩]]
  else librarySource name [] []

def libraryPath : ClassPath where
  directories := [fun name => some (smallLibrary name)]
  hasRoutine _ _ := true
  hasLibrary _ := true

def libraryImage : Image := ((initializeImage libraryPath 2).run {}).state

theorem libraryImage_reachable : Reachable libraryPath libraryImage :=
  .bootstrap 2 (by decide +kernel)

theorem libraryPath_declares : DeclaresReflection libraryPath := by
  constructor <;> decide +kernel

theorem libraryImage_keepsReflection : libraryImage.KeepsReflection 2 := by
  have metaclass : ∀ {other}, libraryImage.classOf 2 = some other → other = 3 := by
    have isThree : libraryImage.classOf 2 = some 3 := by decide +kernel
    intro other same
    exact Option.some.inj (same.symm.trans isThree)
  refine ⟨by decide +kernel, by decide +kernel, fun cls isAbove => ?_⟩
  have noParent : libraryImage.superClassOf 2 = none := by decide +kernel
  obtain rfl | ⟨above, isParent, -⟩ := isAbove.cases_head
  · refine ⟨fun other same => ?_, fun other same => ?_, fun other same => ?_⟩
    · rw [metaclass same]
      decide +kernel
    · rw [metaclass same]
      decide +kernel
    · rw [metaclass same]
      decide +kernel
  · exact absurd (isParent.symm.trans noParent) (Option.some_ne_none _)

theorem reflection_of_object :
    (∃ found, libraryImage.lookupInvokable libraryImage.classes.length 2 "isNil" = some found ∧
        libraryImage.sendRespondsTo (vmObject 2 []) "isNil" = some found.isSome) ∧
      (libraryImage.sendHasMethod 2 "isNil" : Statement Empty Bool) =
        .ok (decide (∃ m ∈ libraryImage.invokablesOf 2,
          libraryImage.signature? m = some "isNil")) := by
  have exists_ : 2 < libraryImage.classes.length := by decide +kernel
  have keeps := libraryImage_keepsReflection
  have ⟨responds, has⟩ :=
    reflection_agrees libraryPath_declares libraryImage_reachable "isNil"
  exact ⟨responds (vmObject 2 []) exists_ rfl keeps,
    has 2 exists_ (keeps.classes 2 .refl).hasMethod⟩

end Somr.Classes
