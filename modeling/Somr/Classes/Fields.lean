import Somr.Classes.Metaclasses

/-!
Owns the fields of instances: the names of the fields of a class by index, the
index of a field by name, and the slots of a new instance.

A class lays out the fields of its superclass first. The two recursions of the
source go up the superclasses together; both give the position in the layout that
`layout` lists. A search for a name that no class on the way declares goes one
position too far.
-/

namespace Somr.Classes

open Foundation Compiler Interpreter

/-! ### Names and indexes -/

/-- `VMArray::operator[]` of an array of field names. -/
def fieldAt (fields : List String) (idx : Int) : Except Halt String :=
  if idx < 0 then .error .exit
  else
    match fields[idx.toNat]? with
    | some name => .ok name
    | none => .error .exit

namespace Image

def class? (image : Image) (address : ClassAddress) : Except Halt VMClass :=
  match image.classes[address]? with
  | some clazz => .ok clazz
  | none => .error .undefined

/-- What the superclass answers, if there is one. -/
def ofSuperClass {Answer : Type} (clazz : VMClass) (answer : ClassAddress → Except Halt Answer)
    (otherwise : Except Halt Answer) : Except Halt Answer :=
  match clazz.superClass with
  | some superClass => answer superClass
  | none => otherwise

/-- `VMClass::GetNumberOfInstanceFields`. A recursion that goes on for more rounds does not
end. -/
def getNumberOfInstanceFields (image : Image) : (rounds : Nat) → ClassAddress → Except Halt Int
  | 0, _ => .error .stackOverflow
  | rounds + 1, address => do
      let clazz ← image.class? address
      let inherited ← ofSuperClass clazz (getNumberOfInstanceFields image rounds) (.ok 0)
      return clazz.instanceFields.length + inherited

/-- `VMClass::numberOfSuperInstanceFields`. -/
def numberOfSuperInstanceFields (image : Image) (rounds : Nat) (clazz : VMClass) :
    Except Halt Int :=
  ofSuperClass clazz (image.getNumberOfInstanceFields rounds) (.ok 0)

/-- `VMClass::GetInstanceFieldName`. -/
def getInstanceFieldName (image : Image) : (rounds : Nat) → ClassAddress → Int →
    Except Halt String
  | 0, _, _ => .error .stackOverflow
  | rounds + 1, address, index => do
      let clazz ← image.class? address
      let inherited ← image.numberOfSuperInstanceFields rounds clazz
      if index ≥ inherited then fieldAt clazz.instanceFields (index - inherited)
      else
        ofSuperClass clazz (fun superClass => getInstanceFieldName image rounds superClass index)
          (.error .undefined)

/-- The loop of `VMClass::LookupFieldIndex`, from an index on and for some more indexes. -/
def lookupFieldFrom (fieldName : Int → Except Halt String) (name : String) :
    (more : Nat) → (index : Int) → Except Halt Int
  | 0, _ => .ok (-1)
  | more + 1, index => do
      if name = (← fieldName index) then return index
      else lookupFieldFrom fieldName name more (index + 1)

/-- `VMClass::LookupFieldIndex`; the last index it tries is the number of fields. -/
def lookupFieldIndex (image : Image) (address : ClassAddress) (name : String) :
    Except Halt Int := do
  let rounds := image.classes.length
  let number ← image.getNumberOfInstanceFields rounds address
  lookupFieldFrom (image.getInstanceFieldName rounds address) name (number + 1).toNat 0

end Image

/-! ### Instances -/

/-- A `VMObject`; the first slot is its class. -/
structure Instance (Object : Type) where
  clazz : ClassAddress
  fields : List Object
deriving DecidableEq, Repr

section

variable {Object : Type}

/-- `Universe::NewInstance`: `SetNumberOfFields` adds the slot of the class again. -/
def newInstance (nilObject : Object) (image : Image) (classOfInstance : ClassAddress) :
    Except Halt (Instance Object) := do
  let numOfFields :=
    (← image.getNumberOfInstanceFields image.classes.length classOfInstance) - 1
  return ⟨classOfInstance, List.replicate (numOfFields + 1).toNat nilObject⟩

/-- `VMObject::GetField`; there are no other slots. -/
def Instance.getField (object : Instance Object) (index : Int) : Except Halt Object :=
  if index < 0 then .error .undefined
  else
    match object.fields[index.toNat]? with
    | some value => .ok value
    | none => .error .undefined

/-- `VMObject::SetField`. -/
def Instance.setField (object : Instance Object) (index : Int) (value : Object) :
    Except Halt (Instance Object) :=
  if 0 ≤ index ∧ index < object.fields.length then
    .ok { object with fields := object.fields.set index.toNat value }
  else .error .undefined

/-- What `doPushField` pushes for the field of an object. -/
def pushField (image : Image) (self : Instance Object) (fieldName : String) :
    Except Halt Object := do
  let fieldIndex ← image.lookupFieldIndex self.clazz fieldName
  self.getField fieldIndex

/-- What `doPopField` makes of an object. -/
def popField (image : Image) (self : Instance Object) (field_name : String) (o : Object) :
    Except Halt (Instance Object) := do
  let field_index ← image.lookupFieldIndex self.clazz field_name
  self.setField field_index o

end

/-! ### Layouts -/

/-- The classes from a class up, where each of them exists. -/
structure SuperclassChain (image : Image) (clazz : ClassAddress) (chain : List ClassAddress) :
    Prop where
  leads : Chain image.superClassOf clazz chain
  exist : ∀ address ∈ chain, address < image.classes.length

/-- The names of the fields that a class declares. -/
def Image.fieldsOf (image : Image) (address : ClassAddress) : List String :=
  ((image.classes[address]?).map VMClass.instanceFields).getD []

/-- The names of the fields of the class on a chain, those of its superclasses first. -/
def Image.layout (image : Image) : List ClassAddress → List String
  | [] => []
  | address :: above => image.layout above ++ image.fieldsOf address

theorem Image.mem_layout {image : Image} {chain : List ClassAddress} {name : String} :
    name ∈ image.layout chain ↔ ∃ address ∈ chain, name ∈ image.fieldsOf address := by
  induction chain with
  | nil => simp [layout]
  | cons address above inductionHypothesis =>
      rw [layout, List.mem_append, inductionHypothesis]
      simp only [List.mem_cons, exists_eq_or_imp]
      exact or_comm

theorem fieldAt_of_lt {fields : List String} {index : Nat} (inside : index < fields.length) :
    fieldAt fields index = .ok fields[index] := by
  rw [fieldAt, if_neg (by omega), Int.toNat_natCast, List.getElem?_eq_getElem inside]

/-- The index behind the last field is outside the bounds of the array. -/
theorem fieldAt_end (fields : List String) : fieldAt fields fields.length = .error .exit := by
  rw [fieldAt, if_neg (by omega), Int.toNat_natCast, List.getElem?_eq_none (Nat.le_refl _)]

/-- The loop finds the first field with the name, or goes on behind the last field. -/
theorem Image.lookupFieldFrom_eq {fieldName : Int → Except Halt String} {fields : List String}
    (names : ∀ index : Nat, fieldName index = fieldAt fields index) (name : String)
    (rest : List String) : ∀ before, fields = before ++ rest →
      lookupFieldFrom fieldName name (rest.length + 1) before.length =
        if name ∈ rest then .ok ((before.length + rest.idxOf name : Nat) : Int)
        else .error .exit := by
  induction rest with
  | nil =>
      intro before split
      rw [List.append_nil] at split
      rw [lookupFieldFrom, names, ← split, fieldAt_end, if_neg List.not_mem_nil]
      rfl
  | cons field rest inductionHypothesis =>
      intro before split
      have inside : before.length < fields.length := by
        rw [split, List.length_append, List.length_cons]
        omega
      have here : fields[before.length] = field := by
        simp only [split, List.getElem_append_right (Nat.le_refl _), Nat.sub_self,
          List.getElem_cons_zero]
      rw [lookupFieldFrom, names, fieldAt_of_lt inside, here]
      change (if name = field then _ else _) = _
      by_cases same : name = field
      · rw [if_pos same, if_pos (same ▸ List.mem_cons_self), same, List.idxOf_cons_self]
        rfl
      · have later := inductionHypothesis (before ++ [field]) (by rw [split, List.append_assoc]; rfl)
        rw [List.length_append, List.length_singleton] at later
        have others : name ∈ field :: rest ↔ name ∈ rest := by simp [same]
        rw [if_neg same, List.length_cons, ← Int.natCast_succ, Nat.succ_eq_add_one, later,
          List.idxOf_cons_ne _ (Ne.symm same)]
        simp only [others]
        congr 3
        omega

namespace SuperclassChain

variable {image : Image} {clazz : ClassAddress} {chain : List ClassAddress}

theorem length_le (superclasses : SuperclassChain image clazz chain) :
    chain.length ≤ image.classes.length :=
  superclasses.leads.length_le superclasses.exist

/-- The class at the beginning of a chain, and what follows. -/
theorem cases (superclasses : SuperclassChain image clazz chain) :
    ∃ found above, image.class? clazz = .ok found ∧ chain = clazz :: above ∧
      found.instanceFields = image.fieldsOf clazz ∧
      ((found.superClass = none ∧ above = []) ∨
        ∃ superClass, found.superClass = some superClass ∧
          SuperclassChain image superClass above) := by
  obtain ⟨leads, exist⟩ := superclasses
  have below := exist clazz leads.head_mem
  have there := List.getElem?_eq_getElem below
  have isClass : image.class? clazz = .ok image.classes[clazz] := by
    rw [Image.class?, there]
  have fields : image.classes[clazz].instanceFields = image.fieldsOf clazz := by
    rw [Image.fieldsOf, there]
    rfl
  have parent : image.superClassOf clazz = image.classes[clazz].superClass := by
    rw [Image.superClassOf, there]
    rfl
  cases leads with
  | root noParent => exact ⟨_, _, isClass, rfl, fields, .inl ⟨parent.symm.trans noParent, rfl⟩⟩
  | @up _ above rest isParent leads =>
      refine ⟨_, _, isClass, rfl, fields, .inr ⟨above, parent.symm.trans isParent, leads, ?_⟩⟩
      exact fun address member => exist address (List.mem_cons_of_mem clazz member)

/-- The number of fields is the length of the layout. -/
theorem getNumberOfInstanceFields_eq (rounds : Nat) : ∀ {clazz : ClassAddress} {chain},
    SuperclassChain image clazz chain → chain.length ≤ rounds →
      image.getNumberOfInstanceFields rounds clazz = .ok (image.layout chain).length := by
  induction rounds with
  | zero =>
      intro clazz chain superclasses enough
      obtain ⟨found, above, -, rfl, -⟩ := superclasses.cases
      exact absurd enough (Nat.not_succ_le_zero _)
  | succ rounds inductionHypothesis =>
      intro clazz chain superclasses enough
      obtain ⟨found, above, isClass, rfl, fields, ends⟩ := superclasses.cases
      have inherited : Image.ofSuperClass found (image.getNumberOfInstanceFields rounds) (.ok 0) =
          .ok ((image.layout above).length : Int) := by
        obtain ⟨noSuper, rfl⟩ | ⟨superClass, isSuper, superclasses'⟩ := ends
        · rw [Image.ofSuperClass, noSuper]
          rfl
        · rw [Image.ofSuperClass, isSuper]
          exact inductionHypothesis superclasses' (Nat.le_of_succ_le_succ enough)
      rw [Image.getNumberOfInstanceFields, isClass, Image.layout, List.length_append, ← fields]
      change (do
        let inherited ← Image.ofSuperClass found (image.getNumberOfInstanceFields rounds) (.ok 0)
        pure ((found.instanceFields.length : Int) + inherited)) = _
      rw [inherited, Int.natCast_add, Int.add_comm]
      rfl

/-- What a class on a chain inherits is the layout of the rest of the chain. -/
theorem numberOfSuperInstanceFields_eq {found : VMClass} {above : List ClassAddress}
    {rounds : Nat} (enough : above.length ≤ rounds)
    (ends : (found.superClass = none ∧ above = []) ∨
      ∃ superClass, found.superClass = some superClass ∧
        SuperclassChain image superClass above) :
    image.numberOfSuperInstanceFields rounds found = .ok ((image.layout above).length : Int) := by
  obtain ⟨noSuper, rfl⟩ | ⟨superClass, isSuper, superclasses⟩ := ends
  · rw [Image.numberOfSuperInstanceFields, Image.ofSuperClass, noSuper]
    rfl
  · rw [Image.numberOfSuperInstanceFields, Image.ofSuperClass, isSuper]
    exact getNumberOfInstanceFields_eq rounds superclasses enough

/-- The name of a field is the one at its index in the layout, and every other index runs
into the bounds check of an array. -/
theorem getInstanceFieldName_eq (rounds : Nat) : ∀ {clazz : ClassAddress} {chain},
    SuperclassChain image clazz chain → chain.length ≤ rounds → ∀ index : Nat,
      image.getInstanceFieldName rounds clazz index = fieldAt (image.layout chain) index := by
  induction rounds with
  | zero =>
      intro clazz chain superclasses enough
      obtain ⟨found, above, -, rfl, -⟩ := superclasses.cases
      exact absurd enough (Nat.not_succ_le_zero _)
  | succ rounds inductionHypothesis =>
      intro clazz chain superclasses enough index
      obtain ⟨found, above, isClass, rfl, fields, ends⟩ := superclasses.cases
      have shorter := Nat.le_of_succ_le_succ enough
      have inherited := numberOfSuperInstanceFields_eq shorter ends
      have step : image.getInstanceFieldName (rounds + 1) clazz index =
          if (index : Int) ≥ (image.layout above).length then
            fieldAt found.instanceFields (index - (image.layout above).length)
          else
            Image.ofSuperClass found
              (fun superClass => image.getInstanceFieldName rounds superClass index)
              (.error .undefined) := by
        rw [Image.getInstanceFieldName, isClass]
        change (image.numberOfSuperInstanceFields rounds found >>= _) = _
        rw [inherited]
        rfl
      rw [step, Image.layout, ← fields]
      by_cases own : (index : Int) ≥ (image.layout above).length
      · have position : (index : Int) - (image.layout above).length =
            ((index - (image.layout above).length : Nat) : Int) := by omega
        rw [if_pos own, position]
        unfold fieldAt
        rw [if_neg (by omega), if_neg (by omega), Int.toNat_natCast, Int.toNat_natCast,
          List.getElem?_append_right (by omega)]
      · have atSuper : fieldAt (image.layout above ++ found.instanceFields) index =
            fieldAt (image.layout above) index := by
          unfold fieldAt
          rw [if_neg (by omega), if_neg (by omega), Int.toNat_natCast,
            List.getElem?_append_left (by omega)]
        rw [if_neg own, atSuper]
        obtain ⟨noSuper, rfl⟩ | ⟨superClass, isSuper, superclasses'⟩ := ends
        · exact absurd (Int.natCast_nonneg index) own
        · rw [Image.ofSuperClass, isSuper]
          exact inductionHypothesis superclasses' shorter index

/-- The lookup answers the position of the first field with the name in the layout. -/
theorem lookupFieldIndex_eq (superclasses : SuperclassChain image clazz chain) (name : String) :
    image.lookupFieldIndex clazz name =
      if name ∈ image.layout chain then .ok (((image.layout chain).idxOf name : Nat) : Int)
      else .error .exit := by
  have names := getInstanceFieldName_eq image.classes.length superclasses superclasses.length_le
  have number := getNumberOfInstanceFields_eq image.classes.length superclasses
    superclasses.length_le
  have found := Image.lookupFieldFrom_eq names name (image.layout chain) [] rfl
  rw [List.length_nil, Nat.zero_add] at found
  rw [Image.lookupFieldIndex]
  change (image.getNumberOfInstanceFields image.classes.length clazz >>= _) = _
  rw [number, ← found]
  rfl

/-- The classes from a superclass up are the end of the chain. -/
theorem above (superclasses : SuperclassChain image clazz chain) {superClass : ClassAddress}
    (isAbove : Relation.ReflTransGen (IsParent image.superClassOf) clazz superClass) :
    ∃ before rest, chain = before ++ rest ∧ SuperclassChain image superClass rest := by
  induction isAbove with
  | refl => exact ⟨[], chain, rfl, superclasses⟩
  | tail _ isParent inductionHypothesis =>
      obtain ⟨before, rest, rfl, superclasses'⟩ := inductionHypothesis
      cases superclasses'.leads with
      | root noParent => exact absurd (noParent.symm.trans isParent) (Option.some_ne_none _).symm
      | @up _ parent others isParent' leads =>
          obtain rfl := Option.some.inj (isParent'.symm.trans isParent)
          refine ⟨before ++ [_], others, by rw [List.append_assoc]; rfl, leads, ?_⟩
          exact fun other member => superclasses'.exist other (List.mem_cons_of_mem _ member)

theorem unique (superclasses : SuperclassChain image clazz chain) {others : List ClassAddress}
    (other : SuperclassChain image clazz others) : chain = others :=
  superclasses.leads.unique other.leads

end SuperclassChain

/-- The layout of a superclass is the beginning of the layout of a class. -/
theorem Image.layout_append (image : Image) (before rest : List ClassAddress) :
    image.layout (before ++ rest) = image.layout rest ++ image.layout before := by
  induction before with
  | nil => rw [List.nil_append, layout, List.append_nil]
  | cons address before inductionHypothesis =>
      rw [List.cons_append, layout, layout, inductionHypothesis, List.append_assoc]

/-- In every image that the bootstrap and class loads lead to, every class has a chain. -/
theorem Reachable.superclassChain {path : ClassPath} {image : Image}
    (reachable : Reachable path image) {clazz : ClassAddress}
    (below : clazz < image.classes.length) : ∃ chain, SuperclassChain image clazz chain := by
  have mirrored := (mirrorsRules.reachable reachable).mirrored
  have length : image.hierarchy.links.length = image.classes.length := List.length_map _
  rw [← length] at below
  obtain ⟨chain, leads⟩ := mirrored.exists_chain below
  have exist := leads.forall_mem below mirrored.superClassOf_lt
  rw [length] at exist
  rw [image.superClassOf_hierarchy] at leads
  exact ⟨chain, leads, exist⟩

/-! ### Fields that are declared -/

/-- The class or one above it declares a field with the name. -/
def Image.Declares (image : Image) (clazz : ClassAddress) (name : String) : Prop :=
  ∃ declaring, Relation.ReflTransGen (IsParent image.superClassOf) clazz declaring ∧
    name ∈ image.fieldsOf declaring

theorem SuperclassChain.declares_iff {image : Image} {clazz : ClassAddress}
    {chain : List ClassAddress} (superclasses : SuperclassChain image clazz chain) {name : String} :
    image.Declares clazz name ↔ name ∈ image.layout chain := by
  have reaches : ∀ address, address ∈ chain ↔
      Relation.ReflTransGen (IsParent image.superClassOf) clazz address := by
    intro address
    refine ⟨superclasses.leads.forall_mem .refl (fun reached => reached.tail) address, ?_⟩
    intro isAbove
    obtain ⟨before, rest, rfl, superclasses'⟩ := superclasses.above isAbove
    exact List.mem_append_right before superclasses'.leads.head_mem
  rw [Image.mem_layout]
  simp only [reaches]
  rfl

/-- The index of a declared field is the least one with its name, the same for the class and
every class above that has the field, and one of the slots of an instance. -/
theorem field_layout_stable {image : Image} {clazz : ClassAddress} {chain : List ClassAddress}
    (superclasses : SuperclassChain image clazz chain) {name : String}
    (declared : image.Declares clazz name) {Object : Type} (nilObject : Object) :
    ∃ index : Nat, image.lookupFieldIndex clazz name = .ok (index : Int) ∧
      image.getInstanceFieldName image.classes.length clazz index = .ok name ∧
      (∀ smaller < index, ∃ other,
        image.getInstanceFieldName image.classes.length clazz (smaller : Nat) = .ok other ∧
          other ≠ name) ∧
      (∀ superClass, Relation.ReflTransGen (IsParent image.superClassOf) clazz superClass →
        image.Declares superClass name →
          image.lookupFieldIndex superClass name = .ok (index : Int)) ∧
      (∃ self, newInstance nilObject image clazz = .ok self ∧ index < self.fields.length) ∧
      ∀ self : Instance Object, self.clazz = clazz →
        pushField image self name = self.getField index := by
  have member := superclasses.declares_iff.mp declared
  have inside := List.idxOf_lt_length_of_mem member
  have names := SuperclassChain.getInstanceFieldName_eq image.classes.length superclasses
    superclasses.length_le
  have answered : image.lookupFieldIndex clazz name =
      .ok (((image.layout chain).idxOf name : Nat) : Int) := by
    rw [superclasses.lookupFieldIndex_eq, if_pos member]
  refine ⟨(image.layout chain).idxOf name, answered, ?_, ?_, ?_, ?_, ?_⟩
  · rw [names, fieldAt_of_lt inside, List.getElem_idxOf inside]
  · intro smaller below
    refine ⟨(image.layout chain)[smaller], ?_, ?_⟩
    · rw [names, fieldAt_of_lt (Nat.lt_trans below inside)]
    · intro same
      have least := List.not_of_lt_findIdx below
      rw [same, beq_self_eq_true] at least
      exact Bool.noConfusion least
  · intro superClass isAbove declaredAbove
    obtain ⟨before, rest, rfl, superclasses'⟩ := superclasses.above isAbove
    have memberAbove := superclasses'.declares_iff.mp declaredAbove
    rw [superclasses'.lookupFieldIndex_eq, if_pos memberAbove, Image.layout_append,
      List.idxOf_append_of_mem memberAbove]
  · have number := SuperclassChain.getNumberOfInstanceFields_eq image.classes.length superclasses
      superclasses.length_le
    refine ⟨⟨clazz, List.replicate (image.layout chain).length nilObject⟩, ?_, ?_⟩
    · rw [newInstance, number]
      change Except.ok (⟨clazz, List.replicate
        (((image.layout chain).length : Int) - 1 + 1).toNat nilObject⟩ : Instance Object) = _
      rw [Int.sub_add_cancel, Int.toNat_natCast]
    · rw [List.length_replicate]
      exact inside
  · intro self same
    rw [pushField, same, answered]
    rfl

/-- `Object` with the field of its class, and a subclass that declares two fields, one of
them again. -/
def pointImage : Image where
  classes := [{ clazz := 0, name := "Object", instanceFields := ["class"] },
    { clazz := 0, superClass := some 0, name := "Point", instanceFields := ["x", "class"] }]

theorem pointImage_chain : SuperclassChain pointImage 1 [1, 0] :=
  ⟨.up rfl (.root rfl), by decide⟩

theorem class_field_of_point :
    ∃ index : Nat, pointImage.lookupFieldIndex 1 "class" = .ok (index : Int) ∧
      pointImage.getInstanceFieldName pointImage.classes.length 1 index = .ok "class" ∧
      (∀ smaller < index, ∃ other,
        pointImage.getInstanceFieldName pointImage.classes.length 1 (smaller : Nat) = .ok other ∧
          other ≠ "class") ∧
      (∀ superClass, Relation.ReflTransGen (IsParent pointImage.superClassOf) 1 superClass →
        pointImage.Declares superClass "class" →
          pointImage.lookupFieldIndex superClass "class" = .ok (index : Int)) ∧
      (∃ self, newInstance "nil" pointImage 1 = .ok self ∧ index < self.fields.length) ∧
      ∀ self : Instance String, self.clazz = 1 →
        pushField pointImage self "class" = self.getField index :=
  field_layout_stable pointImage_chain ⟨1, .refl, by decide⟩ "nil"

/-! ### Names that no class declares -/

/-- A name that is no field is answered -1, after no index outside an array of names, and
no slot of an instance is read or written for it. -/
structure UnknownFieldReported (image : Image) (clazz : ClassAddress) (name : String) : Prop where
  answer : image.lookupFieldIndex clazz name = .ok (-1)
  inside : ∀ number, image.getNumberOfInstanceFields image.classes.length clazz = .ok number →
    ∀ index : Nat, index ≤ number →
      image.getInstanceFieldName image.classes.length clazz index ≠ .error .exit
  reads : ∀ (Object : Type) (self : Instance Object) (value : Object), self.clazz = clazz →
    pushField image self name ≠ .ok value
  writes : ∀ (Object : Type) (self changed : Instance Object) (value : Object),
    self.clazz = clazz → popField image self name value = .ok changed → changed = self

/-- No class reports an unknown name so: the search ends the program at the index behind
the last field, before the instance is used. -/
theorem unknown_field_never_reported {image : Image} {clazz : ClassAddress}
    {chain : List ClassAddress} (superclasses : SuperclassChain image clazz chain) {name : String}
    (unknown : ¬ image.Declares clazz name) :
    ¬ UnknownFieldReported image clazz name ∧
      image.lookupFieldIndex clazz name = .error .exit ∧
      ∀ (Object : Type) (self : Instance Object) (value : Object), self.clazz = clazz →
        pushField image self name = .error .exit ∧
          popField image self name value = .error .exit := by
  have missing := (superclasses.declares_iff.not).mp unknown
  have ends : image.lookupFieldIndex clazz name = .error .exit := by
    rw [superclasses.lookupFieldIndex_eq, if_neg missing]
  refine ⟨fun reported => ?_, ends, fun Object self value same => ?_⟩
  · have answer := reported.answer
    rw [ends] at answer
    cases answer
  · rw [pushField, popField, same, ends]
    exact ⟨rfl, rfl⟩

theorem unknown_field_of_point :
    ¬ UnknownFieldReported pointImage 1 "y" ∧
      pointImage.lookupFieldIndex 1 "y" = .error .exit ∧
      ∀ (Object : Type) (self : Instance Object) (value : Object), self.clazz = 1 →
        pushField pointImage self "y" = .error .exit ∧
          popField pointImage self "y" value = .error .exit :=
  unknown_field_never_reported pointImage_chain (pointImage_chain.declares_iff.not.mpr (by decide))

theorem unknown_field_ends_program :
    ¬ ∀ (image : Image) (clazz : ClassAddress) (chain : List ClassAddress) (name : String),
      SuperclassChain image clazz chain → ¬ image.Declares clazz name →
        UnknownFieldReported image clazz name := by
  intro always
  have reported := always pointImage 1 [1, 0] "y" pointImage_chain
    (pointImage_chain.declares_iff.not.mpr (by decide))
  exact absurd reported.answer (by decide)

end Somr.Classes
