import Somr.Foundation.Ancestry
import Somr.Foundation.KeyedEntries
import Somr.Interpreter.Frames
import Somr.Memory.Universe

/-!
Owns the classes of a program: the data of `VMClass`, the holders of invokables,
the global dictionary, and what the universe and the classes do with them.

Classes are named by their positions in a list that only grows, compiled methods
and primitives by their compilation and position there, evaluation primitives by
their number. Symbols are interned, so a symbol is its text.
-/

namespace Somr.Classes

open Foundation Compiler Interpreter

/-! ### Data -/

abbrev ClassAddress := Nat

/-- A `VMInvokable`. The object of a compilation is a method or a primitive. -/
inductive InvokableAddress where
  | code (address : MethodAddress)
  | evaluation (address : Nat)
deriving DecidableEq, Repr

/-- A `VMClass`; `none` is `nilObject`. The other fields are not read before they
are set. -/
structure VMClass where
  clazz : ClassAddress
  superClass : Option ClassAddress := none
  name : String := ""
  instanceFields : List String := []
  instanceInvokables : List InvokableAddress := []
deriving DecidableEq, Repr

/-- What a name of the global dictionary stands for. -/
inductive Global where
  | clazz (address : ClassAddress)
  | invokable (address : InvokableAddress)
  | object
deriving DecidableEq, Repr

/-- The part of the heap and of the universe that class loading works on. -/
structure Image where
  classes : List VMClass := []
  /-- What the compiled class definitions left, in the order of their compilation. -/
  compilations : List Compilation := []
  /-- The numbers of arguments of the evaluation primitives. -/
  evaluations : List Nat := []
  holders : List (InvokableAddress × ClassAddress) := []
  /-- The root table; `none` is a null pointer. -/
  globals : List (String × Option Global) := []
  metaClassClass : ClassAddress := 0
  objectClass : ClassAddress := 0
  classClass : ClassAddress := 0

abbrev ClassM := Process Empty Halt Image

/-! ### Reading an image -/

namespace Image

/-- `Universe::HasGlobal`, which answers the object. -/
def getGlobal (image : Image) (name : String) : Option Global :=
  (valueOf (fun a b => a == b) name image.globals).join

/-- The class of a class. -/
def classOf (image : Image) (address : ClassAddress) : Option ClassAddress :=
  (image.classes[address]?).map VMClass.clazz

/-- There is a class at the address, and it is no metaclass. -/
def IsClass (image : Image) (address : ClassAddress) : Prop :=
  ∃ clazz, image.classOf address = some clazz ∧ clazz ≠ image.metaClassClass

/-- `VMClass::GetSuperClass`. -/
def superClassOf (image : Image) (address : ClassAddress) : Option ClassAddress :=
  (image.classes[address]?).bind VMClass.superClass

def invokablesOf (image : Image) (address : ClassAddress) : List InvokableAddress :=
  ((image.classes[address]?).map VMClass.instanceInvokables).getD []

/-- The object of a compilation. -/
def object? (image : Image) (compilation address : Nat) : Option CompiledObject :=
  (image.compilations[compilation]?).bind fun source => source.objects[address]?

/-- `VMInvokable::GetSignature`. -/
def signature? (image : Image) : InvokableAddress → Option String
  | .code .bootstrap => some bootstrapMethod.signature
  | .code (.compiled compilation address) =>
      match image.object? compilation address with
      | some (.method method) => some method.signature
      | some (.primitive signature) => some signature
      | _ => none
  | .evaluation address => (image.evaluations[address]?).map Memory.Construct.computeSignatureString

/-- `VMInvokable::IsPrimitive`. -/
def isPrimitive (image : Image) : InvokableAddress → Bool
  | .code .bootstrap => false
  | .code (.compiled compilation address) =>
      match image.object? compilation address with
      | some (.primitive _) => true
      | _ => false
  | .evaluation _ => true

/-- `VMInvokable::GetHolder`. -/
def getHolder (image : Image) (invokable : InvokableAddress) : Option ClassAddress :=
  valueOf (fun a b => a == b) invokable image.holders

/-- The loop of `VMClass::LookupInvokable` over the invokables of one class. -/
def ownInvokable (image : Image) (name : String) (address : ClassAddress) :
    Option InvokableAddress :=
  (image.invokablesOf address).find? fun invokable => image.signature? invokable == some name

/-- `VMClass::LookupInvokable`, whose recursion goes on in the superclass; no answer
if it goes on for more rounds. -/
def lookupInvokable (image : Image) : (rounds : Nat) → ClassAddress → String →
    Option (Option InvokableAddress)
  | 0, _, _ => none
  | rounds + 1, address, name =>
      match image.ownInvokable name address with
      | some invokable => some (some invokable)
      | none =>
          match image.superClassOf address with
          | none => some none
          | some superClass => lookupInvokable image rounds superClass name

theorem lookupInvokable_eq (image : Image) (rounds : Nat) (address : ClassAddress)
    (name : String) : image.lookupInvokable rounds address name =
      searchUp image.superClassOf (image.ownInvokable name) rounds address := by
  induction rounds generalizing address with
  | zero => rfl
  | succ rounds inductionHypothesis =>
      rw [lookupInvokable, searchUp]
      simp only [inductionHypothesis]
      cases image.ownInvokable name address with
      | some invokable => rfl
      | none => cases image.superClassOf address <;> rfl

end Image

/-! ### Classes -/

def readClass (address : ClassAddress) : ClassM VMClass := do
  let image ← Process.read
  Process.demand .undefined image.classes[address]?

def changeClass (address : ClassAddress) (change : VMClass → VMClass) : ClassM Unit :=
  Process.modify fun image => { image with classes := image.classes.modify address change }

def setSuperClass (address superClass : ClassAddress) : ClassM Unit :=
  changeClass address fun clazz => { clazz with superClass := some superClass }

def setName (address : ClassAddress) (name : String) : ClassM Unit :=
  changeClass address fun clazz => { clazz with name := name }

def setInstanceFields (address : ClassAddress) (fields : List String) : ClassM Unit :=
  changeClass address fun clazz => { clazz with instanceFields := fields }

/-- `VMInvokable::SetHolder`. -/
def setHolder (holder : ClassAddress) (invokable : InvokableAddress) : ClassM Unit :=
  Process.modify fun image =>
    { image with holders := assign (fun a b => a == b) invokable holder image.holders }

/-- `VMClass::SetInstanceInvokables`. -/
def setInstanceInvokables (address : ClassAddress) (invokables : List InvokableAddress) :
    ClassM Unit := do
  changeClass address fun clazz => { clazz with instanceInvokables := invokables }
  invokables.forM (setHolder address)

/-- `VMClass::SetInstanceInvokable`. -/
def setInstanceInvokable (address : ClassAddress) (index : Nat) (invokable : InvokableAddress) :
    ClassM Unit := do
  changeClass address fun clazz =>
    { clazz with instanceInvokables := clazz.instanceInvokables.set index invokable }
  setHolder address invokable

/-- `VMClass::AddInstanceInvokable`. A new invokable gets no holder. -/
def addInstanceInvokable (address : ClassAddress) (newInvokable : InvokableAddress) :
    ClassM Bool := do
  let image ← Process.read
  let clazz ← readClass address
  match clazz.instanceInvokables.findIdx? fun inv =>
      image.signature? newInvokable == image.signature? inv with
  | some index => do
      setInstanceInvokable address index newInvokable
      return false
  | none => do
      changeClass address fun clazz =>
        { clazz with instanceInvokables := clazz.instanceInvokables ++ [newInvokable] }
      return true

/-- `VMClass::HasPrimitives`. -/
def hasPrimitives (address : ClassAddress) : ClassM Bool := do
  let clazz ← readClass address
  let image ← Process.read
  return clazz.instanceInvokables.any image.isPrimitive

/-! ### The universe -/

/-- `Universe::SetGlobal`. -/
def setGlobal (name : String) (val : Option Global) : ClassM Unit :=
  Process.modify fun image =>
    { image with globals := assign (fun a b => a == b) name val image.globals }

/-- `Universe::NewClass`. The slots for the fields of the class side are not part of
the model. -/
def newClass (classOfClass : ClassAddress) : ClassM ClassAddress := do
  let image ← Process.read
  let result := image.classes.length
  Process.modify fun image => { image with classes := image.classes ++ [{ clazz := classOfClass }] }
  setGlobal "NewClass" (some (.clazz result))
  return result

/-- `Universe::NewMetaclassClass`: a class and its class, which are the class of each
other. -/
def newMetaclassClass : ClassM ClassAddress := do
  let image ← Process.read
  let result := image.classes.length
  let mclass := result + 1
  Process.modify fun image =>
    { image with classes := image.classes ++ [{ clazz := mclass }, { clazz := result }] }
  return result

/-- `Universe::NewSystemClass`. -/
def newSystemClass : ClassM ClassAddress := do
  let image ← Process.read
  let systemClass := image.classes.length
  let mclass := systemClass + 1
  Process.modify fun image =>
    { image with
      classes := image.classes ++ [{ clazz := mclass }, { clazz := image.metaClassClass }] }
  setGlobal "SystemClass" (some (.clazz systemClass))
  return systemClass

/-- `Universe::InitializeSystemClass`. -/
def initializeSystemClass (systemClass : ClassAddress) (superClass : Option ClassAddress)
    (name : String) : ClassM Unit := do
  let sysClassClass := (← readClass systemClass).clazz
  match superClass with
  | some superClass => do
      setSuperClass systemClass superClass
      let superClassClass := (← readClass superClass).clazz
      setSuperClass sysClassClass superClassClass
  | none => do
      let image ← Process.read
      setSuperClass sysClassClass image.classClass
  setInstanceFields systemClass []
  setInstanceFields sysClassClass []
  setInstanceInvokables systemClass []
  setInstanceInvokables sysClassClass []
  setName systemClass name
  setName sysClassClass (name ++ " class")
  setGlobal name (some (.clazz systemClass))

end Somr.Classes
