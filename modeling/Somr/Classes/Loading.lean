import Somr.Classes.Image

/-!
Owns class loading: how the compiler turns a source into classes, how the
universe looks sources up on the class path, and the bootstrap.

A source is the token stream of a file or of a shell statement. Loading a class
loads its superclass first; the number of loads that may nest is the space on the
C++ stack.
-/

namespace Somr.Classes

open Foundation Compiler Interpreter

abbrev Source := List Token

/-- What class loading finds outside of the program. -/
structure ClassPath where
  /-- The source that each directory has for a class name. -/
  directories : List (String → Option Source)
  /-- Is there a primitive library for the class, with a routine for the signature? -/
  hasRoutine : String → String → Bool
  hasLibrary : String → Bool

/-! ### Compiling a class -/

/-- What `Parser::Classdef` leaves, with or without syntax errors. -/
def parseSource (source : Source) : Compilation :=
  ⟨(Parser.parse source).state.objects, (Parser.parse source).state.classContext⟩

/-- An object of a compilation that is an invokable. -/
def invokable? (compilation : Nat) (objects : List CompiledObject) :
    Literal → Option InvokableAddress
  | .symbol _ => none
  | .object address =>
      match objects[address]? with
      | some (.method _) => some (.code (.compiled compilation address))
      | some (.primitive _) => some (.code (.compiled compilation address))
      | _ => none

/-- `Universe::NewArrayList` of the methods of a generation context. Setting the holder
of anything but an invokable is undefined. -/
def newArrayList (compilation : Nat) (objects : List CompiledObject) (list : List Literal) :
    ClassM (List InvokableAddress) :=
  Process.demand .undefined (list.mapM (invokable? compilation objects))

/-- `ClassGenerationContext::Assemble`. -/
def assemble (loadClass : String → ClassM (Option ClassAddress)) (compilation : Nat)
    (source : Compilation) : ClassM ClassAddress := do
  let cgc := source.classContext
  let ccname := cgc.name ++ " class"
  let superClass ← loadClass cgc.superName
  let image ← Process.read
  let resultClass ← newClass image.metaClassClass
  setInstanceFields resultClass cgc.classFields
  let classMethods ← newArrayList compilation source.objects cgc.classMethods
  setInstanceInvokables resultClass classMethods
  setName resultClass ccname
  let superClass ← Process.demand .undefined superClass
  let superMClass := (← readClass superClass).clazz
  setSuperClass resultClass superMClass
  let result ← newClass resultClass
  setInstanceFields result cgc.instanceFields
  let instanceMethods ← newArrayList compilation source.objects cgc.instanceMethods
  setInstanceInvokables result instanceMethods
  setName result cgc.name
  setSuperClass result superClass
  return result

/-- `ClassGenerationContext::AssembleSystemClass`. -/
def assembleSystemClass (systemClass : ClassAddress) (compilation : Nat) (source : Compilation) :
    ClassM Unit := do
  let cgc := source.classContext
  let instanceMethods ← newArrayList compilation source.objects cgc.instanceMethods
  setInstanceInvokables systemClass instanceMethods
  setInstanceFields systemClass cgc.instanceFields
  let superMClass := (← readClass systemClass).clazz
  let classMethods ← newArrayList compilation source.objects cgc.classMethods
  setInstanceInvokables superMClass classMethods
  setInstanceFields superMClass cgc.classFields

/-- `Universe::NewMethod` stores every method of a compilation under its signature. -/
def storeMethods (compilation : Nat) : (address : Nat) → List CompiledObject → ClassM Unit
  | _, [] => pure ()
  | address, .method method :: objects => do
      setGlobal method.signature (some (.invokable (.code (.compiled compilation address))))
      storeMethods compilation (address + 1) objects
  | address, _ :: objects => storeMethods compilation (address + 1) objects

/-- `SourcecodeCompiler::compile`. -/
def compile (loadClass : String → ClassM (Option ClassAddress))
    (systemClass : Option ClassAddress) (source : Source) : ClassM ClassAddress := do
  let image ← Process.read
  let compilation := image.compilations.length
  let parsed := parseSource source
  Process.modify fun image => { image with compilations := image.compilations ++ [parsed] }
  storeMethods compilation 0 parsed.objects
  match systemClass with
  | none => assemble loadClass compilation parsed
  | some systemClass => do
      assembleSystemClass systemClass compilation parsed
      return systemClass

/-- `SourcecodeCompiler::CompileClass` on one directory. -/
def compileClass (loadClass : String → ClassM (Option ClassAddress))
    (directory : String → Option Source) (file : String) (systemClass : Option ClassAddress) :
    ClassM (Option ClassAddress) := do
  match directory file with
  | none => return none
  | some source => do
      let result ← compile loadClass systemClass source
      let cname := (← readClass result).name
      if file ≠ cname then return none else return some result

/-- `SourcecodeCompiler::CompileClassString`. -/
def compileClassString (loadClass : String → ClassM (Option ClassAddress)) (source : Source) :
    ClassM ClassAddress :=
  compile loadClass none source

/-! ### Loading -/

/-- `VMClass::setPrimitives`. -/
def setPrimitives (path : ClassPath) (cname : String) (address : ClassAddress) : ClassM Unit := do
  let clazz ← readClass address
  let image ← Process.read
  if (clazz.instanceInvokables.filter image.isPrimitive).all fun invokable =>
      ((image.signature? invokable).map (path.hasRoutine cname)).getD false then
    return ()
  else Process.stop .exit

/-- `VMClass::LoadPrimitives`. The routines themselves are not part of the model. -/
def loadPrimitives (path : ClassPath) (address : ClassAddress) : ClassM Unit := do
  let clazz ← readClass address
  if path.hasLibrary clazz.name then do
    setPrimitives path clazz.name address
    setPrimitives path clazz.name clazz.clazz
  else Process.stop .exit

/-- What `LoadClass` and `LoadSystemClass` do with a class they found. -/
def loadPrimitivesIfAny (path : ClassPath) (result : ClassAddress) : ClassM Unit := do
  let metaclass := (← readClass result).clazz
  let instanceSide ← hasPrimitives result
  let classSide ← hasPrimitives metaclass
  if instanceSide || classSide then loadPrimitives path result

/-- `Universe::LoadClassBasic`. -/
def loadClassBasic (loadClass : String → ClassM (Option ClassAddress)) (name : String)
    (systemClass : Option ClassAddress) :
    List (String → Option Source) → ClassM (Option ClassAddress)
  | [] => return none
  | directory :: directories => do
      match ← compileClass loadClass directory name systemClass with
      | some result => return some result
      | none => loadClassBasic loadClass name systemClass directories

/-- `Universe::LoadClass`. -/
def loadClass (path : ClassPath) : (depth : Nat) → String → ClassM (Option ClassAddress)
  | 0, _ => Process.stop .stackOverflow
  | depth + 1, name => do
      let image ← Process.read
      match image.getGlobal name with
      | some (.clazz address) => return some address
      | some _ => return none
      | none => do
          match ← loadClassBasic (loadClass path depth) name none path.directories with
          | none => Process.stop .exit
          | some result => do
              loadPrimitivesIfAny path result
              return some result

/-- `Universe::LoadSystemClass`. -/
def loadSystemClass (path : ClassPath) (depth : Nat) (systemClass : ClassAddress) :
    ClassM Unit := do
  let name := (← readClass systemClass).name
  match ← loadClassBasic (loadClass path depth) name (some systemClass) path.directories with
  | none => Process.stop .exit
  | some result => loadPrimitivesIfAny path result

/-- `Universe::LoadShellClass`. -/
def loadShellClass (path : ClassPath) (depth : Nat) (stmt : Source) : ClassM ClassAddress :=
  compileClassString (loadClass path depth) stmt

/-- `Universe::GetBlockClassWithArgs`. A global that is no class is taken for one. -/
def getBlockClassWithArgs (path : ClassPath) (depth : Nat) (numberOfArguments : Nat) :
    ClassM (Option Global) := do
  let name := "Block" ++ toString numberOfArguments
  let image ← Process.read
  match image.getGlobal name with
  | some found => return some found
  | none => do
      let loaded ← loadClassBasic (loadClass path depth) name none path.directories
      let result ← Process.demand .undefined loaded
      let image ← Process.read
      Process.modify fun image =>
        { image with evaluations := image.evaluations ++ [numberOfArguments] }
      let _ ← addInstanceInvokable result (.evaluation image.evaluations.length)
      setGlobal name (some (.clazz result))
      return some (.clazz result)

/-! ### Bootstrap -/

/-- The system classes, before their sources are read. -/
def newSystemClasses : ClassM (List ClassAddress) := do
  let metaClassClass ← newMetaclassClass
  Process.modify fun image => { image with metaClassClass := metaClassClass }
  let objectClass ← newSystemClass
  let nilClass ← newSystemClass
  let classClass ← newSystemClass
  Process.modify fun image => { image with objectClass := objectClass, classClass := classClass }
  let arrayClass ← newSystemClass
  let symbolClass ← newSystemClass
  let methodClass ← newSystemClass
  let integerClass ← newSystemClass
  let bigIntegerClass ← newSystemClass
  let frameClass ← newSystemClass
  let primitiveClass ← newSystemClass
  let stringClass ← newSystemClass
  let doubleClass ← newSystemClass
  initializeSystemClass objectClass none "Object"
  initializeSystemClass classClass (some objectClass) "Class"
  initializeSystemClass metaClassClass (some classClass) "Metaclass"
  initializeSystemClass nilClass (some objectClass) "Nil"
  initializeSystemClass arrayClass (some objectClass) "Array"
  initializeSystemClass methodClass (some arrayClass) "Method"
  initializeSystemClass symbolClass (some objectClass) "Symbol"
  initializeSystemClass integerClass (some objectClass) "Integer"
  initializeSystemClass bigIntegerClass (some objectClass) "BigInteger"
  initializeSystemClass frameClass (some arrayClass) "Frame"
  initializeSystemClass primitiveClass (some objectClass) "Primitive"
  initializeSystemClass stringClass (some objectClass) "String"
  initializeSystemClass doubleClass (some objectClass) "Double"
  return [objectClass, classClass, metaClassClass, nilClass, arrayClass, methodClass, symbolClass,
    integerClass, bigIntegerClass, frameClass, primitiveClass, stringClass, doubleClass]

/-- The rest of `Universe::InitializeGlobals`, which answers `blockClass` and
`systemClass`. The classes of `true` and `false` have to exist, because instances of
them are made. -/
def loadSystemClasses (path : ClassPath) (depth : Nat) (systemClasses : List ClassAddress) :
    ClassM (Option ClassAddress × Option ClassAddress) := do
  systemClasses.forM (loadSystemClass path depth)
  let blockClass ← loadClass path depth "Block"
  let _ ← Process.demand .undefined (← loadClass path depth "True")
  let _ ← Process.demand .undefined (← loadClass path depth "False")
  let systemClass ← loadClass path depth "System"
  return (blockClass, systemClass)

/-- `Universe::InitializeGlobals`. -/
def initializeGlobals (path : ClassPath) (depth : Nat) :
    ClassM (Option ClassAddress × Option ClassAddress) := do
  let systemClasses ← newSystemClasses
  loadSystemClasses path depth systemClasses

/-- What `Universe::initialize` stores in the dictionary, with an instance of
`systemClass` and the bootstrap method. -/
def storeGlobals (blockClass systemClass : Option ClassAddress) : ClassM Unit := do
  let systemClass ← Process.demand .undefined systemClass
  setGlobal "nil" (some .object)
  setGlobal "true" (some .object)
  setGlobal "false" (some .object)
  setGlobal "system" (some .object)
  setGlobal "System" (some (.clazz systemClass))
  setGlobal "Block" (blockClass.map .clazz)
  setGlobal bootstrapMethod.signature (some (.invokable (.code .bootstrap)))
  setHolder systemClass (.code .bootstrap)

/-- The part of `Universe::initialize` that makes the image. -/
def initializeImage (path : ClassPath) (depth : Nat) : ClassM Unit := do
  let (blockClass, systemClass) ← initializeGlobals path depth
  storeGlobals blockClass systemClass

/-- The images of a program: the bootstrap, then loads of classes in any order. Between
them the program may store any object under any name, as `System>>resolve:` stores the
classes it loads; a class it stores is no metaclass. -/
inductive Reachable (path : ClassPath) : Image → Prop where
  | bootstrap (depth : Nat) : ((initializeImage path depth).run {}).result = .ok () →
      Reachable path ((initializeImage path depth).run {}).state
  | loadClass (depth : Nat) (name : String) {image : Image} {result : Option ClassAddress} :
      Reachable path image → ((loadClass path depth name).run image).result = .ok result →
      Reachable path ((loadClass path depth name).run image).state
  | loadShellClass (depth : Nat) (stmt : Source) {image : Image} {result : ClassAddress} :
      Reachable path image → ((loadShellClass path depth stmt).run image).result = .ok result →
      Reachable path ((loadShellClass path depth stmt).run image).state
  | getBlockClassWithArgs (depth numberOfArguments : Nat) {image : Image}
      {result : Option Global} : Reachable path image →
      ((getBlockClassWithArgs path depth numberOfArguments).run image).result = .ok result →
      Reachable path ((getBlockClassWithArgs path depth numberOfArguments).run image).state
  | setGlobal (name : String) (val : Global) {image : Image} : Reachable path image →
      (∀ address, val = .clazz address → image.IsClass address) →
      Reachable path ((setGlobal name (some val)).run image).state

end Somr.Classes
