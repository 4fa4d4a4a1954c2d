import Somr.Classes.Holders
import Somr.Classes.Metaclasses
import Somr.Interpreter.Growth
import Somr.Interpreter.NotUnderstood

/-!
Owns the lookup of super sends: that it starts behind the class that defines the
method whose activation, or the activation of whose blocks, executes the send.

The contexts of a frame lead to a frame of a method that a class has, and every
method or block on the way is made by the code of the one outside of it. A block
belongs to one method only, so this is the method around the running code, and its
holder is the class that defines it.
-/

namespace Somr.Classes

open Foundation Compiler Interpreter

variable {path : ClassPath} {image : Image}

/-! ### The lookup in the classes -/

/-- The lookup of `Interpreter::doSuperSend`, from the method of the outermost context.
No answer where there is no holder, or no class above it. -/
def Image.lookupSuper (image : Image) (realMethod : MethodAddress) (signature : String) :
    Option (Option InvokableAddress) := do
  let holder ← image.getHolder (.code realMethod)
  let superClass ← image.superClassOf holder
  image.lookupInvokable image.classes.length superClass signature

theorem superClassOf_chain (reachable : Reachable path image) {clazz superClass : ClassAddress}
    (isSuper : image.superClassOf clazz = some superClass) :
    ∃ ancestors, Chain image.superClassOf superClass ancestors ∧
      ancestors.length ≤ image.classes.length := by
  have mirrored := (mirrorsRules.reachable reachable).mirrored
  have length : image.hierarchy.links.length = image.classes.length := List.length_map _
  have below : clazz < image.hierarchy.links.length := by
    rw [Image.superClassOf, Option.bind_eq_some_iff] at isSuper
    obtain ⟨found, there, -⟩ := isSuper
    rw [length]
    exact (List.getElem?_eq_some_iff.mp there).1
  rw [← image.superClassOf_hierarchy] at isSuper ⊢
  have above := mirrored.superClassOf_lt below isSuper
  obtain ⟨ancestors, chain⟩ := mirrored.exists_chain above
  have fits := chain.length_le (chain.forall_mem above mirrored.superClassOf_lt)
  exact ⟨ancestors, chain, length ▸ fits⟩

/-- The lookup finds the first method with the selector above the class that defines
the method. -/
theorem lookupSuper_eq (reachable : Reachable path image) {clazz superClass : ClassAddress}
    {method : MethodAddress} (defines : image.Defines clazz method)
    (isSuper : image.superClassOf clazz = some superClass) (signature : String) :
    ∃ ancestors, Chain image.superClassOf superClass ancestors ∧
      image.lookupSuper method signature =
        some (ancestors.findSome? (image.ownInvokable signature)) := by
  obtain ⟨ancestors, chain, fits⟩ := superClassOf_chain reachable isSuper
  refine ⟨ancestors, chain, ?_⟩
  have holder := holder_of_defines reachable defines
  rw [Image.lookupSuper, holder, Option.bind_eq_bind, Option.bind_some, isSuper,
    Option.bind_some, Image.lookupInvokable_eq, chain.searchUp_eq _ fits]

theorem mem_invokablesOf {address : ClassAddress} {invokable : InvokableAddress}
    (member : invokable ∈ image.invokablesOf address) :
    ∃ clazz, image.classes[address]? = some clazz ∧ invokable ∈ clazz.instanceInvokables := by
  rw [Image.invokablesOf] at member
  cases found : image.classes[address]? with
  | none =>
      rw [found] at member
      exact nomatch member
  | some clazz =>
      rw [found] at member
      exact ⟨clazz, rfl, member⟩

end Somr.Classes

namespace Somr.Interpreter

open Foundation Compiler

/-! ### Running over the classes -/

/-- What the program holds, where its classes are those of an image. -/
structure ClassWorld (path : Classes.ClassPath) (compilations : List Compilation)
    (Rest : Type) where
  image : Classes.Image
  reachable : Classes.Reachable path image
  /-- The compilations of the program are those made so far and those still to come. -/
  loaded : image.compilations <+: compilations
  rest : Rest

section

variable {path : Classes.ClassPath} {compilations : List Compilation} {Rest World Object : Type}

/-- The routine of a primitive. -/
abbrev Routine (World Object : Type) : Type :=
  Nat → Program (PrimitiveOperation World Object) PrimitiveOperation.Answer Unit

/-- The `operator()` of an invokable of the classes. -/
def invokableOf (compilations : List Compilation) (routine : MethodAddress → Routine World Object)
    (image : Classes.Image) :
    Classes.InvokableAddress → Option (Invokable compilations World Object)
  | .code .bootstrap => none
  | .code (.compiled compilation address) =>
      match compiled : compilations[compilation]? with
      | none => none
      | some source =>
          match source.objects[address]? with
          | some (.method _) =>
              if installed : source.classContext.Installs address then
                some (.method ⟨compilation, address, source, compiled, installed⟩)
              else none
          | some (.primitive _) => some (.primitive (routine (.compiled compilation address)))
          | _ => none
  | .evaluation address => (image.evaluations[address]?).map .evaluation

/-- The image with the super lookup of the classes. -/
def Image.overClasses (image : Image compilations (ClassWorld path compilations Rest) Object)
    (routine : MethodAddress → Routine (ClassWorld path compilations Rest) Object) :
    Image compilations (ClassWorld path compilations Rest) Object :=
  { image with
    lookupSuper := fun state method name =>
      (state.world.image.lookupSuper method name).join.bind
        (invokableOf compilations routine state.world.image) }

/-! ### Blocks and the code that makes them -/

/-- The code of the first method object makes blocks of the second. -/
def Makes (compilations : List Compilation) (outer inner : MethodAddress) : Prop :=
  ∃ compilation position address code, outer = .compiled compilation position ∧
    inner = .compiled compilation address ∧ methodAt compilations outer = some code ∧
    .object address ∈ code.literals

/-- A method, or a block nested in it at any depth. -/
def NestedIn (compilations : List Compilation) (method inner : MethodAddress) : Prop :=
  Relation.ReflTransGen (Makes compilations) method inner

/-- The method object is one that a frame without a context may have. -/
def IsMethod (compilations : List Compilation) (method : MethodAddress) : Prop :=
  method = .bootstrap ∨ ∃ installed : InstalledMethod compilations, installed.method = method

/-- The context is a frame whose code makes blocks of the method object; without a
context it is a method. -/
def Around (compilations : List Compilation) (shapes : List Shape) (method : MethodAddress) :
    Option Nat → Prop
  | none => IsMethod compilations method
  | some context => ∃ outer, shapes[context]? = some outer ∧ Makes compilations outer.method method

/-- Every frame has an older one around it, unless it is one of a method. -/
structure Enclosed (compilations : List Compilation) (layout : Layout) : Prop where
  shapes : ∀ index shape, layout.shapes[index]? = some shape →
    Around compilations (layout.shapes.take index) shape.method shape.context
  blocks : ∀ block ∈ layout.blocks,
    Around compilations layout.shapes block.method (some block.context)

theorem Around.append {shapes : List Shape} {method : MethodAddress} {context : Option Nat}
    (around : Around compilations shapes method context) (more : List Shape) :
    Around compilations (shapes ++ more) method context := by
  cases context with
  | none => exact around
  | some context =>
      obtain ⟨outer, found, makes⟩ := around
      have below := (List.getElem?_eq_some_iff.mp found).1
      exact ⟨outer, (List.getElem?_append_left below).trans found, makes⟩

/-- One more frame. -/
theorem Enclosed.push {shapes : List Shape} {blocks : List Block} {shape : Shape}
    (enclosed : Enclosed compilations ⟨shapes, blocks⟩)
    (last : Around compilations shapes shape.method shape.context) :
    Enclosed compilations ⟨shapes ++ [shape], blocks⟩ := by
  constructor
  · intro index other found
    dsimp only at found ⊢
    rcases Nat.lt_or_ge index shapes.length with below | above
    · rw [List.getElem?_append_left below] at found
      rw [List.take_append_of_le_length (Nat.le_of_lt below)]
      exact enclosed.shapes index other found
    · have inside := (List.getElem?_eq_some_iff.mp found).1
      rw [List.length_append, List.length_singleton] at inside
      obtain rfl : index = shapes.length := by omega
      rw [List.getElem?_concat_length] at found
      obtain rfl := Option.some.inj found
      rw [List.take_left]
      exact last
  · intro block member
    exact (enclosed.blocks block member).append [shape]

theorem Grown.enclosed {layout : Layout} (grown : Grown compilations layout) :
    Enclosed compilations layout := by
  induction grown with
  | empty =>
      constructor
      · exact fun _ _ found => nomatch found
      · exact fun _ member => nomatch member
  | bootstrap _ entered enclosed =>
      apply enclosed.push
      rw [entered.ofMethod, entered.ofContext]
      exact .inl rfl
  | method installed _ entered enclosed =>
      apply enclosed.push
      rw [entered.ofMethod, entered.ofContext]
      exact .inr ⟨installed, rfl⟩
  | evaluation _ member entered enclosed =>
      apply enclosed.push
      rw [entered.ofMethod, entered.ofContext]
      exact enclosed.blocks _ member
  | @larger shapes blocks shape size _ member _ enclosed =>
      apply enclosed.push
      obtain ⟨index, found⟩ := List.getElem?_of_mem member
      have around := (enclosed.shapes index shape found).append (shapes.drop index)
      rw [List.take_append_drop] at around
      exact around
  | block _ there method isCode literal _ enclosed =>
      refine Enclosed.mk enclosed.shapes fun block member => ?_
      rcases List.mem_append.mp member with isOld | isNew
      · exact enclosed.blocks block isOld
      · obtain rfl := List.mem_singleton.mp isNew
        exact ⟨_, there, _, _, _, _, method, rfl, method ▸ isCode, literal⟩

/-! ### The outermost context -/

theorem getOuterContextFrom_run {state : State World Object}
    (enclosed : Enclosed compilations state.layout) (address : Nat) :
    ∀ frame, state.frames[address]? = some frame → ∀ rounds, address < rounds →
      ∃ home ctxt, (getOuterContextFrom rounds address).run state = ⟨.ok home, state, []⟩ ∧
        state.frames[home]? = some ctxt ∧ IsMethod compilations ctxt.method ∧
        NestedIn compilations ctxt.method frame.method := by
  induction address using Nat.strongRecOn with
  | ind address inductionHypothesis =>
      intro frame found rounds enough
      obtain ⟨rounds, rfl⟩ := Nat.exists_eq_succ_of_ne_zero (Nat.ne_zero_of_lt enough)
      have around := enclosed.shapes address frame.shape (getElem?_shapes found)
      rw [getOuterContextFrom, Process.bind_of_silent (readFrame_run found)]
      cases isContext : frame.context with
      | none =>
          rw [show frame.shape.context = none from isContext] at around
          exact ⟨address, frame, rfl, found, around, .refl⟩
      | some context =>
          rw [show frame.shape.context = some context from isContext] at around
          obtain ⟨outer, isOuter, makes⟩ := around
          rw [List.getElem?_take] at isOuter
          split at isOuter
          · next older =>
              rw [State.layout, List.getElem?_map, Option.map_eq_some_iff] at isOuter
              obtain ⟨outerFrame, there, rfl⟩ := isOuter
              obtain ⟨home, ctxt, runs, isHome, isMethod, nested⟩ :=
                inductionHypothesis context older outerFrame there rounds (by omega)
              exact ⟨home, ctxt, runs, isHome, isMethod, nested.tail makes⟩
          · exact absurd isOuter (Option.some_ne_none _).symm

/-- The contexts of a frame lead to a frame of the method around its code. -/
theorem getOuterContext_run {state : State World Object}
    (enclosed : Enclosed compilations state.layout) {address : Nat} {frame : Frame Object}
    (found : state.frames[address]? = some frame) :
    ∃ home ctxt, (getOuterContext address).run state = ⟨.ok home, state, []⟩ ∧
      state.frames[home]? = some ctxt ∧ IsMethod compilations ctxt.method ∧
      NestedIn compilations ctxt.method frame.method := by
  have below := (List.getElem?_eq_some_iff.mp found).1
  rw [getOuterContext, Process.bind_of_silent (Process.run_read state)]
  exact getOuterContextFrom_run enclosed address frame found _ (Nat.lt_succ_of_lt below)

theorem layout_put {state : State World Object} {address : Nat} {frame other : Frame Object}
    (found : state.frames[address]? = some frame) (same : other.shape = frame.shape) :
    (state.put address other).layout = state.layout := by
  obtain ⟨below, isFrame⟩ := List.getElem?_eq_some_iff.mp found
  have unchanged : (state.frames.map Frame.shape).set address frame.shape =
      state.frames.map Frame.shape := by
    rw [← isFrame, ← List.map_set, List.set_getElem_self]
  rw [State.layout, State.put, State.layout]
  dsimp only
  rw [List.map_set, same, unchanged]

/-! ### One method around -/

section

variable {compilation : Nat} {source : Compilation}
  (compiled : compilations[compilation]? = some source)
  (separated : Parser.Separated source.objects source.classContext)

theorem Makes.sameCompilation {outer inner : MethodAddress} (makes : Makes compilations outer inner)
    {address : Nat} (isInner : inner = .compiled compilation address) :
    ∃ position code, outer = .compiled compilation position ∧
      methodAt compilations outer = some code ∧ .object address ∈ code.literals := by
  obtain ⟨other, position, address', code, isOuter, isInner', isCode, literal⟩ := makes
  obtain ⟨rfl, rfl⟩ := MethodAddress.compiled.inj (isInner.symm.trans isInner')
  exact ⟨position, code, isOuter, isCode, literal⟩

/-- What a method contains is of the same compilation. -/
theorem NestedIn.sameCompilation {method inner : MethodAddress}
    (nested : NestedIn compilations method inner) {address : Nat}
    (isMethod : method = .compiled compilation address) :
    ∃ address, inner = .compiled compilation address := by
  induction nested with
  | refl => exact ⟨address, isMethod⟩
  | tail _ makes inductionHypothesis =>
      obtain ⟨other, position, address', code, isOuter, isInner, -⟩ := makes
      obtain ⟨middle, isMiddle⟩ := inductionHypothesis
      obtain ⟨rfl, -⟩ := MethodAddress.compiled.inj (isMiddle.symm.trans isOuter)
      exact ⟨address', isInner⟩

include compiled separated

/-- The code of one method object only makes a block. -/
theorem Makes.unique {outer other : MethodAddress} {address : Nat}
    (makes : Makes compilations outer (.compiled compilation address))
    (makes' : Makes compilations other (.compiled compilation address)) : outer = other := by
  obtain ⟨first, code, rfl, isCode, literal⟩ := makes.sameCompilation rfl
  obtain ⟨second, code', rfl, isCode', literal'⟩ := makes'.sameCompilation rfl
  have same := separated.tables (object_of_methodAt compiled isCode)
    (object_of_methodAt compiled isCode') literal literal'
  rw [same]

/-- A method of the class is no block. -/
theorem not_makes_installed {outer : MethodAddress} {address : Nat}
    (installs : source.classContext.Installs address) :
    ¬ Makes compilations outer (.compiled compilation address) := by
  intro makes
  obtain ⟨position, code, rfl, isCode, literal⟩ := makes.sameCompilation rfl
  have apart := separated.installed (object_of_methodAt compiled isCode) literal
  exact apart (List.mem_append.mpr installs)

theorem IsMethod.not_makes {outer : MethodAddress} {address : Nat}
    (isMethod : IsMethod compilations (.compiled compilation address)) :
    ¬ Makes compilations outer (.compiled compilation address) := by
  rcases isMethod with isBootstrap | ⟨installed, same⟩
  · exact nomatch isBootstrap
  · obtain ⟨rfl, rfl⟩ := MethodAddress.compiled.inj same
    obtain rfl := Option.some.inj (compiled.symm.trans installed.compiled)
    exact not_makes_installed compiled separated installed.installed

/-- A method object is nested in one method only. -/
theorem NestedIn.unique {method other inner : MethodAddress} {address : Nat}
    (isMethod : method = .compiled compilation address)
    (installs : source.classContext.Installs address) (isOther : IsMethod compilations other)
    (nested : NestedIn compilations method inner) (nested' : NestedIn compilations other inner) :
    other = method := by
  induction nested with
  | refl =>
      subst isMethod
      rcases nested'.cases_tail with same | ⟨outer, -, makes⟩
      · exact same.symm
      · exact absurd makes (not_makes_installed compiled separated installs)
  | @tail middle inner nested makes inductionHypothesis =>
      obtain ⟨position, rfl⟩ := NestedIn.sameCompilation (nested.tail makes) isMethod
      rcases nested'.cases_tail with same | ⟨outer, nested', makes'⟩
      · exact absurd makes ((same ▸ isOther).not_makes compiled separated)
      · rw [makes'.unique compiled separated makes] at nested'
        exact inductionHypothesis nested'

end

/-! ### Super sends -/

theorem getElem?_loaded (world : ClassWorld path compilations Rest) {compilation : Nat}
    {source : Compilation} (found : world.image.compilations[compilation]? = some source) :
    compilations[compilation]? = some source := by
  obtain ⟨below, rfl⟩ := List.getElem?_eq_some_iff.mp found
  exact List.prefix_iff_getElem?.mp world.loaded compilation below

variable (image : Image compilations (ClassWorld path compilations Rest) Object)
  (routine : MethodAddress → Routine (ClassWorld path compilations Rest) Object)

/-- What a class has under a selector can be run. -/
theorem exists_invokableOf (world : ClassWorld path compilations Rest) {signature : String}
    {address : Classes.ClassAddress} {found : Classes.InvokableAddress}
    (own : world.image.ownInvokable signature address = some found) :
    ∃ invokable, invokableOf compilations routine world.image found = some invokable := by
  have member := Classes.mem_invokablesOf (List.mem_of_find?_eq_some own)
  have named : world.image.signature? found = some signature := by
    simpa using List.find?_some own
  cases found with
  | evaluation number =>
      rw [Classes.Image.signature?, Option.map_eq_some_iff] at named
      obtain ⟨argc, there, -⟩ := named
      exact ⟨.evaluation argc, by rw [invokableOf, there]; rfl⟩
  | code method =>
      have held := Classes.heldRules.reachable world.reachable
      obtain ⟨compilation, position, source, rfl, isSource, installs⟩ := held.installed member
      have compiled := getElem?_loaded world isSource
      rw [Classes.Image.signature?, Classes.Image.object?, isSource, Option.bind_some] at named
      rw [invokableOf]
      split
      · next absent => exact absurd (absent.symm.trans compiled) (Option.some_ne_none _).symm
      · next other there =>
          obtain rfl := Option.some.inj (there.symm.trans compiled)
          split
          · rw [dif_pos installs]
            exact ⟨_, rfl⟩
          · exact ⟨_, rfl⟩
          · next noMethod noPrimitive =>
              split at named
              · next method isMethod => exact absurd isMethod (noMethod method)
              · next text isPrimitive => exact absurd isPrimitive (noPrimitive text)
              · exact absurd named (Option.some_ne_none _).symm

/-- A super send in an activation of a method, or of a block nested in it, runs the
first invokable with the selector above the class that defines the method. -/
theorem superSend_run {world : ClassWorld path compilations Rest}
    {state : State (ClassWorld path compilations Rest) Object}
    (reachable : Reachable (image.overClasses routine) world state)
    {clazz superClass : Classes.ClassAddress} {method : MethodAddress}
    (defines : state.world.image.Defines clazz method)
    (isSuper : state.world.image.superClassOf clazz = some superClass)
    {address : Nat} {frame : Frame Object} {signature : String}
    (atSend : AtSend compilations state address frame true signature)
    (nested : NestedIn compilations method frame.method) :
    ∃ ancestors, Chain state.world.image.superClassOf superClass ancestors ∧
      (∀ found, ancestors.findSome? (state.world.image.ownInvokable signature) = some found →
        ∃ invokable, invokableOf compilations routine state.world.image found = some invokable ∧
          (round (image.overClasses routine)).run state =
            (invoke (image.overClasses routine) invokable address).run
              (state.put address frame.behindSend)) ∧
      (ancestors.findSome? (state.world.image.ownInvokable signature) = none →
        (round (image.overClasses routine)).run state =
          (notUnderstood (image.overClasses routine) false signature >>=
            invokeTarget (image.overClasses routine)).run (state.put address frame.behindSend)) := by
  have executing := State.put_found atSend.found frame.behindSend
  have enclosed : Enclosed compilations (state.put address frame.behindSend).layout := by
    have same : (state.put address frame.behindSend).layout = state.layout :=
      layout_put atSend.found rfl
    rw [same]
    exact (grown_of_reachable reachable).enclosed
  obtain ⟨home, ctxt, outer, there, isMethod, around⟩ := getOuterContext_run enclosed executing
  have held := Classes.heldRules.reachable state.world.reachable
  obtain ⟨compilation, position, source, isCode, isSource, installs⟩ := held.installed defines
  obtain ⟨text, rfl⟩ := held.parsed source (List.mem_of_getElem? isSource)
  have compiled := getElem?_loaded state.world isSource
  have same : ctxt.method = method :=
    nested.unique compiled (Parser.separated_parse text) isCode installs isMethod around
  obtain ⟨ancestors, chain, lookup⟩ :=
    Classes.lookupSuper_eq state.world.reachable defines isSuper signature
  have isLookup : (image.overClasses routine).lookupSuper (state.put address frame.behindSend)
      ctxt.method signature =
        (ancestors.findSome? (state.world.image.ownInvokable signature)).bind
          (invokableOf compilations routine state.world.image) := by
    rw [same, Image.overClasses]
    dsimp only
    rw [show (state.put address frame.behindSend).world = state.world from rfl, lookup]
    rfl
  have runs := @round_superSend _ _ _ (image.overClasses routine) _ _ _ _ atSend _ _ outer there
  rw [isLookup] at runs
  refine ⟨ancestors, chain, fun found isFirst => ?_, fun nothing => ?_⟩
  · obtain ⟨clazz', -, own⟩ := List.exists_of_findSome?_eq_some isFirst
    obtain ⟨invokable, isInvokable⟩ := exists_invokableOf routine state.world own
    refine ⟨invokable, isInvokable, ?_⟩
    rw [runs, isFirst, Option.bind_some, isInvokable]
    rfl
  · rw [runs, nothing]
    rfl

end

/-! ### A super send in a block -/

/-- `Super = ( foo = ( ^ self ) )`. -/
def superSource : Classes.Source :=
  [⟨.identifier, "Super"⟩, ⟨.equal, "="⟩, ⟨.newTerm, "("⟩, ⟨.identifier, "foo"⟩, ⟨.equal, "="⟩,
    ⟨.newTerm, "("⟩, ⟨.exit, "^"⟩, ⟨.identifier, "self"⟩, ⟨.endTerm, ")"⟩, ⟨.endTerm, ")"⟩]

/-- `Sub = Super ( run: x = ( ^ [ super foo ] value ) )`. -/
def subSource : Classes.Source :=
  [⟨.identifier, "Sub"⟩, ⟨.equal, "="⟩, ⟨.identifier, "Super"⟩, ⟨.newTerm, "("⟩,
    ⟨.keyword, "run:"⟩, ⟨.identifier, "x"⟩, ⟨.equal, "="⟩, ⟨.newTerm, "("⟩, ⟨.exit, "^"⟩,
    ⟨.newBlock, "["⟩, ⟨.identifier, "super"⟩, ⟨.identifier, "foo"⟩, ⟨.endBlock, "]"⟩,
    ⟨.identifier, "value"⟩, ⟨.endTerm, ")"⟩, ⟨.endTerm, ")"⟩]

def superPath : Classes.ClassPath where
  directories := [fun name =>
    if name = "Super" then some superSource
    else if name = "Sub" then some subSource
    else some (Classes.emptySource name)]
  hasRoutine _ _ := false
  hasLibrary _ := false

/-- The image with the classes `Sub`, at 37, and `Super`, at 35. -/
def subImage : Classes.Image :=
  ((Classes.loadClass superPath 3 "Sub").run
    ((Classes.initializeImage superPath 3).run {}).state).state

theorem subImage_reachable : Classes.Reachable superPath subImage := by
  have ends : ((Classes.loadClass superPath 3 "Sub").run
      ((Classes.initializeImage superPath 3).run {}).state).result = .ok (some 37) := by
    decide +kernel
  exact .loadClass 3 "Sub" (.bootstrap 3 (by decide +kernel)) ends

def subWorld : ClassWorld superPath subImage.compilations Unit :=
  ⟨subImage, subImage_reachable, List.prefix_refl _, ()⟩

/-- `Sub>>run:`. -/
def runMethod : InstalledMethod subImage.compilations where
  compilation := 17
  address := 1
  source := (subImage.compilations[17]?).get (by decide +kernel)
  compiled := (Option.some_get _).symm
  installed := by decide +kernel

/-- Every object answers every message with `Sub>>run:`, and every block with its value. -/
def subProgram : Image subImage.compilations (ClassWorld superPath subImage.compilations Unit)
    Unit where
  nilObject := ()
  system := ()
  stackDepth := 1
  constant _ _ := .object ()
  symbol _ := .object ()
  lookupInvokable _ receiver _ :=
    match receiver with
    | .object _ => some (.method runMethod)
    | .block _ => some (.evaluation 1)
    | .frame _ => none
  lookupSuper _ _ _ := none
  getField _ _ _ := none
  setField world _ _ _ := some world
  getGlobal _ _ := none
  setGlobal world _ _ := world
  newArray world _ := (world, .object ())
  setBlockClass state _ _ := some state.world

/-- Primitives that do nothing. -/
def noRoutine (_ : MethodAddress) :
    Routine (ClassWorld superPath subImage.compilations Unit) Unit :=
  fun _ => pure ()

/-- The state in which the block has pushed its receiver. -/
def subState : State (ClassWorld superPath subImage.compilations Unit) Unit :=
  let image := subProgram.overClasses noRoutine
  ((round image).run ((round image).run ((round image).run
    ((universeInitialize image (.object ())).run { world := subWorld }).state).state).state).state

theorem subState_reachable : Reachable (subProgram.overClasses noRoutine) subWorld subState :=
  .round (.round (.round (.program _ (by decide +kernel)) (by decide +kernel))
    (by decide +kernel)) (by decide +kernel)

/-- The frame of the block. -/
def subFrame : Frame Unit := (subState.frames[2]?).get (by decide +kernel)

theorem subState_atSend : AtSend subImage.compilations subState 2 subFrame true "foo" where
  running := by decide +kernel
  found := (Option.some_get _).symm
  sends := by
    refine ⟨(methodAt subImage.compilations subFrame.method).get (by decide +kernel), 0,
      (Option.some_get _).symm, ?_⟩
    decide +kernel

/-- In the block, `super foo` runs the method of `Super`. -/
theorem subState_superSend : ∃ invokable,
    invokableOf subImage.compilations noRoutine subState.world.image
      (.code (.compiled 18 0)) = some invokable ∧
    (round (subProgram.overClasses noRoutine)).run subState =
      (invoke (subProgram.overClasses noRoutine) invokable 2).run
        (subState.put 2 subFrame.behindSend) := by
  have defines : subState.world.image.Defines 37 runMethod.method := by
    refine ⟨(subState.world.image.classes[37]?).get (by decide +kernel),
      (Option.some_get _).symm, ?_⟩
    decide +kernel
  have makes : Makes subImage.compilations runMethod.method subFrame.method := by
    refine ⟨17, 1, 0, (methodAt subImage.compilations runMethod.method).get (by decide +kernel),
      rfl, ?_, (Option.some_get _).symm, ?_⟩
    · decide +kernel
    · decide +kernel
  obtain ⟨ancestors, chain, first, -⟩ :=
    superSend_run subProgram noRoutine subState_reachable defines
      (show subState.world.image.superClassOf 37 = some 35 by decide +kernel) subState_atSend
      (.single makes)
  have above : Chain subState.world.image.superClassOf 35 [35, 2] :=
    .up (by decide +kernel) (.root (by decide +kernel))
  obtain rfl := chain.unique above
  have isFirst : [35, 2].findSome? (subState.world.image.ownInvokable "foo") =
      some (.code (.compiled 18 0)) := by
    decide +kernel
  exact first (.code (.compiled 18 0)) isFirst

end Somr.Interpreter
