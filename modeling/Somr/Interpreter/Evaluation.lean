import Somr.Compiler.ExpressionCode
import Somr.Interpreter.Machine

/-!
Owns what the messages of a program mean, without frames: an activation keeps its
variables and where it was called from, and answering a message is one computation
on the activations, the blocks and the other objects.

There are no operand stacks in the store, no bytecode indexes and no sizes. Where
the meaning of a program is undefined here, nothing is said about the interpreter:
a message that is not understood, a global without value, a block that has outlived
its method, and an object of a kind that the code does not expect.
-/

namespace Somr.Interpreter

open Foundation Compiler

/-! ### Activations -/

/-- A method or block that has been entered. An activation that has been left has no
caller any more. -/
structure Activation (Object : Type) where
  caller : Option Nat
  context : Option Nat := none
  method : MethodAddress
  arguments : List (Value Object)
  locals : List (Value Object)
deriving DecidableEq, Repr

structure Store (World Object : Type) where
  activations : List (Activation Object) := []
  blocks : List Block := []
  world : World
deriving DecidableEq, Repr

/-- Why a message is not answered where it was sent. -/
inductive Interruption (Object : Type) where
  /-- The activations down to the home of a block have been left, and the home
  answers its own message. -/
  | escape (home : Nat) (result : Value Object)
  /-- The activation that sent the message begins again. -/
  | restart
  | undefined
  | exhausted
deriving DecidableEq, Repr

abbrev EvaluationM (World Object : Type) : Type → Type :=
  Process Empty (Interruption Object) (Store World Object)

section

variable {World Object : Type}

def Activation.variables (activation : Activation Object) : List (Value Object) :=
  activation.arguments ++ activation.locals

def Activation.left (activation : Activation Object) : Activation Object :=
  { activation with caller := none }

def readActivation (address : Nat) : EvaluationM World Object (Activation Object) := do
  let store ← Process.read
  Process.demand .undefined store.activations[address]?

def changeActivation (address : Nat) (change : Activation Object → Activation Object) :
    EvaluationM World Object Unit :=
  Process.modify fun store =>
    { store with activations := store.activations.modify address change }

def changeWorld (world : World) : EvaluationM World Object Unit :=
  Process.modify fun store => { store with world := world }

/-! ### Variables -/

/-- The activation so many contexts outside. -/
def lexicalContext (address : Nat) : Nat → EvaluationM World Object Nat
  | 0 => pure address
  | level + 1 => do
      let activation ← readActivation address
      let context ← Process.demand .undefined activation.context
      lexicalContext context level

def homeFrom : (rounds : Nat) → (address : Nat) → EvaluationM World Object Nat
  | 0, _ => Process.stop .undefined
  | rounds + 1, address => do
      let activation ← readActivation address
      match activation.context with
      | none => pure address
      | some context => homeFrom rounds context

/-- The activation of the method around a block. -/
def homeOf (address : Nat) : EvaluationM World Object Nat := do
  let store ← Process.read
  homeFrom (store.activations.length + 1) address

def argumentAt (address index level : Nat) : EvaluationM World Object (Value Object) := do
  let context ← lexicalContext address level
  let activation ← readActivation context
  Process.demand .undefined activation.arguments[index]?

def localAt (address index level : Nat) : EvaluationM World Object (Value Object) := do
  let context ← lexicalContext address level
  let activation ← readActivation context
  Process.demand .undefined activation.locals[index]?

def assignArgument (address index level : Nat) (value : Value Object) :
    EvaluationM World Object Unit := do
  let context ← lexicalContext address level
  let activation ← readActivation context
  let _ ← Process.demand .undefined activation.arguments[index]?
  changeActivation context fun activation =>
    { activation with arguments := activation.arguments.set index value }

def assignLocal (address index level : Nat) (value : Value Object) :
    EvaluationM World Object Unit := do
  let context ← lexicalContext address level
  let activation ← readActivation context
  let _ ← Process.demand .undefined activation.locals[index]?
  changeActivation context fun activation =>
    { activation with locals := activation.locals.set index value }

/-- The receiver of the method around. -/
def selfOf (address : Nat) : EvaluationM World Object (Value Object) := do
  let home ← homeOf address
  argumentAt home 0 0

/-! ### Leaving activations -/

def leave (address : Nat) : EvaluationM World Object Unit :=
  changeActivation address Activation.left

/-- Leave an activation and its callers down to a home, which must have a caller of
its own. -/
def leaveTo (home : Nat) : (rounds : Nat) → (address : Nat) → EvaluationM World Object Unit
  | 0, _ => Process.stop .undefined
  | rounds + 1, address => do
      let activation ← readActivation address
      let caller ← Process.demand .undefined activation.caller
      leave address
      if address = home then pure () else leaveTo home rounds caller

def escapeFrom (address : Nat) (result : Value Object) :
    EvaluationM World Object (Value Object) := do
  let home ← homeOf address
  let store ← Process.read
  leaveTo home (store.activations.length + 1) address
  Process.stop (.escape home result)

/-- A block without statements answers its last variable. -/
def lastVariable (address : Nat) : EvaluationM World Object (Value Object) := do
  let activation ← readActivation address
  Process.demand .undefined activation.variables.getLast?

/-- Answer a value and leave the activation. -/
def answerFrom (address : Nat) (value : Value Object) :
    EvaluationM World Object (Value Object) := do
  leave address
  return value

end

/-! ### The domain -/

/-- What a primitive does: it answers a value, or sends another message in its place. -/
inductive Reaction (World Object : Type) where
  | answer (world : World) (value : Value Object)
  | resend (world : World) (receiver : Value Object) (selector : String)
      (arguments : List (Value Object))

/-- What an invokable does. -/
inductive Behaviour (World Object : Type) where
  | method (method : MethodAddress)
  | evaluation (argc : Nat)
  | primitive (react : Store World Object → List (Value Object) →
      Option (Reaction World Object))
  | restart

/-- What the classes, the globals and the plain objects mean to a program. -/
structure Domain (World Object : Type) where
  nilObject : Object
  /-- How many messages may be sent in place of another one. -/
  resends : Nat
  constant : Nat → Literal → Value Object
  lookup : Store World Object → Value Object → String → Option (Behaviour World Object)
  lookupSuper : Store World Object → MethodAddress → String → Option (Behaviour World Object)
  getField : Store World Object → Value Object → String → Option (Value Object)
  setField : World → Object → String → Value Object → Option World
  getGlobal : Store World Object → String → Option (Value Object)
  setGlobal : World → String → Value Object → World
  setBlockClass : Store World Object → Nat → Nat → Option World

section

variable {World Object : Type} (compilations : List Compilation) (domain : Domain World Object)

/-! ### Messages -/

/-- A new activation, which the global `Frame` names. -/
def activate (caller : Nat) (method : MethodAddress) (context : Option Nat)
    (arguments : List (Value Object)) : EvaluationM World Object Nat := do
  let code ← Process.demand .undefined (methodAt compilations method)
  let store ← Process.read
  if numberOfArguments code = arguments.length then
    let activation : Activation Object := {
      caller := some caller
      context := context
      method := method
      arguments := arguments
      locals := List.replicate code.numberOfLocals (.object domain.nilObject) }
    Process.modify fun store =>
      { store with
        activations := store.activations ++ [activation]
        world := domain.setGlobal store.world "Frame" (.frame store.activations.length) }
    return store.activations.length
  else Process.stop .undefined

/-- A new block, which a global with its signature names. -/
def makeBlock (address block : Nat) : EvaluationM World Object (Value Object) := do
  let activation ← readActivation address
  let compilation ← Process.demand .undefined activation.method.compilation?
  let code ← Process.demand .undefined (methodAt compilations (.compiled compilation block))
  let store ← Process.read
  let world ← Process.demand .undefined
    (domain.setBlockClass store store.blocks.length (numberOfArguments code))
  Process.modify fun store =>
    { store with
      blocks := store.blocks ++ [⟨.compiled compilation block, address⟩]
      world := domain.setGlobal world code.signature (.block store.blocks.length) }
  return .block store.blocks.length

/-- What a message to some values invokes, the receiver first among them. -/
def findBehaviour (address : Nat) (selector : String) (values : List (Value Object)) :
    (toSuper : Bool) → EvaluationM World Object (Behaviour World Object)
  | false => do
      let store ← Process.read
      let receiver ← Process.demand .undefined values.head?
      Process.demand .undefined (domain.lookup store receiver selector)
  | true => do
      let home ← homeOf address
      let activation ← readActivation home
      let store ← Process.read
      Process.demand .undefined (domain.lookupSuper store activation.method selector)

/-- How a method or block is entered by a caller and answers. -/
abbrev Entry (World Object : Type) : Type :=
  (caller : Nat) → MethodAddress → (context : Option Nat) → List (Value Object) →
    EvaluationM World Object (Value Object)

def invokeBehaviour (enter : Entry World Object) : (resends : Nat) → (caller : Nat) →
    Behaviour World Object → List (Value Object) → EvaluationM World Object (Value Object)
  | 0, _, _, _ => Process.stop .undefined
  | _ + 1, caller, .method method, values => enter caller method none values
  | _ + 1, caller, .evaluation argc, values =>
      match values.head? with
      | some (.block address) => do
          let store ← Process.read
          let block ← Process.demand .undefined store.blocks[address]?
          if argc = values.length then enter caller block.method (some block.context) values
          else Process.stop .undefined
      | _ => Process.stop .undefined
  | resends + 1, caller, .primitive react, values => do
      let store ← Process.read
      match ← Process.demand .undefined (react store values) with
      | .answer world value => do
          changeWorld world
          return value
      | .resend world receiver selector arguments => do
          changeWorld world
          let store ← Process.read
          let behaviour ← Process.demand .undefined (domain.lookup store receiver selector)
          invokeBehaviour enter resends caller behaviour (receiver :: arguments)
  | _ + 1, _, .restart, _ => Process.stop .restart

/-- How an activation sends a message. -/
abbrev Sending (World Object : Type) : Type :=
  (address : Nat) → (toSuper : Bool) → (selector : String) → List (Value Object) →
    EvaluationM World Object (Value Object)

def sendMessage (enter : Entry World Object) : Sending World Object :=
  fun address toSuper selector values => do
    let behaviour ← findBehaviour domain address selector values toSuper
    invokeBehaviour domain enter domain.resends address behaviour values

/-! ### Instructions -/

/-- What the instructions of an activation mean. -/
def instructionSemantics (send : Sending World Object) (address : Nat) :
    Semantics (EvaluationM World Object) (Value Object) where
  push
    | .pushLocal index level => localAt address index level
    | .pushArgument index level => argumentAt address index level
    | .pushField (.symbol name) => do
        let self ← selfOf address
        let store ← Process.read
        Process.demand .undefined (domain.getField store self name)
    | .pushBlock (.object block) => makeBlock compilations domain address block
    | .pushConstant constant => do
        let activation ← readActivation address
        let compilation ← Process.demand .undefined activation.method.compilation?
        return domain.constant compilation constant
    | .pushGlobal (.symbol name) => do
        let store ← Process.read
        Process.demand .undefined (domain.getGlobal store name)
    | _ => Process.stop .undefined
  store
    | .popLocal index level, value => assignLocal address index level value
    | .popArgument index level, value => assignArgument address index level value
    | .popField (.symbol name), value => do
        match ← selfOf address with
        | .object self => do
            let store ← Process.read
            let world ← Process.demand .undefined (domain.setField store.world self name value)
            changeWorld world
        | _ => Process.stop .undefined
    | _, _ => Process.stop .undefined
  send := send address
  stuck _ := Process.stop .undefined

/-- The rest of the code of an activation, with the values pushed so far. -/
def runCode (send : Sending World Object) (address : Nat) :
    List Instruction → List (Value Object) → EvaluationM World Object (Value Object)
  | [], _ => Process.stop .undefined
  | instruction :: rest, stack =>
      match instruction, stack with
      | .returnLocal, [] => lastVariable address >>= answerFrom address
      | .returnLocal, value :: _ => answerFrom address value
      | .returnNonLocal, value :: _ => escapeFrom address value
      | instruction, stack =>
          (instructionSemantics compilations domain send address).step instruction stack >>=
            runCode send address rest

/-! ### Programs -/

/-- What the code of an entered method or block means. -/
abbrev Meaning (World Object : Type) : Type :=
  Sending World Object → (address : Nat) → MethodAddress → EvaluationM World Object (Value Object)

/-- The compiled code, as it is read back. -/
def codeMeaning : Meaning World Object := fun send address method => do
  let compiled ← Process.demand .undefined (methodAt compilations method)
  let code ← Process.demand .undefined (decode compiled.literals compiled.bytecode)
  runCode compilations domain send address code []

/-- An activation answers its message, beginning again as often as it is told to. -/
def runActivation (body : EvaluationM World Object (Value Object)) (address : Nat) :
    (rounds : Nat) → EvaluationM World Object (Value Object)
  | 0 => Process.stop .exhausted
  | rounds + 1 => body.handle fun
      | .restart => runActivation body address rounds
      | .escape home result =>
          if home = address then pure result else Process.stop (.escape home result)
      | reason => Process.stop reason

/-- Methods and blocks entered at most so deep within each other. -/
def enterWithin (meaning : Meaning World Object) : (depth : Nat) → Entry World Object
  | 0 => fun _ _ _ _ => Process.stop .exhausted
  | depth + 1 => fun caller method context arguments => do
      let address ← activate compilations domain caller method context arguments
      runActivation (meaning (sendMessage domain (enterWithin meaning depth)) address method)
        address (depth + 1)

/-- What sending a message from an activation means. -/
def evaluate (meaning : Meaning World Object) (depth : Nat) : Sending World Object :=
  sendMessage domain (enterWithin compilations domain meaning depth)

end

/-! ### What is undefined -/

section

variable {compilations : List Compilation} {World Object : Type} {domain : Domain World Object}

theorem undefined_readActivation (address : Nat) :
    (readActivation address : EvaluationM World Object _).StopsOnly .undefined :=
  Process.stopsOnly_read.bind fun _ => Process.stopsOnly_demand _

theorem undefined_lexicalContext (level : Nat) : ∀ address,
    (lexicalContext address level : EvaluationM World Object _).StopsOnly .undefined := by
  induction level with
  | zero => exact fun address => Process.stopsOnly_pure address
  | succ level inductionHypothesis =>
      exact fun address => (undefined_readActivation address).bind fun activation =>
        (Process.stopsOnly_demand activation.context).bind inductionHypothesis

theorem undefined_homeFrom (rounds : Nat) : ∀ address,
    (homeFrom rounds address : EvaluationM World Object _).StopsOnly .undefined := by
  induction rounds with
  | zero => exact fun _ => Process.stopsOnly_stop
  | succ rounds inductionHypothesis =>
      refine fun address => (undefined_readActivation address).bind fun activation => ?_
      cases activation.context with
      | none => exact Process.stopsOnly_pure address
      | some context => exact inductionHypothesis context

theorem undefined_homeOf (address : Nat) :
    (homeOf address : EvaluationM World Object _).StopsOnly .undefined :=
  Process.stopsOnly_read.bind fun _ => undefined_homeFrom _ address

theorem undefined_argumentAt (address index level : Nat) :
    (argumentAt address index level : EvaluationM World Object _).StopsOnly .undefined :=
  (undefined_lexicalContext level address).bind fun context =>
    (undefined_readActivation context).bind fun _ => Process.stopsOnly_demand _

theorem undefined_localAt (address index level : Nat) :
    (localAt address index level : EvaluationM World Object _).StopsOnly .undefined :=
  (undefined_lexicalContext level address).bind fun context =>
    (undefined_readActivation context).bind fun _ => Process.stopsOnly_demand _

theorem undefined_assignArgument (address index level : Nat) (value : Value Object) :
    (assignArgument address index level value : EvaluationM World Object _).StopsOnly
      .undefined :=
  (undefined_lexicalContext level address).bind fun context =>
    (undefined_readActivation context).bind fun _ => (Process.stopsOnly_demand _).bind fun _ =>
      Process.stopsOnly_modify _

theorem undefined_assignLocal (address index level : Nat) (value : Value Object) :
    (assignLocal address index level value : EvaluationM World Object _).StopsOnly .undefined :=
  (undefined_lexicalContext level address).bind fun context =>
    (undefined_readActivation context).bind fun _ => (Process.stopsOnly_demand _).bind fun _ =>
      Process.stopsOnly_modify _

theorem undefined_selfOf (address : Nat) :
    (selfOf address : EvaluationM World Object _).StopsOnly .undefined :=
  (undefined_homeOf address).bind fun home => undefined_argumentAt home 0 0

theorem undefined_leave (address : Nat) :
    (leave address : EvaluationM World Object _).StopsOnly .undefined :=
  Process.stopsOnly_modify _

theorem undefined_leaveTo (home rounds : Nat) : ∀ address,
    (leaveTo home rounds address : EvaluationM World Object _).StopsOnly .undefined := by
  induction rounds with
  | zero => exact fun _ => Process.stopsOnly_stop
  | succ rounds inductionHypothesis =>
      refine fun address => (undefined_readActivation address).bind fun activation =>
        (Process.stopsOnly_demand activation.caller).bind fun caller =>
          (undefined_leave address).bind fun _ => ?_
      by_cases same : address = home
      · rw [if_pos same]
        exact Process.stopsOnly_pure ()
      · rw [if_neg same]
        exact inductionHypothesis caller

theorem undefined_activate (caller : Nat) (method : MethodAddress) (context : Option Nat)
    (arguments : List (Value Object)) :
    (activate compilations domain caller method context arguments).StopsOnly .undefined := by
  refine (Process.stopsOnly_demand _).bind fun code => Process.stopsOnly_read.bind fun store => ?_
  by_cases counts : numberOfArguments code = arguments.length
  · rw [if_pos counts]
    exact (Process.stopsOnly_modify _).bind fun _ => Process.stopsOnly_pure _
  · rw [if_neg counts]
    exact Process.stopsOnly_stop

theorem undefined_makeBlock (address block : Nat) :
    (makeBlock compilations domain address block).StopsOnly .undefined :=
  (undefined_readActivation address).bind fun _ => (Process.stopsOnly_demand _).bind fun _ =>
    (Process.stopsOnly_demand _).bind fun _ => Process.stopsOnly_read.bind fun _ =>
      (Process.stopsOnly_demand _).bind fun _ => (Process.stopsOnly_modify _).bind fun _ =>
        Process.stopsOnly_pure _

theorem undefined_findBehaviour (address : Nat) (selector : String)
    (values : List (Value Object)) (toSuper : Bool) :
    (findBehaviour domain address selector values toSuper).StopsOnly .undefined := by
  cases toSuper with
  | false =>
      exact Process.stopsOnly_read.bind fun _ => (Process.stopsOnly_demand _).bind fun _ =>
        Process.stopsOnly_demand _
  | true =>
      exact (undefined_homeOf address).bind fun home => (undefined_readActivation home).bind
        fun _ => Process.stopsOnly_read.bind fun _ => Process.stopsOnly_demand _

/-- An instruction that sends no message can only be undefined. -/
theorem undefined_step {send : Sending World Object} {address : Nat} {instruction : Instruction}
    (noSend : instruction.isSend = false) (stack : List (Value Object)) :
    ((instructionSemantics compilations domain send address).step instruction stack).StopsOnly
      .undefined := by
  cases instruction with
  | send | superSend => exact nomatch noSend
  | halt | returnLocal | returnNonLocal => exact Process.stopsOnly_stop
  | dup | pop =>
      cases stack with
      | nil => exact Process.stopsOnly_stop
      | cons => exact Process.stopsOnly_pure _
  | pushLocal index level => exact (undefined_localAt address index level).map _
  | pushArgument index level => exact (undefined_argumentAt address index level).map _
  | pushField field =>
      cases field with
      | object => exact Process.StopsOnly.map Process.stopsOnly_stop _
      | symbol name =>
          refine Process.StopsOnly.map ?_ _
          exact (undefined_selfOf address).bind fun _ => Process.stopsOnly_read.bind fun _ =>
            Process.stopsOnly_demand _
  | pushBlock block =>
      cases block with
      | symbol => exact Process.StopsOnly.map Process.stopsOnly_stop _
      | object block => exact (undefined_makeBlock address block).map _
  | pushConstant constant =>
      refine Process.StopsOnly.map ?_ _
      exact (undefined_readActivation address).bind fun _ => (Process.stopsOnly_demand _).bind
        fun _ => Process.stopsOnly_pure _
  | pushGlobal global =>
      cases global with
      | object => exact Process.StopsOnly.map Process.stopsOnly_stop _
      | symbol name =>
          refine Process.StopsOnly.map ?_ _
          exact Process.stopsOnly_read.bind fun _ => Process.stopsOnly_demand _
  | popLocal index level =>
      cases stack with
      | nil => exact Process.stopsOnly_stop
      | cons value => exact (undefined_assignLocal address index level value).map _
  | popArgument index level =>
      cases stack with
      | nil => exact Process.stopsOnly_stop
      | cons value => exact (undefined_assignArgument address index level value).map _
  | popField field =>
      cases stack with
      | nil => exact Process.stopsOnly_stop
      | cons value =>
          cases field with
          | object => exact Process.StopsOnly.map Process.stopsOnly_stop _
          | symbol name =>
              refine Process.StopsOnly.map ((undefined_selfOf address).bind fun self => ?_) _
              cases self with
              | block | frame => exact Process.stopsOnly_stop
              | object self =>
                  exact Process.stopsOnly_read.bind fun _ => (Process.stopsOnly_demand _).bind
                    fun _ => Process.stopsOnly_modify _

end

end Somr.Interpreter
