import Somr.Foundation.Progress
import Somr.Interpreter.Activations
import Somr.Interpreter.CodeSteps
import Somr.Interpreter.Statements

/-!
Owns the correctness of the interpreter: the rounds for a message end as its
evaluation does. The sender goes on behind the message with the answer, at the
home of a block that has escaped, or from its beginning. Where the evaluation does
not come to an end within a depth, the rounds go on for as long as the depth says.
-/

namespace Somr.Interpreter

open Foundation Compiler

section

variable {compilations : List Compilation} {World Object : Type}

/-! ### Rounds -/

variable (compilations) in
/-- The running frame has come to a `HALT`. -/
def Halts (state : State World Object) : Prop :=
  ∃ address frame method, state.frame = some address ∧ state.frames[address]? = some frame ∧
    methodAt compilations frame.method = some method ∧
    method.bytecode[frame.bytecodeIndex]? = some Bytecode.halt

/-- A round of the interpreter that does not halt. -/
structure Goes (image : Image compilations World Object) (state next : State World Object) :
    Prop where
  goesOn : ¬ Halts compilations state
  ran : (round image).run state = ⟨.ok (), next, []⟩

/-- The interpreter gets to these pending activations of the store, by one round at
least. -/
def Gets (image : Image compilations World Object) (state : State World Object)
    (after : Store World Object) (pending : List (Pending Object)) : Prop :=
  ∃ last, Relation.TransGen (Goes image) state last ∧ Realizes compilations last after pending

/-- The rest of a round succeeds, and from there the interpreter gets on. -/
def Follows (image : Image compilations World Object) (process : InterpreterM World Object Unit)
    (state : State World Object) (after : Store World Object) (pending : List (Pending Object)) :
    Prop :=
  ∃ next last, process.run state = ⟨.ok (), next, []⟩ ∧
    Relation.ReflTransGen (Goes image) next last ∧ Realizes compilations last after pending

/-- The rest of a round is the first of so many. -/
def LastsBehind (image : Image compilations World Object)
    (process : InterpreterM World Object Unit) (rounds : Nat) (state : State World Object) : Prop :=
  ∀ fewer, rounds = fewer + 1 →
    ∃ next, process.run state = ⟨.ok (), next, []⟩ ∧ Lasts (Goes image) fewer next

/-! ### How an evaluation settles -/

/-- Where the interpreter gets in place of a result: it goes on with the value, or at
the home of a block that has escaped, or again. It lasts if there is no result yet. -/
def Settles {Result : Type} (lasts : Prop) (gets : List (Pending Object) → Prop)
    (goesOn : Result → List (Pending Object)) (again pending : List (Pending Object)) :
    Except (Interruption Object) Result → Prop
  | .ok value => gets (goesOn value)
  | .error (.escape home value) => ∃ later, Escapes home value pending later ∧ gets later
  | .error .restart => gets again
  | .error .undefined => True
  | .error .exhausted => lasts

variable {image : Image compilations World Object} {domain : Domain World Object}
  {state next : State World Object} {store after : Store World Object}
  {entry sender : Pending Object} {rest pending again : List (Pending Object)} {rounds : Nat}

theorem Settles.imp {Result : Type} {lasts lasts' : Prop}
    {gets gets' : List (Pending Object) → Prop} {goesOn : Result → List (Pending Object)}
    {result : Except (Interruption Object) Result}
    (settles : Settles lasts gets goesOn again pending result)
    (weaker : ∀ later, gets later → gets' later) (shorter : lasts → lasts') :
    Settles lasts' gets' goesOn again pending result := by
  match result, settles with
  | .ok _, settles => exact weaker _ settles
  | .error (.escape _ _), ⟨later, escapes, there⟩ => exact ⟨later, escapes, weaker _ there⟩
  | .error .restart, settles => exact weaker _ settles
  | .error .undefined, _ => trivial
  | .error .exhausted, settles => exact shorter settles

/-- Whatever stands on its stack, an activation is left in the same way. -/
theorem Escapes.congr {home : Nat} {value : Value Object} {later : List (Pending Object)}
    {other : Pending Object} (escapes : Escapes home value (entry :: rest) later)
    (sameAddress : other.address = entry.address) (sameMethod : other.method = entry.method) :
    Escapes home value (other :: rest) later := by
  cases escapes with
  | home isHome =>
      rw [← sameMethod]
      exact .home (sameAddress.trans isHome)
  | inner different more => exact .inner (sameAddress ▸ different) more

/-- A stop for another reason settles in the same way whatever the result would be. -/
theorem Settles.ofError {Result Result' : Type} {lasts : Prop}
    {gets : List (Pending Object) → Prop} {goesOn : Result → List (Pending Object)}
    {goesOn' : Result' → List (Pending Object)} {reason : Interruption Object}
    (settles : Settles lasts gets goesOn again pending (.error reason)) :
    Settles lasts gets goesOn' again pending (.error reason) := by
  cases reason <;> exact settles

theorem Settles.map {Result Result' : Type} {lasts : Prop} {gets : List (Pending Object) → Prop}
    {goesOn : Result → List (Pending Object)} {goesOn' : Result' → List (Pending Object)}
    {change : Result → Result'} {result : Except (Interruption Object) Result}
    (settles : Settles lasts gets goesOn again pending result)
    (same : ∀ value, goesOn' (change value) = goesOn value) :
    Settles lasts gets goesOn' again pending (result.map change) := by
  match result, settles with
  | .ok value, settles =>
      change gets (goesOn' (change value))
      rw [same]
      exact settles
  | .error (.escape _ _), settles => exact settles
  | .error .restart, settles => exact settles
  | .error .undefined, _ => trivial
  | .error .exhausted, settles => exact settles

theorem Settles.congr {Result : Type} {lasts : Prop} {gets : List (Pending Object) → Prop}
    {goesOn : Result → List (Pending Object)} {result : Except (Interruption Object) Result}
    {other : Pending Object} (settles : Settles lasts gets goesOn again (entry :: rest) result)
    (sameAddress : other.address = entry.address) (sameMethod : other.method = entry.method) :
    Settles lasts gets goesOn again (other :: rest) result := by
  match result, settles with
  | .ok _, settles => exact settles
  | .error (.escape _ _), ⟨later, escapes, there⟩ =>
      exact ⟨later, escapes.congr sameAddress sameMethod, there⟩
  | .error .restart, settles => exact settles
  | .error .undefined, _ => trivial
  | .error .exhausted, settles => exact settles

/-- An activation that reads another instruction than `HALT` does not halt. -/
theorem Realizes.goes (realizes : Realizes compilations state store (entry :: rest))
    {instruction : Instruction} {code : List Instruction}
    (reads : ReadsCode entry.method entry.bytecodeIndex (instruction :: code))
    (noHalt : instruction ≠ .halt) (ran : (round image).run state = ⟨.ok (), next, []⟩) :
    Goes image state next := by
  refine ⟨fun halts => ?_, ran⟩
  obtain ⟨address, frame, method, isRunning, found, isMethod, isHalt⟩ := halts
  obtain ⟨frame', activation, standing⟩ := realizes.head
  obtain rfl := Option.some.inj (isRunning.symm.trans realizes.isRunning)
  obtain rfl := Option.some.inj (found.symm.trans standing.found)
  rw [standing.keeps.method, standing.stands.isMethod] at isMethod
  obtain rfl := Option.some.inj isMethod
  rw [standing.stands.bytecodeIndex, reads.cons.1] at isHalt
  exact opcode_ne_halt noHalt (Option.some.inj isHalt)

theorem Gets.behind (gets : Gets image next after pending)
    (run : Relation.ReflTransGen (Goes image) state next) : Gets image state after pending := by
  obtain ⟨last, more, realizes⟩ := gets
  exact ⟨last, .trans_right run more, realizes⟩

/-- A round that comes to the rest of a round gets where that one gets. -/
theorem Follows.gets {process : InterpreterM World Object Unit}
    (follows : Follows image process next after pending)
    (goes : ∀ later, (round image).run state = ⟨.ok (), later, []⟩ → Goes image state later)
    (ran : (round image).run state = process.run next) : Gets image state after pending := by
  obtain ⟨later, last, ranProcess, run, realizes⟩ := follows
  exact ⟨last, .head' (goes later (ran.trans ranProcess)) run, realizes⟩

theorem Follows.congr {process other : InterpreterM World Object Unit}
    (same : process.run state = other.run next) (follows : Follows image other next after pending) :
    Follows image process state after pending := by
  obtain ⟨later, last, ran, run, realizes⟩ := follows
  exact ⟨later, last, same.trans ran, run, realizes⟩

theorem LastsBehind.congr {process other : InterpreterM World Object Unit}
    (same : process.run state = other.run next) (lasts : LastsBehind image other rounds next) :
    LastsBehind image process rounds state := by
  intro fewer isRounds
  obtain ⟨later, ran, more⟩ := lasts fewer isRounds
  exact ⟨later, same.trans ran, more⟩

theorem LastsBehind.lasts {process : InterpreterM World Object Unit}
    (lasts : LastsBehind image process rounds next)
    (goes : ∀ later, (round image).run state = ⟨.ok (), later, []⟩ → Goes image state later)
    (ran : (round image).run state = process.run next) : Lasts (Goes image) rounds state := by
  cases rounds with
  | zero => trivial
  | succ rounds =>
      obtain ⟨later, ranProcess, more⟩ := lasts rounds rfl
      exact ⟨later, goes later (ran.trans ranProcess), more⟩

/-! ### Returns -/

variable {activation : Activation Object} {code : List Instruction} {value : Value Object}

/-- `RETURN_LOCAL`. -/
theorem Realizes.returnsLocal
    (realizes : Realizes compilations state store (entry :: sender :: rest))
    (reads : ReadsCode entry.method entry.bytecodeIndex (.returnLocal :: code))
    (answer : Answer store entry value)
    (there : store.activations[entry.address]? = some activation) :
    Gets image state (store.leaving entry.address activation)
      (sender.answered (numberOfArguments entry.method) value :: rest) := by
  obtain ⟨next, goesOn, ranRound⟩ := realizes.fetches image reads nofun
  obtain ⟨popped, pops, departing⟩ := goesOn.popAnswer answer
  obtain ⟨last, answers, realizesLast⟩ := departing.answers there value
  refine ⟨last, .single (realizes.goes reads nofun ?_), realizesLast⟩
  rw [ranRound, dispatch_opcode, doInstruction, doReturnLocal,
    Process.bind_of_silent (getFrame_run goesOn.isRunning)]
  rw [Process.bind_of_silent pops, answers]

/-- `RETURN_NON_LOCAL`, to a home that has not returned. -/
theorem Realizes.returnsNonLocal (realizes : Realizes compilations state store (entry :: rest))
    (reads : ReadsCode entry.method entry.bytecodeIndex (.returnNonLocal :: code))
    (top : entry.stack.head? = some value) {home : Nat} {result : Value Object}
    {events : List Empty}
    (ran : (escapeFrom entry.address value).run store =
      ⟨.error (.escape home result), after, events⟩) :
    ∃ later, Escapes home result (entry :: rest) later ∧
      Gets image state after later := by
  obtain ⟨next, goesOn, ranRound⟩ := realizes.fetches image reads nofun
  obtain ⟨popped, pops, departing⟩ := goesOn.popAnswer (Or.inl top)
  obtain ⟨last, later, ranLast, escapes, realizesLast⟩ := departing.escapes image ran
  refine ⟨later, escapes.congr rfl rfl, last, .single (realizes.goes reads nofun ?_),
    realizesLast⟩
  rw [ranRound, dispatch_opcode, doInstruction, doReturnNonLocal,
    Process.bind_of_silent (getFrame_run goesOn.isRunning)]
  rw [Process.bind_of_silent pops]
  exact ranLast

/-! ### Invocations -/

/-- The interpreter enters methods and blocks as an evaluation does, or goes on for so
many rounds. Whatever would begin again does so by itself. -/
def Enters (image : Image compilations World Object) (rounds : Nat) (enter : Entry World Object) :
    Prop :=
  ∀ (state : State World Object) (store after : Store World Object) (entry : Pending Object)
    (rest again : List (Pending Object)) (method : MethodAddress) (context : Option Nat)
    (values below : List (Value Object))
    (result : Except (Interruption Object) (Value Object)) (events : List Empty),
    Realizes compilations state store (entry :: rest) →
    entry.stack = values.reverse ++ below →
    (enter entry.address method context values).run store = ⟨result, after, events⟩ →
    Settles (LastsBehind image (enterFrame image method context entry.address) rounds state)
      (Follows image (enterFrame image method context entry.address) state after)
      (fun value => entry.holding (value :: below) :: rest) again (entry :: rest) result

/-- The receiver below its arguments on top of the stack. -/
theorem Realizes.receiver_run (realizes : Realizes compilations state store (entry :: rest))
    {values below : List (Value Object)} (stacked : entry.stack = values.reverse ++ below)
    {receiver : Value Object} (isFirst : values.head? = some receiver) :
    (getStackElement entry.address ((values.length : Int) - 1)).run state =
      ⟨.ok receiver, state, []⟩ := by
  obtain ⟨frame, activation, standing⟩ := realizes.head
  have holds : frame.Holds ((activation.variables ++ below.reverse) ++ values) := by
    have holds := standing.stands.holds
    rw [stacked, List.reverse_append, List.reverse_reverse, ← List.append_assoc] at holds
    exact holds
  have some : 0 < values.length := by
    cases values with
    | nil => exact nomatch isFirst
    | cons value rest => exact Nat.succ_pos _
  rw [show (values.length : Int) - 1 = ((values.length - 1 : Nat) : Int) by omega]
  refine getStackElement_run standing.found holds ?_ (by omega)
  rw [Nat.sub_self, ← List.head?_eq_getElem?, isFirst]

/-- The evaluation of a block enters the block. -/
theorem Realizes.evaluates (realizes : Realizes compilations state store (entry :: rest))
    {values below : List (Value Object)} (stacked : entry.stack = values.reverse ++ below)
    {address : Nat} (isFirst : values.head? = some (.block address)) {block : Block}
    (isBlock : store.blocks[address]? = some block) :
    (evaluationRoutine image values.length entry.address).run state =
      (enterFrame image block.method (some block.context) entry.address).run state := by
  have isBlockThere : state.blocks[address]? = some block := realizes.blocks ▸ isBlock
  rw [evaluationRoutine, Process.bind_of_silent (realizes.receiver_run stacked isFirst)]
  dsimp only
  rw [Process.bind_of_silent (Process.run_read _), isBlockThere, Process.demand_some,
    Process.pure_bind]
  rfl

/-- An evaluation primitive settles as the block it evaluates. -/
theorem Realizes.invokesBlock {enter : Entry World Object} (enters : Enters image rounds enter)
    (realizes : Realizes compilations state store (entry :: rest)) {argc resends depth : Nat}
    {values below : List (Value Object)} (stacked : entry.stack = values.reverse ++ below)
    {result : Except (Interruption Object) (Value Object)} {events : List Empty}
    (ran : (invokeBehaviour domain enter (resends + 1) entry.address (.evaluation argc)
      values).run store = ⟨result, after, events⟩) :
    Settles (LastsBehind image (invokeWithin image (depth + 1) (.evaluation argc) entry.address)
        rounds state)
      (Follows image (invokeWithin image (depth + 1) (.evaluation argc) entry.address) state after)
      (fun value => entry.holding (value :: below) :: rest) again (entry :: rest) result := by
  rw [invokeBehaviour] at ran
  match isFirst : values.head? with
  | none | some (.object _) | some (.frame _) =>
      rw [isFirst] at ran
      obtain ⟨rfl, -, -⟩ := Outcome.mk.inj ran
      trivial
  | some (.block address) =>
      rw [isFirst] at ran
      dsimp only at ran
      rw [Process.bind_of_silent (Process.run_read _)] at ran
      cases isBlock : store.blocks[address]? with
      | none =>
          rw [isBlock] at ran
          obtain ⟨rfl, -, -⟩ := Outcome.mk.inj ran
          trivial
      | some block =>
          rw [isBlock, Process.demand_some, Process.pure_bind] at ran
          by_cases counts : argc = values.length
          · rw [if_pos counts] at ran
            have settles := enters state store after entry rest again block.method
              (some block.context) values below result events realizes stacked ran
            have same : (invokeWithin image (depth + 1) (.evaluation argc) entry.address).run
                state = (enterFrame image block.method (some block.context) entry.address).run
                  state := by
              rw [invokeWithin, counts, realizes.evaluates stacked isFirst isBlock]
            exact settles.imp (fun later => Follows.congr same) (LastsBehind.congr same)
          · rw [if_neg counts] at ran
            obtain ⟨rfl, -, -⟩ := Outcome.mk.inj ran
            trivial

/-- What an invokable does settles as the behaviour that the domain gives it. -/
theorem Realizes.invokes {enter : Entry World Object} (implements : Implements image domain)
    (enters : Enters image rounds enter) : (resends : Nat) → {depth : Nat} → resends ≤ depth →
    {state : State World Object} → {store : Store World Object} → {entry : Pending Object} →
    {behaviour : Behaviour World Object} → {invokable : Invokable compilations World Object} →
    {values below : List (Value Object)} →
    {result : Except (Interruption Object) (Value Object)} → {after : Store World Object} →
    {events : List Empty} → Behaves image invokable behaviour →
    Realizes compilations state store (entry :: rest) → entry.stack = values.reverse ++ below →
    (invokeBehaviour domain enter resends entry.address behaviour values).run store =
      ⟨result, after, events⟩ →
    Settles (LastsBehind image (invokeWithin image depth invokable entry.address) rounds state)
      (Follows image (invokeWithin image depth invokable entry.address) state after)
      (fun value => entry.holding (value :: below) :: rest)
      (Pending.begun entry.address entry.method :: rest) (entry :: rest) result
  | 0, _, _, _, _, _, _, _, _, _, _, _, _, _, _, _, ran => by
      obtain ⟨rfl, -, -⟩ := Outcome.mk.inj ran
      trivial
  | resends + 1, 0, enough, _, _, _, _, _, _, _, _, _, _, _, _, _, _ =>
      absurd enough (Nat.not_succ_le_zero _)
  | resends + 1, depth + 1, enough, state, store, entry, _, _, values, below, result, after,
      events, behaves, realizes, stacked, ran => by
      cases behaves with
      | method installed =>
          rw [invokeWithin, invokeMethod_eq]
          exact enters state store after entry rest _ installed.method none values below result
            events realizes stacked ran
      | evaluation argc => exact realizes.invokesBlock enters stacked ran
      | @primitive routine react computes =>
          have reacts := computes depth state store entry rest values below realizes stacked
          rw [invokeBehaviour, Process.bind_of_silent (Process.run_read _)] at ran
          cases reaction : react store values with
          | none =>
              rw [reaction] at ran
              obtain ⟨rfl, -, -⟩ := Outcome.mk.inj ran
              trivial
          | some reacted =>
              rw [reaction] at ran reacts
              cases reacted with
              | answer world value =>
                  obtain ⟨rfl, rfl, -⟩ := Outcome.mk.inj ran
                  obtain ⟨later, ranRoutine, realizesLater⟩ := reacts
                  exact ⟨later, later, ranRoutine, .refl, realizesLater⟩
              | resend world receiver selector arguments =>
                  obtain ⟨later, realizesLater, goesOn⟩ := reacts
                  have resent : (do
                      let store ← Process.read
                      let behaviour ← Process.demand .undefined
                        (domain.lookup store receiver selector)
                      invokeBehaviour domain enter resends entry.address behaviour
                        (receiver :: arguments) : EvaluationM World Object _).run
                        { store with world := world } = ⟨result, after, events⟩ := ran
                  rw [Process.bind_of_silent (Process.run_read _)] at resent
                  cases isBehaviour : domain.lookup { store with world := world } receiver
                      selector with
                  | none =>
                      rw [isBehaviour] at resent
                      obtain ⟨rfl, -, -⟩ := Outcome.mk.inj resent
                      trivial
                  | some behaviour =>
                      rw [isBehaviour] at resent
                      obtain ⟨invokable, found, behaves⟩ := implements.lookup later _
                        realizesLater.toCorresponds.bare receiver selector behaviour isBehaviour
                      have settles := realizesLater.invokes implements enters resends
                        (Nat.le_of_succ_le_succ enough) behaves rfl resent
                      have resettles : Settles _ _ _ _ (entry :: rest) result :=
                        settles.congr rfl rfl
                      have same := goesOn invokable found
                      exact resettles.imp (fun pending => Follows.congr same)
                        (LastsBehind.congr same)
      | restart restarts =>
          obtain ⟨rfl, rfl, -⟩ := Outcome.mk.inj ran
          obtain ⟨later, ranRoutine, realizesLater⟩ := restarts depth state _ entry rest realizes
          exact ⟨later, later, ranRoutine, .refl, realizesLater⟩

/-! ### Messages -/

/-- The rounds for a message settle as its evaluation, or go on for so many. -/
def Delivers (image : Image compilations World Object) (rounds : Nat) (send : Sending World Object) :
    Prop :=
  ∀ (state : State World Object) (store after : Store World Object) (entry : Pending Object)
    (rest : List (Pending Object)) (toSuper : Bool) (selector : String)
    (code : List Instruction) (values below : List (Value Object))
    (result : Except (Interruption Object) (Value Object)) (events : List Empty),
    Realizes compilations state store (entry :: rest) →
    ReadsCode entry.method entry.bytecodeIndex (sendInstruction toSuper selector :: code) →
    entry.stack = values.reverse ++ below →
    values.length = Signature.getNumberOfArguments selector →
    (send entry.address toSuper selector values).run store = ⟨result, after, events⟩ →
    Settles (Lasts (Goes image) rounds state) (Gets image state after)
      (fun value => (entry.goOn 2).holding (value :: below) :: rest)
      (Pending.begun entry.address entry.method :: rest) (entry :: rest) result

/-- What a message to the receiver or to `super` invokes. -/
theorem findBehaviour_eq_ok {address : Nat} {selector : String} {values : List (Value Object)}
    {toSuper : Bool} {behaviour : Behaviour World Object} {events : List Empty}
    (ran : (findBehaviour domain address selector values toSuper).run store =
      ⟨.ok behaviour, after, events⟩) :
    if toSuper then ∃ home middle early activation,
      (homeOf address).run store = ⟨.ok home, middle, early⟩ ∧
        middle.activations[home]? = some activation ∧ after = middle ∧
        domain.lookupSuper middle activation.method selector = some behaviour
    else ∃ receiver, values.head? = some receiver ∧ after = store ∧
      domain.lookup store receiver selector = some behaviour := by
  cases toSuper with
  | false =>
      rw [findBehaviour, Process.bind_of_silent (Process.run_read _)] at ran
      obtain ⟨receiver, isFirst, ran⟩ := Process.demand_bind_eq_ok ran
      obtain ⟨found, same⟩ := Process.demand_eq_ok ran
      exact ⟨receiver, isFirst, same, found⟩
  | true =>
      obtain ⟨home, middle, early, _, ranHome, behind, -⟩ := Process.bind_eq_ok ran
      obtain ⟨activation, there, behind⟩ := readActivation_bind_eq_ok behind
      rw [Process.bind_of_silent (Process.run_read _)] at behind
      obtain ⟨found, same⟩ := Process.demand_eq_ok behind
      exact ⟨home, middle, early, activation, ranHome, there, same, found⟩

/-- A round for a message comes to an invocation. -/
theorem Realizes.sends (implements : Implements image domain)
    (realizes : Realizes compilations state store (entry :: rest)) {toSuper : Bool}
    {selector : String}
    (reads : ReadsCode entry.method entry.bytecodeIndex (sendInstruction toSuper selector :: code))
    {values below : List (Value Object)} (stacked : entry.stack = values.reverse ++ below)
    (counts : values.length = Signature.getNumberOfArguments selector)
    {behaviour : Behaviour World Object} {events : List Empty}
    (ran : (findBehaviour domain entry.address selector values toSuper).run store =
      ⟨.ok behaviour, after, events⟩) :
    after = store ∧ ∃ next invokable,
      Realizes compilations next store (entry.goOn 2 :: rest) ∧ Behaves image invokable behaviour ∧
      (round image).run state = (invoke image invokable entry.address).run next := by
  have finds := findBehaviour_eq_ok ran
  cases toSuper with
  | false =>
      obtain ⟨receiver, isFirst, rfl, found⟩ := finds
      obtain ⟨next, goesOn, ranRound⟩ := realizes.fetchesSymbol image reads rfl rfl
      obtain ⟨invokable, isInvokable, behaves⟩ := implements.lookup next _
        goesOn.toCorresponds.bare receiver selector behaviour found
      refine ⟨rfl, next, invokable, goesOn, behaves, ?_⟩
      have isReceiver : (getStackElement entry.address
          ((Signature.getNumberOfArguments selector : Int) - 1)).run next =
            ⟨.ok receiver, next, []⟩ := by
        rw [← counts]
        exact goesOn.receiver_run stacked isFirst
      rw [ranRound, Process.bind_of_silent (getFrame_run goesOn.isRunning)]
      change (getStackElement entry.address _ >>= _).run next = _
      rw [Process.bind_of_silent isReceiver, send, Process.bind_of_silent (Process.run_read _),
        isInvokable]
      dsimp only
      rw [Process.bind_of_silent (getFrame_run goesOn.isRunning)]
      rfl
  | true =>
      obtain ⟨home, middle, early, activation, ranHome, there, rfl, found⟩ := finds
      obtain ⟨next, goesOn, ranRound⟩ := realizes.fetchesSymbol image reads rfl rfl
      obtain ⟨rfl, _, rfl, isHome⟩ := goesOn.getOuterContext entry.address _ _ _ ranHome
      obtain ⟨frame, foundFrame, keeps⟩ := goesOn.ofActivation there
      obtain ⟨invokable, isInvokable, behaves⟩ := implements.lookupSuper next _
        goesOn.toCorresponds.bare activation.method selector behaviour found
      refine ⟨rfl, next, invokable, goesOn, behaves, ?_⟩
      rw [ranRound, Process.bind_of_silent (getFrame_run goesOn.isRunning)]
      change (getOuterContext entry.address >>= _).run next = _
      rw [Process.bind_of_silent isHome, Process.bind_of_silent (readFrame_run foundFrame),
        Process.bind_of_silent (Process.run_read _), keeps.method, isInvokable]
      dsimp only
      rw [Process.bind_of_silent (getFrame_run goesOn.isRunning)]
      rfl

theorem sendInstruction_ne_halt (toSuper : Bool) (selector : String) :
    sendInstruction toSuper selector ≠ .halt := by
  cases toSuper <;> nofun

/-- Messages settle if what they enter does. -/
theorem Enters.delivers {enter : Entry World Object} (implements : Implements image domain)
    (enters : Enters image rounds enter) : Delivers image rounds (sendMessage domain enter) := by
  intro state store after entry rest toSuper selector code values below result events realizes
    reads stacked counts ran
  rw [sendMessage] at ran
  cases found : (findBehaviour domain entry.address selector values toSuper).run store with
  | mk finds middle early =>
      cases finds with
      | error reason =>
          obtain rfl := undefined_findBehaviour _ _ _ _ store reason (congrArg Outcome.result found)
          rw [Process.bind_of_error found] at ran
          obtain ⟨rfl, -, -⟩ := Outcome.mk.inj ran
          trivial
      | ok behaviour =>
          obtain ⟨rfl, next, invokable, goesOn, behaves, ranRound⟩ :=
            realizes.sends implements reads stacked counts found
          rw [Process.bind_of_ok found] at ran
          obtain ⟨isResult, isAfter, -⟩ := Outcome.mk.inj ran
          have settles := goesOn.invokes implements enters domain.resends implements.stackDepth
            behaves stacked (show _ = (⟨result, after, _⟩ : Outcome _ _ _ _) by
              rw [← isResult, ← isAfter]; rfl)
          have resettles : Settles _ _ _ _ (entry :: rest) result := settles.congr rfl rfl
          have goes (later : State World Object)
              (ran : (round image).run state = ⟨.ok (), later, []⟩) : Goes image state later :=
            realizes.goes reads (sendInstruction_ne_halt toSuper selector) ran
          exact resettles.imp (fun pending follows => follows.gets goes ranRound)
            fun lasts => lasts.lasts goes ranRound

/-! ### Code -/

variable {send : Sending World Object} {address : Nat} {instruction : Instruction}
  {stack stack' : List (Value Object)} {events : List Empty} {method : CompiledMethod}

/-- A step leaves as many values as its effect says. -/
theorem step_effect
    (ran : ((instructionSemantics compilations domain send address).step instruction stack).run
      store = ⟨.ok stack', after, events⟩) :
    ∃ effect, instruction.effect = some effect ∧
      stack'.length = stack.length - effect.pops + effect.pushes := by
  have pushes {process : EvaluationM World Object (Value Object)}
      (pushed : ((· :: stack) <$> process).run store = ⟨.ok stack', after, events⟩) :
      stack'.length = stack.length - 0 + 1 := by
    obtain ⟨_, -, rfl⟩ := Process.map_eq_ok pushed
    rfl
  have sends {toSuper : Bool} {selector : String}
      (sent : ((instructionSemantics compilations domain send address).sendStep toSuper selector
        stack).run store = ⟨.ok stack', after, events⟩) :
      stack'.length = stack.length - Signature.getNumberOfArguments selector + 1 := by
    rw [Semantics.sendStep] at sent
    by_cases low : stack.length < Signature.getNumberOfArguments selector
    · rw [if_pos low] at sent
      exact (Process.stop_ne_ok sent).elim
    · rw [if_neg low] at sent
      obtain ⟨_, -, rfl⟩ := Process.map_eq_ok sent
      rw [List.length_cons, List.length_drop]
  cases instruction with
  | halt | returnLocal | returnNonLocal => exact (Process.stop_ne_ok ran).elim
  | pushLocal | pushArgument | pushField | pushBlock | pushConstant | pushGlobal =>
      exact ⟨⟨0, 1⟩, rfl, pushes ran⟩
  | dup | pop =>
      cases stack with
      | nil => exact (Process.stop_ne_ok ran).elim
      | cons value below =>
          obtain ⟨same, -, -⟩ := Outcome.mk.inj ran
          obtain rfl := Except.ok.inj same
          exact ⟨_, rfl, rfl⟩
  | popLocal | popArgument | popField =>
      cases stack with
      | nil => exact (Process.stop_ne_ok ran).elim
      | cons value below =>
          obtain ⟨_, -, rfl⟩ := Process.map_eq_ok ran
          exact ⟨_, rfl, rfl⟩
  | send selector | superSend selector =>
      cases selector with
      | object => exact (Process.stop_ne_ok ran).elim
      | symbol selector => exact ⟨_, rfl, sends ran⟩

/-- A message that finds its values on the stack. -/
theorem Realizes.sendsOf (realizes : Realizes compilations state store (entry :: rest))
    (toSuper : Bool) (delivers : Delivers image rounds send) {selector : String}
    (reads : ReadsCode entry.method entry.bytecodeIndex (sendInstruction toSuper selector :: code))
    {result : Except (Interruption Object) (List (Value Object))}
    (ran : ((instructionSemantics compilations domain send entry.address).sendStep toSuper selector
      entry.stack).run store = ⟨result, after, events⟩) :
    Settles (Lasts (Goes image) rounds state) (Gets image state after)
      (fun stack => (entry.goOn 2).holding stack :: rest)
      (Pending.begun entry.address entry.method :: rest) (entry :: rest) result := by
  rw [Semantics.sendStep] at ran
  by_cases low : entry.stack.length < Signature.getNumberOfArguments selector
  · rw [if_pos low] at ran
    obtain ⟨rfl, -, -⟩ := Outcome.mk.inj ran
    trivial
  · rw [if_neg low] at ran
    let number := Signature.getNumberOfArguments selector
    have stacked : entry.stack = (entry.stack.take number).reverse.reverse ++
        entry.stack.drop number := by
      rw [List.reverse_reverse, List.take_append_drop]
    have counts : (entry.stack.take number).reverse.length = number := by
      rw [List.length_reverse, List.length_take]
      exact Nat.min_eq_left (Nat.le_of_not_lt low)
    rw [Process.run_map] at ran
    obtain ⟨rfl, rfl, -⟩ := Outcome.mk.inj ran
    exact (delivers _ _ _ _ _ _ _ _ _ _ _ _ realizes reads stacked counts rfl).map
      fun value => rfl

/-- An instruction that does not return settles as its meaning. -/
theorem Realizes.instructs (implements : Implements image domain)
    (delivers : Delivers image rounds send)
    (realizes : Realizes compilations state store (entry :: rest))
    (reads : ReadsCode entry.method entry.bytecodeIndex (instruction :: code))
    {result : Except (Interruption Object) (List (Value Object))}
    (room : instruction.isSend = false → ∀ stack, result = .ok stack →
      HasRoom entry.method stack.length)
    (ran : ((instructionSemantics compilations domain send entry.address).step instruction
      entry.stack).run store = ⟨result, after, events⟩) :
    Settles (Lasts (Goes image) rounds state) (Gets image state after)
      (fun stack => (entry.goOn (Instruction.size instruction)).holding stack :: rest)
      (Pending.begun entry.address entry.method :: rest) (entry :: rest) result := by
  cases isSend : instruction.isSend with
  | false =>
      cases result with
      | ok stack =>
          obtain ⟨next, ranRound, realizesNext⟩ :=
            realizes.step implements reads isSend ran (room isSend stack rfl)
          have noHalt : instruction ≠ .halt := by
            rintro rfl
            exact Process.stop_ne_ok ran
          exact ⟨next, .single (realizes.goes reads noHalt ranRound), realizesNext⟩
      | error reason =>
          obtain rfl := undefined_step isSend _ store reason (congrArg Outcome.result ran)
          trivial
  | true =>
      cases instruction with
      | send selector =>
          cases selector with
          | object =>
              obtain ⟨rfl, -, -⟩ := Outcome.mk.inj ran
              trivial
          | symbol selector => exact realizes.sendsOf false delivers reads ran
      | superSend selector =>
          cases selector with
          | object =>
              obtain ⟨rfl, -, -⟩ := Outcome.mk.inj ran
              trivial
          | symbol selector => exact realizes.sendsOf true delivers reads ran
      | _ => exact nomatch isSend

/-- The operand stack of a method has room for some code. -/
def FitsCode (method : CompiledMethod) (code : List Instruction) (depth : Nat) : Prop :=
  code = [.returnLocal] ∨ ∃ bound, method.maximumNumberOfStackElements = some bound ∧
    peak (code.map Instruction.effect) depth ≤ bound.toNat

theorem FitsCode.cons (fits : FitsCode method (instruction :: code) stack.length)
    (goesOn : instruction.isReturn = false)
    (ran : ((instructionSemantics compilations domain send address).step instruction stack).run
      store = ⟨.ok stack', after, events⟩) :
    HasRoom method stack'.length ∧ FitsCode method code stack'.length := by
  obtain ⟨effect, isEffect, isLength⟩ := step_effect ran
  rcases fits with same | ⟨bound, isBound, below⟩
  · obtain ⟨rfl, -⟩ := List.cons.inj same
    exact nomatch goesOn
  · rw [List.map_cons, isEffect, peak_cons, ← isLength] at below
    have later := Nat.le_trans (Nat.le_max_right _ _) below
    exact ⟨⟨bound, isBound, Nat.le_trans (le_peak _ _) later⟩, Or.inr ⟨bound, isBound, later⟩⟩

theorem answerFrom_run {activation : Activation Object}
    (there : store.activations[address]? = some activation) (value : Value Object) :
    (answerFrom address value).run store = ⟨.ok value, store.leaving address activation, []⟩ := by
  rw [answerFrom, Process.bind_of_silent (leave_run there)]
  rfl

/-- An activation that returns settles: its sender gets the answer. -/
theorem Realizes.answersFrom
    (realizes : Realizes compilations state store (entry :: sender :: rest))
    (reads : ReadsCode entry.method entry.bytecodeIndex (.returnLocal :: code))
    {value : Value Object} (answer : Answer store entry value)
    {result : Except (Interruption Object) (Value Object)}
    (ran : (answerFrom entry.address value).run store = ⟨result, after, events⟩) :
    Settles (Lasts (Goes image) rounds state) (Gets image state after)
      (fun value => sender.answered (numberOfArguments entry.method) value :: rest)
      again pending result := by
  obtain ⟨frame, activation, standing⟩ := realizes.head
  rw [answerFrom_run standing.there] at ran
  obtain ⟨rfl, rfl, -⟩ := Outcome.mk.inj ran
  exact realizes.returnsLocal reads answer standing.there

/-- The returns settle as their meaning. -/
theorem Realizes.runsReturn
    (realizes : Realizes compilations state store (entry :: sender :: rest))
    (isReturn : instruction.isReturn = true)
    (reads : ReadsCode entry.method entry.bytecodeIndex (instruction :: code))
    {result : Except (Interruption Object) (Value Object)}
    (ran : (runCode compilations domain send entry.address (instruction :: code)
      entry.stack).run store = ⟨result, after, events⟩) :
    Settles (Lasts (Goes image) rounds state) (Gets image state after)
      (fun value => sender.answered (numberOfArguments entry.method) value :: rest)
      again (entry :: sender :: rest) result := by
  cases instruction with
  | returnLocal =>
      cases top : entry.stack with
      | nil =>
          rw [top, runCode, lastVariable, Process.bind_assoc] at ran
          obtain ⟨frame, activation, standing⟩ := realizes.head
          rw [Process.bind_of_silent (readActivation_run standing.there)] at ran
          cases isLast : activation.variables.getLast? with
          | none =>
              rw [isLast] at ran
              obtain ⟨rfl, -, -⟩ := Outcome.mk.inj ran
              trivial
          | some value =>
              rw [isLast, Process.demand_some, Process.pure_bind] at ran
              exact realizes.answersFrom reads
                (Or.inr ⟨top, activation, standing.there, isLast⟩) ran
      | cons value below =>
          rw [top, runCode] at ran
          exact realizes.answersFrom reads (Or.inl (by rw [top]; rfl)) ran
  | returnNonLocal =>
      cases top : entry.stack with
      | nil =>
          rw [top] at ran
          obtain ⟨rfl, -, -⟩ := Outcome.mk.inj ran
          trivial
      | cons value below =>
          rw [top, runCode] at ran
          rcases escapeFrom_result ran with rfl | ⟨home, answer, rfl⟩
          · trivial
          · exact realizes.returnsNonLocal reads (by rw [top]; rfl) ran
  | _ => exact nomatch isReturn

/-- The code of an activation settles as its meaning, instruction by instruction. -/
theorem Realizes.runsCode (implements : Implements image domain) (delivers : Delivers image rounds send) :
    (code : List Instruction) → {state : State World Object} → {store after : Store World Object} →
    {entry : Pending Object} → {result : Except (Interruption Object) (Value Object)} →
    {events : List Empty} → Realizes compilations state store (entry :: sender :: rest) →
    ReadsCode entry.method entry.bytecodeIndex code →
    FitsCode entry.method code entry.stack.length →
    (runCode compilations domain send entry.address code entry.stack).run store =
      ⟨result, after, events⟩ →
    Settles (Lasts (Goes image) rounds state) (Gets image state after)
      (fun value => sender.answered (numberOfArguments entry.method) value :: rest)
      (Pending.begun entry.address entry.method :: sender :: rest) (entry :: sender :: rest) result
  | [], _, _, _, _, _, _, _, _, _, ran => by
      obtain ⟨rfl, -, -⟩ := Outcome.mk.inj ran
      trivial
  | instruction :: code, state, store, after, entry, result, events, realizes, reads, fits, ran => by
      cases isReturn : instruction.isReturn with
      | true => exact realizes.runsReturn isReturn reads ran
      | false =>
          rw [runCode_cons isReturn] at ran
          cases meant : ((instructionSemantics compilations domain send entry.address).step
              instruction entry.stack).run store with
          | mk steps middle early =>
              have room (noSend : instruction.isSend = false) (stack : List (Value Object))
                  (isStack : steps = .ok stack) : HasRoom entry.method stack.length :=
                (fits.cons isReturn (isStack ▸ meant)).1
              have settles := realizes.instructs implements delivers reads room meant
              cases steps with
              | error reason =>
                  rw [Process.bind_of_error meant] at ran
                  obtain ⟨rfl, rfl, -⟩ := Outcome.mk.inj ran
                  exact settles.ofError
              | ok stack =>
                  rw [Process.bind_of_ok meant] at ran
                  obtain ⟨isResult, isAfter, -⟩ := Outcome.mk.inj ran
                  obtain ⟨next, steps, realizesNext⟩ := settles
                  have run := steps.to_reflTransGen
                  have later := realizesNext.runsCode implements delivers code
                    reads.cons.2.2 (fits.cons isReturn meant).2
                    (show _ = (⟨result, after, _⟩ : Outcome _ _ _ _) by
                      rw [← isResult, ← isAfter]; rfl)
                  have settlesLater : Settles _ _ _ _ (entry :: sender :: rest) result :=
                    later.congr rfl rfl
                  exact settlesLater.imp (fun pending gets => gets.behind run) (.behind run)

/-! ### Activations -/

variable (compilations domain) in
/-- Where a meaning is defined, it is that of the compiled code, which has room. -/
def Meaning.OfCode (meaning : Meaning World Object) : Prop :=
  ∀ (send : Sending World Object) (address : Nat) (method : MethodAddress),
    meaning send address method = Process.stop .undefined ∨
      ∃ compiled code bound, methodAt compilations method = some compiled ∧
        decode compiled.literals compiled.bytecode = some code ∧
        compiled.maximumNumberOfStackElements = some bound ∧ FitsCode compiled code 0 ∧
        meaning send address method = runCode compilations domain send address code []

/-- What entering a method comes to. -/
theorem activate_eq_ok {caller : Nat} {method : MethodAddress} {context : Option Nat}
    {arguments : List (Value Object)}
    (ran : (activate compilations domain caller method context arguments).run store =
      ⟨.ok address, after, events⟩) :
    ∃ code, methodAt compilations method = some code ∧
      numberOfArguments code = arguments.length ∧ address = store.activations.length ∧
      after = store.entered domain (.entered domain caller method code context arguments) := by
  obtain ⟨code, isCode, ran⟩ := Process.demand_bind_eq_ok ran
  rw [Process.bind_of_silent (Process.run_read _)] at ran
  by_cases counts : numberOfArguments code = arguments.length
  · rw [if_pos counts] at ran
    obtain ⟨same, rfl, -⟩ := Outcome.mk.inj ran
    exact ⟨code, isCode, counts, (Except.ok.inj same).symm, rfl⟩
  · rw [if_neg counts] at ran
    exact nomatch (Outcome.mk.inj ran).1

/-- An activation that settles from its beginning settles however often it begins. -/
theorem Realizes.runsActivation {body : EvaluationM World Object (Value Object)}
    (settlesBody : ∀ (state : State World Object) (store after : Store World Object)
      (result : Except (Interruption Object) (Value Object)) (events : List Empty),
      Realizes compilations state store (.begun address method :: sender :: rest) →
      body.run store = ⟨result, after, events⟩ →
      Settles (Lasts (Goes image) rounds state) (Gets image state after)
        (fun value => sender.answered (numberOfArguments method) value :: rest)
        (.begun address method :: sender :: rest) (.begun address method :: sender :: rest)
        result) :
    (begins fewer : Nat) → fewer ≤ begins → fewer ≤ rounds →
    {state : State World Object} → {store after : Store World Object} →
    {result : Except (Interruption Object) (Value Object)} → {events : List Empty} →
    Realizes compilations state store (.begun address method :: sender :: rest) →
    (runActivation body address begins).run store = ⟨result, after, events⟩ →
    Settles (Lasts (Goes image) fewer state) (Gets image state after)
      (fun value => sender.answered (numberOfArguments method) value :: rest) again
      (sender :: rest) result
  | 0, _, noneFewer, _, _, _, _, _, _, _, ran => by
      obtain ⟨rfl, -, -⟩ := Outcome.mk.inj ran
      obtain rfl := Nat.le_zero.mp noneFewer
      trivial
  | begins + 1, fewer, enough, atMost, state, store, after, result, events, realizes, ran => by
      cases ranBody : body.run store with
      | mk ends middle early =>
          have settles := settlesBody state store middle ends early realizes ranBody
          obtain rfl : early = [] := Subsingleton.elim _ _
          rw [runActivation] at ran
          match ends, settles with
          | .ok value, gets =>
              rw [Process.handle_of_ok ranBody] at ran
              obtain ⟨rfl, rfl, -⟩ := Outcome.mk.inj ran
              exact gets
          | .error .restart, ⟨next, steps, realizesNext⟩ =>
              -- The code begins again in the state the restart has left.
              rw [Process.handle_of_error ranBody] at ran
              have later := realizesNext.runsActivation settlesBody begins (fewer - 1)
                (by omega) (by omega) ran
              refine later.imp (fun pending gets => gets.behind steps.to_reflTransGen)
                fun lasts => ?_
              exact (lasts.further steps).of_le (by omega)
          | .error (.escape home value), ⟨later, escapes, gets⟩ =>
              rw [Process.handle_of_error ranBody] at ran
              dsimp only at ran
              cases escapes with
              | home isHome =>
                  rw [if_pos (show home = address from isHome.symm)] at ran
                  obtain ⟨rfl, rfl, -⟩ := Outcome.mk.inj ran
                  exact gets
              | inner different more =>
                  rw [if_neg (show home ≠ address from Ne.symm different)] at ran
                  obtain ⟨rfl, rfl, -⟩ := Outcome.mk.inj ran
                  exact ⟨later, more, gets⟩
          | .error .undefined, _ =>
              rw [Process.handle_of_error ranBody] at ran
              obtain ⟨rfl, -, -⟩ := Outcome.mk.inj ran
              trivial
          | .error .exhausted, lasts =>
              rw [Process.handle_of_error ranBody] at ran
              obtain ⟨rfl, -, -⟩ := Outcome.mk.inj ran
              exact lasts.of_le atMost

/-- What is entered within a depth settles as its meaning, or goes on for as many
rounds. -/
theorem enters_enterWithin {meaning : Meaning World Object}
    (ofCode : Meaning.OfCode compilations domain meaning) (implements : Implements image domain) :
    ∀ depth, Enters image depth (enterWithin compilations domain meaning depth) := by
  intro depth
  induction depth with
  | zero =>
      intro _ _ _ _ _ _ _ _ _ _ _ _ _ _ ran
      obtain ⟨rfl, -, -⟩ := Outcome.mk.inj ran
      exact fun fewer noRound => absurd noRound (Nat.zero_ne_add_one fewer)
  | succ depth inductionHypothesis =>
      intro state store after entry rest again method context values below result events realizes
        stacked ran
      rw [enterWithin] at ran
      cases entered : (activate compilations domain entry.address method context values).run
          store with
      | mk found middle early =>
          cases found with
          | error reason =>
              obtain rfl := undefined_activate _ _ _ _ store reason
                (congrArg Outcome.result entered)
              rw [Process.bind_of_error entered] at ran
              obtain ⟨rfl, -, -⟩ := Outcome.mk.inj ran
              trivial
          | ok address =>
              rw [Process.bind_of_ok entered] at ran
              obtain ⟨isResult, isAfter, -⟩ := Outcome.mk.inj ran
              obtain ⟨code, isCode, counts, rfl, rfl⟩ := activate_eq_ok entered
              rcases ofCode (sendMessage domain (enterWithin compilations domain meaning depth))
                store.activations.length method with
                undefined | ⟨compiled, instructions, bound, isCompiled, decoded, isBound, fits, means⟩
              · rw [undefined] at isResult
                obtain rfl := isResult
                trivial
              · obtain rfl := Option.some.inj (isCode.symm.trans isCompiled)
                obtain ⟨next, ranEnter, realizesNext⟩ := realizes.enters context
                  implements.nilObject implements.setGlobal stacked isCode isBound counts
                have settlesBody := fun (state : State World Object)
                    (store' after : Store World Object)
                    (result : Except (Interruption Object) (Value Object)) (events : List Empty)
                    (realizesBody : Realizes compilations state store'
                      (.begun store.activations.length code :: entry :: rest))
                    (ranBody : (runCode compilations domain (sendMessage domain
                      (enterWithin compilations domain meaning depth)) store.activations.length
                      instructions []).run store' = ⟨result, after, events⟩) =>
                  realizesBody.runsCode implements
                    (inductionHypothesis.delivers implements) instructions
                    ⟨code.bytecode.length, decoded⟩ fits ranBody
                have settles : Settles _ _ _ again (entry :: rest) result :=
                  realizesNext.runsActivation settlesBody (depth + 1) depth (Nat.le_succ depth)
                    (Nat.le_refl depth) (show _ = (⟨result, after, _⟩ : Outcome _ _ _ _) by
                      rw [← isResult, ← isAfter, means])
                have dropped : entry.stack.drop (numberOfArguments code) = below := by
                  rw [stacked, counts, ← List.length_reverse, List.drop_left]
                simp only [Pending.answered, dropped] at settles
                refine settles.imp (fun pending gets => ?_) fun lasts fewer isDepth => ?_
                · obtain ⟨last, steps, realizesLast⟩ := gets
                  exact ⟨next, last, ranEnter, steps.to_reflTransGen, realizesLast⟩
                · obtain rfl := Nat.succ.inj isDepth
                  exact ⟨next, ranEnter, lasts⟩

end

/-! ### Programs -/

section

variable {World Object : Type} {definitions : List ClassDefinition}

/-- The code of every method and block is read back, and a byte says how high its
operand stack goes. -/
def Runnable (definitions : List ClassDefinition) : Prop :=
  ∀ definition ∈ definitions, ∀ unit ∈ definition.generate.units,
    CodeUnit.Readable unit ∧ unit.stackNeed < 256

instance (definitions : List ClassDefinition) : Decidable (Runnable definitions) :=
  inferInstanceAs (Decidable (∀ definition ∈ definitions, _))

/-- The operand stack of a compiled method has room for its code. -/
theorem fitsCode_unit {unit : CodeUnit} (readable : CodeUnit.Readable unit)
    (small : unit.stackNeed < 256) :
    ∃ bound, unit.mgenc.compiled.maximumNumberOfStackElements = some bound ∧
      FitsCode unit.mgenc.compiled unit.code 0 := by
  have same := unit.sameCode.same readable.2
  by_cases hollow : (unit.block && unit.body.isEmpty) = true
  · -- An empty block answers what is below its stack.
    have code : unit.code = [.returnLocal] := by
      obtain ⟨isBlock, noStatement⟩ := Bool.and_eq_true_iff.mp hollow
      rw [CodeUnit.code, isBlock]
      generalize unit.body = body at noStatement
      cases body with
      | empty => rfl
      | result | last | statement => exact Bool.noConfusion noStatement
    refine ⟨0, ?_, Or.inl code⟩
    rw [MethodGenerationContext.compiled, MethodGenerationContext.computeStackDepth,
      unit.bytecode_mgenc, same, code]
    rfl
  · have fits : FitsBytes unit.mgenc.literals (instructions unit.generated.actions) :=
      same ▸ readable.1
    obtain ⟨seen, bound, decoded, isBound, -, below, -⟩ :=
      (unit.stackVerified_iff (CodeUnit.sendsReadBack_of_fits fits)).mpr
        ⟨Bool.eq_false_iff.mpr hollow, small⟩
    obtain rfl := Option.some.inj (decoded.symm.trans (unit.decode_iff.mpr readable))
    exact ⟨bound, isBound, Or.inr ⟨bound, isBound, below⟩⟩

/-- What is written means what is compiled. -/
theorem ofCode_sourceMeaning (domain : Domain World Object) (runnable : Runnable definitions) :
    Meaning.OfCode (compiledClasses definitions) domain
      (sourceMeaning (compiledClasses definitions) domain definitions) := by
  intro send address method
  cases isUnit : unitAt definitions method with
  | none => exact Or.inl (by rw [sourceMeaning, isUnit]; rfl)
  | some unit =>
      obtain ⟨source, definition, there, compiled, rfl⟩ := unitAt_eq_some isUnit
      obtain ⟨readable, small⟩ := runnable definition (List.mem_of_getElem? there) unit compiled
      obtain ⟨bound, isBound, fits⟩ := fitsCode_unit readable small
      have isMethod := methodAt_unit (loaded_compiledClasses there) compiled
      have decoded : decode unit.mgenc.compiled.literals unit.mgenc.compiled.bytecode =
          some unit.code := unit.decode_iff.mpr readable
      refine Or.inr ⟨unit.mgenc.compiled, unit.code, bound, isMethod, decoded, isBound, fits, ?_⟩
      rw [← codeMeaning_eq isUnit readable, codeMeaning, isMethod, Process.demand_some,
        Process.pure_bind, decoded, Process.demand_some, Process.pure_bind]

end

/-! ### A small program -/

theorem lexical_arguments :
    Signature.isBinary "arguments" = false ∧ "arguments".toList.count ':' = 0 := by decide

theorem lexical_initialize :
    Signature.isBinary "initialize:" = false ∧ "initialize:".toList.count ':' = 1 := by decide

/-- `[ ^arguments ] value`. -/
def echoBody : Body :=
  .last (.mk [] (.block [] none (.result (.mk [] (.name ⟨"arguments", lexical_arguments⟩) []
    .done .done) false)) [⟨"value", lexical_value⟩] .done .done)

/-- A class `Foo` with a method `initialize: arguments`. -/
def initializeClass (body : Body) : ClassDefinition where
  name := ⟨"Foo", lexical_className⟩
  superName := none
  instanceSide := ⟨none, [.code (.keyword (⟨"initialize:", lexical_initialize⟩,
    ⟨⟨.identifier, "arguments"⟩, Or.inl rfl⟩) []) none body], by
    intro _ method member
    obtain rfl := Option.mem_some.mp member
    exact fun same => nomatch same⟩
  classSide := none

/-- `Foo = ( initialize: arguments = ( [ ^arguments ] value ) )`. -/
def echoClass : ClassDefinition := initializeClass echoBody

theorem echoClass_runnable : Runnable [echoClass] := by decide +kernel

def echoMethod : InstalledMethod (compiledClasses [echoClass]) where
  compilation := 0
  address := 1
  source := .ofDefinition echoClass
  compiled := rfl
  installed := by decide +kernel

/-- Every object answers every message with the method, and every block with its value. -/
def echoDomain : Domain Unit Unit where
  nilObject := ()
  resends := 1
  constant _ _ := .object ()
  lookup _ receiver _ :=
    match receiver with
    | .object _ => some (.method echoMethod.method)
    | .block _ => some (.evaluation 1)
    | .frame _ => none
  lookupSuper _ _ _ := none
  getField _ _ _ := none
  setField world _ _ _ := some world
  getGlobal _ _ := none
  setGlobal world _ _ := world
  setBlockClass store _ _ := some store.world

def echoImage : Image (compiledClasses [echoClass]) Unit Unit where
  nilObject := ()
  system := ()
  stackDepth := 1
  constant _ _ := .object ()
  symbol _ := .object ()
  lookupInvokable _ receiver _ :=
    match receiver with
    | .object _ => some (.method echoMethod)
    | .block _ => some (.evaluation 1)
    | .frame _ => none
  lookupSuper _ _ _ := none
  getField _ _ _ := none
  setField world _ _ _ := some world
  getGlobal _ _ := none
  setGlobal world _ _ := world
  newArray world _ := (world, .object ())
  setBlockClass state _ _ := some state.world

theorem echoImage_implements : Implements echoImage echoDomain where
  nilObject := rfl
  stackDepth := Nat.le_refl 1
  constant := rfl
  setField := rfl
  setGlobal := rfl
  lookup _ _ _ receiver _ behaviour found := by
    cases receiver with
    | object =>
        obtain rfl := Option.some.inj found
        exact ⟨_, rfl, .method echoMethod⟩
    | block =>
        obtain rfl := Option.some.inj found
        exact ⟨_, rfl, .evaluation 1⟩
    | frame => exact nomatch found
  lookupSuper _ _ _ _ _ _ found := nomatch found
  getField _ _ _ _ _ _ found := nomatch found
  getGlobal _ _ _ _ _ found := nomatch found
  setBlockClass _ _ corresponds _ _ _ found :=
    (congrArg some corresponds.world).trans found

/-! ### Messages of programs -/

section

variable {World Object : Type} {definitions : List ClassDefinition}
  {image : Image (compiledClasses definitions) World Object} {domain : Domain World Object}

/-- The rounds for a message end as the message does when the methods and blocks of the
program are evaluated as they are written. -/
theorem rounds_evaluate (runnable : Runnable definitions) (implements : Implements image domain)
    (depth : Nat) :
    Delivers image depth (evaluate (compiledClasses definitions) domain
      (sourceMeaning (compiledClasses definitions) domain definitions) depth) :=
  (enters_enterWithin (ofCode_sourceMeaning domain runnable) implements depth).delivers implements

/-- The messages of the small program. -/
theorem echo_delivers :
    Delivers echoImage 2 (evaluate (compiledClasses [echoClass]) echoDomain
      (sourceMeaning (compiledClasses [echoClass]) echoDomain [echoClass]) 2) :=
  rounds_evaluate echoClass_runnable echoImage_implements 2

end

end Somr.Interpreter
