import Somr.Interpreter.Simulation

/-!
Owns whole programs and sessions of the shell: what `Universe::initialize` and the
main loop of the shell invoke in the bootstrap frame, that `Interpreter::Start`
comes back to the `HALT` of that frame with the answers of the evaluation, and that it
never does where the evaluation does not end.
-/

namespace Somr.Interpreter

open Foundation Compiler

section

variable {compilations : List Compilation} {World Object : Type}
  {image : Image compilations World Object} {domain : Domain World Object}
  {state : State World Object} {store after : Store World Object} {entry : Pending Object}
  {rest : List (Pending Object)}

/-! ### Messages from outside -/

/-- A message that a frame has pushed the receiver and the argument of settles as its
evaluation. -/
theorem Realizes.begins {enter : Entry World Object} {rounds : Nat}
    (implements : Implements image domain) (enters : Enters image rounds enter)
    (realizes : Realizes compilations state store (entry :: rest))
    (room : HasRoom entry.method (entry.stack.length + 2)) {receiver argument : Value Object}
    {selector : String} {result : Except (Interruption Object) (Value Object)}
    {events : List Empty}
    (ran : (sendMessage domain enter entry.address false selector [receiver, argument]).run store =
      ⟨result, after, events⟩) :
    Settles
      (LastsBehind image (Interpreter.enter image entry.address receiver argument selector) rounds
        state)
      (Follows image (Interpreter.enter image entry.address receiver argument selector) state after)
      (fun value => entry.holding (value :: entry.stack) :: rest)
      (.begun entry.address entry.method :: rest) (entry :: rest) result := by
  rw [sendMessage] at ran
  cases found : (findBehaviour domain entry.address selector [receiver, argument] false).run
      store with
  | mk finds middle early =>
      cases finds with
      | error reason =>
          obtain rfl := undefined_findBehaviour _ _ _ _ store reason (congrArg Outcome.result found)
          rw [Process.bind_of_error found] at ran
          obtain ⟨rfl, -, -⟩ := Outcome.mk.inj ran
          trivial
      | ok behaviour =>
          rw [Process.bind_of_ok found] at ran
          obtain ⟨isResult, isAfter, -⟩ := Outcome.mk.inj ran
          obtain ⟨_, isFirst, rfl, isBehaviour⟩ := findBehaviour_eq_ok found
          obtain rfl := Option.some.inj isFirst
          obtain ⟨bound, isBound, enough⟩ := room
          obtain ⟨first, pushed, realizesFirst⟩ := realizes.push receiver
            (realizes.hasFreeSlot ⟨bound, isBound, by omega⟩)
          obtain ⟨second, pushedToo, realizesSecond⟩ := realizesFirst.push argument
            (realizesFirst.hasFreeSlot ⟨bound, isBound, enough⟩)
          obtain ⟨invokable, isInvokable, behaves⟩ := implements.lookup second _
            realizesSecond.toCorresponds.bare receiver selector behaviour isBehaviour
          have settles := realizesSecond.invokes implements enters domain.resends
            implements.stackDepth behaves rfl
            (show _ = (⟨result, after, _⟩ : Outcome _ _ _ _) by rw [← isResult, ← isAfter]; rfl)
          have resettles : Settles _ _ _ _ (entry :: rest) result := settles.congr rfl rfl
          have pushedThere : (Interpreter.push entry.address argument).run first =
              ⟨.ok (), second, []⟩ := pushedToo
          have same : (Interpreter.enter image entry.address receiver argument selector).run state =
              (invoke image invokable entry.address).run second := by
            rw [Interpreter.enter, Process.bind_of_silent pushed,
              Process.bind_of_silent pushedThere, Process.bind_of_silent (Process.run_read _),
              isInvokable, Process.demand_some, Process.pure_bind]
          exact resettles.imp (fun pending => Follows.congr same) (LastsBehind.congr same)

/-! ### The bootstrap frame -/

/-- The bootstrap frame, where it halts. -/
def bootstrapEntry (stack : List (Value Object)) : Pending Object where
  address := 0
  method := bootstrapMethod
  bytecodeIndex := 0
  stack := stack

def bootstrapActivation (domain : Domain World Object) : Activation Object where
  caller := none
  method := .bootstrap
  arguments := List.replicate (numberOfArguments bootstrapMethod) (.object domain.nilObject)
  locals := []

/-- The store with the activation of the bootstrap frame only. -/
def Store.bootstrap (domain : Domain World Object) (world : World) : Store World Object where
  activations := [bootstrapActivation domain]
  world := domain.setGlobal world "Frame" (.frame 0)

theorem keeps_bootstrap (sameNil : image.nilObject = domain.nilObject) :
    (newFrameOf image none .bootstrap bootstrapMethod 2).Keeps (bootstrapActivation domain) := by
  refine ⟨rfl, rfl, rfl, ?_, List.replicate 2 (.object domain.nilObject), ?_⟩
  · simp [newFrameOf, Frame.resetStackPointer, bootstrapActivation]
  · rw [newFrameOf, Frame.resetStackPointer, Activation.variables, bootstrapActivation]
    dsimp only
    rw [List.append_nil, List.replicate_append_replicate, sameNil]
    rfl

theorem standsAt_bootstrap (sameNil : image.nilObject = domain.nilObject) :
    StandsAt compilations (newFrameOf image none .bootstrap bootstrapMethod 2)
      (bootstrapActivation domain) (bootstrapEntry []) := by
  refine ⟨rfl, ?_, rfl, rfl, ⟨?_, ?_⟩, 2, rfl, ?_⟩
  · simp [bootstrapActivation, bootstrapEntry]
  · simp [newFrameOf, Frame.resetStackPointer, bootstrapActivation, Activation.variables,
      bootstrapMethod, bootstrapEntry]
  · rw [bootstrapEntry, List.reverse_nil, List.append_nil]
    exact (keeps_bootstrap sameNil).slots
  · simp [newFrameOf, Frame.resetStackPointer, bootstrapActivation, Activation.variables,
      bootstrapMethod]

/-- The first frame of a program or of the shell. -/
theorem pushBootstrapFrame (implements : Implements image domain) (world : World) :
    ∃ first, (pushNewFrame image .bootstrap).run { world := world } = ⟨.ok 0, first, []⟩ ∧
      Realizes compilations first (.bootstrap domain world) [bootstrapEntry []] := by
  have pushed : (pushNewFrame image .bootstrap).run { world := world } = ⟨.ok 0,
      State.enter { world := world } (newFrameOf image none .bootstrap bootstrapMethod 2)
        (domain.setGlobal world "Frame" (.frame 0)), []⟩ := by
    rw [← implements.setGlobal]
    exact pushNewFrame_newFrameOf rfl rfl
  have empty : Corresponds compilations { world := world } { world := world }
      ([] : List (Pending Object)) := ⟨rfl, nofun, nofun, rfl, rfl⟩
  have corresponds : Corresponds compilations _ _ [bootstrapEntry []] :=
    empty.enter (domain.setGlobal world "Frame" (.frame 0)) (keeps_bootstrap implements.nilObject)
      rfl (standsAt_bootstrap implements.nilObject)
  exact ⟨_, pushed, corresponds, rfl, .outermost rfl rfl, List.nodup_singleton _⟩

/-! ### Starting the interpreter -/

/-- `Interpreter::Start` comes to a `HALT`, and no sooner, and returns. -/
def Returns (image : Image compilations World Object) (state last : State World Object) : Prop :=
  ∃ halting, Relation.ReflTransGen (Goes image) state halting ∧ Halts compilations halting ∧
    (round image).run halting = ⟨.ok (), last, []⟩

variable (image) in
/-- The bootstrap frame halts. -/
theorem Realizes.halts {stack : List (Value Object)}
    (realizes : Realizes compilations state store [bootstrapEntry stack]) :
    ∃ last, Returns image state last ∧
      Realizes compilations last store [(bootstrapEntry stack).goOn 1] := by
  obtain ⟨frame, activation, standing⟩ := realizes.head
  have reads : ReadsCode bootstrapMethod 0 [.halt] := ⟨1, rfl⟩
  obtain ⟨last, realizesLast, ran⟩ := realizes.rounds image reads
  refine ⟨last, ⟨state, .refl, ⟨0, frame, bootstrapMethod, realizes.isRunning, standing.found,
    standing.keeps.method ▸ standing.stands.isMethod, ?_⟩, ran⟩, realizesLast⟩
  rw [standing.stands.bytecodeIndex]
  rfl

theorem Returns.behind {first last : State World Object} (returns : Returns image first last)
    (run : Relation.ReflTransGen (Goes image) state first) : Returns image state last := by
  obtain ⟨halting, more, there⟩ := returns
  exact ⟨halting, run.trans more, there⟩

end

/-! ### Programs and sessions -/

section

variable {World Object : Type} {definitions : List ClassDefinition}
  {image : Image (compiledClasses definitions) World Object} {domain : Domain World Object}

/-- What the program of some classes answers to a message from outside. -/
def answers (definitions : List ClassDefinition) (domain : Domain World Object) (depth : Nat)
    (selector : String) (receiver argument : Value Object) :
    EvaluationM World Object (Value Object) :=
  evaluate (compiledClasses definitions) domain
    (sourceMeaning (compiledClasses definitions) domain definitions) depth 0 false selector
    [receiver, argument]

/-- A program runs to the `HALT` of its bootstrap frame, with what `initialize:`
answers on the stack. -/
theorem program_returns (runnable : Runnable definitions) (implements : Implements image domain)
    (depth : Nat) (argumentsArray : Value Object) {world : World} {value : Value Object}
    {after : Store World Object} {events : List Empty}
    (evaluates : (answers definitions domain depth "initialize:" (.object image.system)
      argumentsArray).run (.bootstrap domain world) = ⟨.ok value, after, events⟩) :
    ∃ first last, (universeInitialize image argumentsArray).run { world := world } =
        ⟨.ok (), first, []⟩ ∧ Returns image first last ∧
      Realizes (compiledClasses definitions) last after [(bootstrapEntry [value]).goOn 1] := by
  obtain ⟨first, pushed, realizes⟩ := pushBootstrapFrame implements world
  have enters := enters_enterWithin (ofCode_sourceMeaning domain runnable) implements depth
  obtain ⟨next, last, begins, run, realizesLast⟩ :=
    realizes.begins implements enters ⟨2, rfl, Nat.le_refl 2⟩ evaluates
  obtain ⟨halted, returns, realizesHalted⟩ := realizesLast.halts image
  refine ⟨next, halted, ?_, returns.behind run, realizesHalted⟩
  rw [universeInitialize, Process.bind_of_silent pushed]
  exact begins

/-- The program answers its arguments. -/
theorem echo_returns : ∃ first last,
    (universeInitialize echoImage (.frame 0)).run { world := () } = ⟨.ok (), first, []⟩ ∧
      Returns echoImage first last ∧
      Realizes (compiledClasses [echoClass]) last ⟨[bootstrapActivation echoDomain,
        ⟨none, none, echoMethod.method, [.object (), .frame 0], []⟩,
        ⟨none, some 1, .compiled 0 0, [.block 0], []⟩], [⟨.compiled 0 0, 1⟩], ()⟩
        [(bootstrapEntry [.frame 0]).goOn 1] :=
  program_returns echoClass_runnable echoImage_implements 2 (.frame 0)
    (show _ = (⟨_, _, []⟩ : Outcome _ _ _ _) by decide +kernel)

/-! ### Programs that do not end -/

/-- An activation whose code begins it again comes to no end within any number of
beginnings. -/
theorem exhausted_runActivation {body : EvaluationM World Object (Value Object)}
    {store : Store World Object} (restarts : body.run store = ⟨.error .restart, store, []⟩)
    (address rounds : Nat) :
    (runActivation body address rounds).run store = ⟨.error .exhausted, store, []⟩ := by
  induction rounds with
  | zero => rfl
  | succ rounds inductionHypothesis =>
      rw [runActivation, Process.handle_of_error restarts]
      exact inductionHypothesis

theorem lexical_restart :
    Signature.isBinary "restart" = false ∧ "restart".toList.count ':' = 0 := by decide

/-- `Foo = ( initialize: arguments = ( self restart ) )`. -/
def spinClass : ClassDefinition :=
  initializeClass (.last (.mk [] (.name ⟨"self", Identifier.lexical_self⟩)
    [⟨"restart", lexical_restart⟩] .done .done))

theorem spinClass_runnable : Runnable [spinClass] := by decide +kernel

def spinMethod : InstalledMethod (compiledClasses [spinClass]) where
  compilation := 0
  address := 0
  source := .ofDefinition spinClass
  compiled := rfl
  installed := by decide +kernel

/-- Every value answers `restart` with the primitive, and other messages with the method. -/
def spinDomain : Domain Unit Unit where
  nilObject := ()
  resends := 1
  constant _ _ := .object ()
  lookup _ _ selector :=
    if selector = "restart" then some .restart else some (.method spinMethod.method)
  lookupSuper _ _ _ := none
  getField _ _ _ := none
  setField world _ _ _ := some world
  getGlobal _ _ := none
  setGlobal world _ _ := world
  setBlockClass store _ _ := some store.world

def spinImage : Image (compiledClasses [spinClass]) Unit Unit where
  nilObject := ()
  system := ()
  stackDepth := 1
  constant _ _ := .object ()
  symbol _ := .object ()
  lookupInvokable _ _ selector :=
    if selector = "restart" then some (.primitive blockRestart) else some (.method spinMethod)
  lookupSuper _ _ _ := none
  getField _ _ _ := none
  setField world _ _ _ := some world
  getGlobal _ _ := none
  setGlobal world _ _ := world
  newArray world _ := (world, .object ())
  setBlockClass state _ _ := some state.world

theorem spinImage_implements : Implements spinImage spinDomain where
  nilObject := rfl
  stackDepth := Nat.le_refl 1
  constant := rfl
  setField := rfl
  setGlobal := rfl
  lookup _ _ _ receiver selector behaviour found := by
    change (if selector = "restart" then _ else _) = _ at found
    change ∃ invokable, (if selector = "restart" then _ else _) = _ ∧ _
    by_cases isRestart : selector = "restart"
    · rw [if_pos isRestart] at found ⊢
      obtain rfl := Option.some.inj found
      exact ⟨_, rfl, .restart (restarts_blockRestart spinImage)⟩
    · rw [if_neg isRestart] at found ⊢
      obtain rfl := Option.some.inj found
      exact ⟨_, rfl, .method spinMethod⟩
  lookupSuper _ _ _ _ _ _ found := nomatch found
  getField _ _ _ _ _ _ found := nomatch found
  getGlobal _ _ _ _ _ found := nomatch found
  setBlockClass _ _ corresponds _ _ _ found :=
    (congrArg some corresponds.world).trans found

/-- The store with the activation of the method. -/
def spinStore : Store Unit Unit where
  activations := [bootstrapActivation spinDomain,
    ⟨some 0, none, spinMethod.method, [.object (), .frame 0], []⟩]
  world := ()

theorem spin_restarts (enter : Entry Unit Unit) :
    (sourceMeaning (compiledClasses [spinClass]) spinDomain [spinClass]
      (sendMessage spinDomain enter) 1 spinMethod.method).run spinStore =
      ⟨.error .restart, spinStore, []⟩ := rfl

/-- A program whose evaluation does not come to an end within any depth goes on for ever:
wherever it gets there is another round, and no `HALT`. -/
theorem program_goes_on (runnable : Runnable definitions) (implements : Implements image domain)
    (argumentsArray : Value Object) {world : World}
    (exhausts : ∀ depth, ((answers definitions domain depth "initialize:" (.object image.system)
      argumentsArray).run (.bootstrap domain world)).result = .error .exhausted) :
    ∃ first, (universeInitialize image argumentsArray).run { world := world } =
        ⟨.ok (), first, []⟩ ∧
      ∀ later, Relation.ReflTransGen (Goes image) first later →
        ∃ next, Goes image later next := by
  obtain ⟨start, pushed, realizes⟩ := pushBootstrapFrame implements world
  have starts : (universeInitialize image argumentsArray).run { world := world } =
      (enter image 0 (.object image.system) argumentsArray "initialize:").run start := by
    rw [universeInitialize, Process.bind_of_silent pushed]
  have lasts : ∀ rounds, LastsBehind image
      (enter image 0 (.object image.system) argumentsArray "initialize:") rounds start := by
    intro rounds
    have enters := enters_enterWithin (ofCode_sourceMeaning domain runnable) implements rounds
    cases ran : (answers definitions domain rounds "initialize:" (.object image.system)
        argumentsArray).run (.bootstrap domain world) with
    | mk result after events =>
        have isExhausted := exhausts rounds
        rw [ran] at isExhausted
        obtain rfl : result = .error .exhausted := isExhausted
        exact realizes.begins implements enters ⟨2, rfl, Nat.le_refl 2⟩ ran
  obtain ⟨first, begins, -⟩ := lasts 1 0 rfl
  refine ⟨first, starts.trans begins, fun later run => ?_⟩
  refine goesOn_of_lasts (fun state next other goes differently => ?_) (fun rounds => ?_) run
  · exact (Outcome.mk.inj (goes.ran.symm.trans differently.ran)).2.1
  · obtain ⟨next, same, more⟩ := lasts (rounds + 1) rounds rfl
    obtain rfl : first = next := (Outcome.mk.inj (begins.symm.trans same)).2.1
    exact more

/-- The method begins again for ever. -/
theorem spin_goes_on : ∃ first,
    (universeInitialize spinImage (.frame 0)).run { world := () } = ⟨.ok (), first, []⟩ ∧
      ∀ later, Relation.ReflTransGen (Goes spinImage) first later →
        ∃ next, Goes spinImage later next := by
  refine program_goes_on spinClass_runnable spinImage_implements (.frame 0) fun depth => ?_
  cases depth with
  | zero => rfl
  | succ depth =>
      have restarts := spin_restarts (enterWithin (compiledClasses [spinClass]) spinDomain
        (sourceMeaning (compiledClasses [spinClass]) spinDomain [spinClass]) depth)
      have spins := exhausted_runActivation restarts 1 (depth + 1)
      exact congrArg Outcome.result spins

/-- The main loop of the shell over some statements, each the receiver of `run:` with
the result of the one before. -/
inductive Session {compilations : List Compilation} (image : Image compilations World Object) :
    State World Object → Value Object → List (Value Object) → State World Object →
      Value Object → Prop where
  | done (state : State World Object) (it : Value Object) : Session image state it [] state it
  | statement {state first last popped final : State World Object} {currentFrame : Nat}
      {it receiver value result : Value Object} {more : List (Value Object)} :
      state.frame = some currentFrame →
      (shellStatement image receiver it).run state = ⟨.ok (), first, []⟩ →
      Returns image first last → (pop currentFrame).run last = ⟨.ok value, popped, []⟩ →
      Session image popped value more final result →
      Session image state it (receiver :: more) final result

/-- What some statements come to, one after the other. -/
def sessionValue (definitions : List ClassDefinition) (domain : Domain World Object)
    (depth : Nat) : Value Object → List (Value Object) → EvaluationM World Object (Value Object)
  | it, [] => pure it
  | it, receiver :: more => do
      let value ← answers definitions domain depth "run:" receiver it
      sessionValue definitions domain depth value more

/-- One statement of the shell. -/
theorem statement_returns (runnable : Runnable definitions) (implements : Implements image domain)
    (depth : Nat) {state : State World Object} {store after : Store World Object} {index : Nat}
    {receiver it value : Value Object} {events : List Empty}
    (realizes : Realizes (compiledClasses definitions) state store
      [(bootstrapEntry []).goOn index])
    (evaluates : (answers definitions domain depth "run:" receiver it).run store =
      ⟨.ok value, after, events⟩) :
    ∃ first last popped, (shellStatement image receiver it).run state = ⟨.ok (), first, []⟩ ∧
      Returns image first last ∧ (pop 0).run last = ⟨.ok value, popped, []⟩ ∧
      Realizes (compiledClasses definitions) popped after [(bootstrapEntry []).goOn 1] := by
  obtain ⟨rewound, rewinds, realizesRewound⟩ := realizes.goesTo fun _ => 0
  have enters := enters_enterWithin (ofCode_sourceMeaning domain runnable) implements depth
  obtain ⟨next, last, begins, run, realizesLast⟩ :=
    realizesRewound.begins implements enters ⟨2, rfl, Nat.le_refl 2⟩ evaluates
  obtain ⟨halted, returns, realizesHalted⟩ :=
    (show Realizes _ last after [bootstrapEntry [value]] from realizesLast).halts image
  obtain ⟨popped, pops, realizesPopped, -⟩ := realizesHalted.pop rfl
  refine ⟨next, halted, popped, ?_, returns.behind run, pops, realizesPopped⟩
  rw [shellStatement, Process.bind_of_silent (getFrame_run realizes.isRunning),
    Process.bind_of_silent rewinds]
  exact begins

/-- A session of the shell answers what its statements come to, and leaves the bootstrap
frame for the next one. -/
theorem session_returns (runnable : Runnable definitions) (implements : Implements image domain)
    (depth : Nat) (receivers : List (Value Object)) : ∀ {state : State World Object}
    {store after : Store World Object} {index : Nat} {it value : Value Object}
    {events : List Empty},
    Realizes (compiledClasses definitions) state store [(bootstrapEntry []).goOn index] →
    (sessionValue definitions domain depth it receivers).run store =
      ⟨.ok value, after, events⟩ →
    ∃ last index, Session image state it receivers last value ∧
      Realizes (compiledClasses definitions) last after [(bootstrapEntry []).goOn index] := by
  induction receivers with
  | nil =>
      intro state store after index it value events realizes evaluates
      obtain ⟨same, rfl, -⟩ := Outcome.mk.inj evaluates
      obtain rfl := Except.ok.inj same
      exact ⟨state, index, .done state it, realizes⟩
  | cons receiver more inductionHypothesis =>
      intro state store after index it value events realizes evaluates
      obtain ⟨answer, middle, _, _, ranStatement, behind, -⟩ := Process.bind_eq_ok evaluates
      obtain ⟨first, last, popped, starts, returns, pops, realizesPopped⟩ :=
        statement_returns runnable implements depth realizes ranStatement
      obtain ⟨final, finalIndex, session, realizesFinal⟩ :=
        inductionHypothesis realizesPopped behind
      exact ⟨final, finalIndex, .statement realizes.isRunning starts returns pops session,
        realizesFinal⟩

/-- Two statements of a session. -/
theorem echo_session : ∃ start last index,
    (pushNewFrame echoImage .bootstrap).run { world := () } = ⟨.ok 0, start, []⟩ ∧
      Session echoImage start (.frame 0) [.object (), .object ()] last (.frame 0) ∧
      Realizes (compiledClasses [echoClass]) last
        ((sessionValue [echoClass] echoDomain 2 (.frame 0) [.object (), .object ()]).run
          (.bootstrap echoDomain ())).state [(bootstrapEntry []).goOn index] := by
  obtain ⟨start, pushed, realizes⟩ := pushBootstrapFrame echoImage_implements ()
  have evaluates : (sessionValue [echoClass] echoDomain 2 (.frame 0) [.object (), .object ()]).run
      (.bootstrap echoDomain ()) = ⟨.ok (.frame 0), ((sessionValue [echoClass] echoDomain 2
        (.frame 0) [.object (), .object ()]).run (.bootstrap echoDomain ())).state, []⟩ := by
    decide +kernel
  obtain ⟨last, index, session, realizesLast⟩ := session_returns echoClass_runnable
    echoImage_implements 2 [.object (), .object ()]
    (show Realizes _ start _ [(bootstrapEntry []).goOn 0] from realizes) evaluates
  exact ⟨start, last, index, pushed, session, realizesLast⟩

end

end Somr.Interpreter
