import Somr.Compiler.ExpressionCode
import Somr.Foundation.StackDepth

/-!
Owns the operand stack of compiled methods: how high the code of a body goes, what
`ComputeStackDepth` answers for it, and when the code passes verification.

A block without statements returns from an empty stack, and the reserved size is
a byte; these are the two ways in which compiled code fails. A send whose
selector is read back with another number of arguments is left to the encoding
of operands.
-/

namespace Somr.Compiler

open Somr.Foundation

/-! ### Verification -/

/-- What an instruction takes from the operand stack and leaves on it; a send of
a literal that is no symbol has no effect to speak of. -/
def Instruction.effect : Instruction → Option Effect
  | .halt => some ⟨0, 0⟩
  | .dup => some ⟨1, 2⟩
  | .pushLocal .. | .pushArgument .. | .pushField _ | .pushBlock _ | .pushConstant _
  | .pushGlobal _ => some ⟨0, 1⟩
  | .pop | .popLocal .. | .popArgument .. | .popField _ => some ⟨1, 0⟩
  | .send (.symbol selector) | .superSend (.symbol selector) =>
      some ⟨Signature.getNumberOfArguments selector, 1⟩
  | .send (.object _) | .superSend (.object _) => none
  | .returnLocal | .returnNonLocal => some ⟨1, 1⟩

def Instruction.isReturn : Instruction → Bool
  | .returnLocal | .returnNonLocal => true
  | _ => false

def EndsInReturn (code : List Instruction) : Prop :=
  code.getLast?.map Instruction.isReturn = some true

/-- Simulating the code of a method from an empty stack never takes from a stack
that is too low, stays within the reserved size, and ends in a return, which
finds an operand. -/
def StackVerified (method : CompiledMethod) : Prop :=
  ∃ code bound, decode method.literals method.bytecode = some code ∧
    method.maximumNumberOfStackElements = some bound ∧
    (∃ last, depthAfter (code.map Instruction.effect) 0 = some last) ∧
    peak (code.map Instruction.effect) 0 ≤ bound.toNat ∧
    EndsInReturn code

/-- The interpreter reads every instruction of some code with its own effect. -/
def EffectsReadBack (literals : List Literal) (code : List Instruction) : Prop :=
  ∀ instruction ∈ code,
    (instruction.truncate literals).bind Instruction.effect = instruction.effect

/-- The interpreter reads every send of a unit with a selector of as many
arguments. -/
def CodeUnit.SendsReadBack (unit : CodeUnit) : Prop :=
  ∀ instruction ∈ instructions unit.generated.actions, instruction.isSend = true →
    (instruction.truncate unit.mgenc.literals).bind Instruction.effect = instruction.effect

/-! ### How high the code of a body goes -/

/-- An assignment duplicates its value once for each target. -/
def Operation.need : Operation → Nat
  | .send _ selector => Signature.getNumberOfArguments selector
  | .assign targets => 1 + targets.length

/-- The most elements the code of a body has on the stack at once. -/
def Body.stackNeed (environment : Environment) (base : Nat) : Body → Nat
  | .empty => 1
  | .result value _ | .last value =>
      Tree.depthNeed Operation.need (value.tree environment base)
  | .statement value rest =>
      max (Tree.depthNeed Operation.need (value.tree environment base))
        (rest.stackNeed environment
          (base + (value.generate environment base).objects.length))

def CodeUnit.stackNeed (unit : CodeUnit) : Nat :=
  unit.body.stackNeed (unit.environment.enter unit.scope) unit.base

theorem effect_leaf (environment : Environment) (leaf : Leaf) :
    (leaf.instruction environment).effect = some ⟨0, 1⟩ := by
  cases leaf with
  | literal source base => rfl
  | block unit => rfl
  | name text =>
      rw [Leaf.instruction, readInstruction]
      generalize (if text = "super" then "self" else text) = var
      rcases findVar var environment.scopes 0 with _ | ⟨index, context, _ | _⟩
      · dsimp only
        split <;> rfl
      · rfl
      · rfl

theorem effect_write (environment : Environment) (var : String) :
    (writeInstruction environment var).effect = some ⟨1, 0⟩ := by
  rw [writeInstruction]
  rcases findVar var environment.scopes 0 with _ | ⟨index, context, _ | _⟩ <;> rfl

theorem effect_send (super : Bool) (selector : String) :
    (sendInstruction super selector).effect =
      some ⟨Signature.getNumberOfArguments selector, 1⟩ := by
  cases super <;> rfl

theorem moves_dups (number depth : Nat) :
    Moves (List.replicate number (some ⟨1, 2⟩)) (depth + 1) (depth + 1 + number)
      (depth + 1 + number) := by
  induction number generalizing depth with
  | zero => exact Moves.nil _
  | succ number inductionHypothesis =>
      have later := inductionHypothesis (depth + 1)
      exact (Moves.cons (Nat.le_add_left 1 depth) later).raise (by omega) (by omega)

theorem moves_pops (number depth : Nat) :
    Moves (List.replicate number (some ⟨1, 0⟩)) (depth + number) depth (depth + number) := by
  induction number generalizing depth with
  | zero => exact Moves.nil _
  | succ number inductionHypothesis =>
      exact (Moves.cons (by show 1 ≤ _; omega) (inductionHypothesis depth)).raise rfl (by omega)

/-- The instructions of an operation replace its operands by one value. -/
theorem moves_operation (environment : Environment) (operation : Operation) (depth : Nat) :
    Moves ((operation.instructions environment).map Instruction.effect)
      (depth + operation.rank) (depth + 1) (depth + operation.need) := by
  cases operation with
  | send toSuper selector =>
      have positive := Signature.getNumberOfArguments_pos selector
      rw [Operation.instructions, List.map_singleton, effect_send, Operation.rank, Operation.need]
      exact (Moves.single (Nat.le_add_left _ depth) (by omega)).raise rfl (by omega)
  | assign targets =>
      have code : ((Operation.assign targets).instructions environment).map Instruction.effect =
          List.replicate targets.length (some ⟨1, 2⟩) ++
            List.replicate targets.length (some ⟨1, 0⟩) := by
        rw [Operation.instructions, List.map_append, List.map_map, List.map_map]
        congr 1
        · exact List.map_const' ..
        · rw [← List.map_const']
          exact List.map_congr_left fun target _ => effect_write environment target
      rw [code, Operation.rank, Operation.need, ← Nat.add_assoc]
      exact ((moves_dups _ depth).append (moves_pops _ (depth + 1))).raise rfl (max_self _)

theorem moves_expression (environment : Environment) (value : Expression) (base depth : Nat) :
    Moves ((treeCode environment (value.tree environment base)).map Instruction.effect) depth
      (depth + 1) (depth + Tree.depthNeed Operation.need (value.tree environment base)) :=
  Tree.moves_code (effect_leaf environment) (moves_operation environment) _
    ((compiles_expression environment value).ranked base).1 depth

theorem depthNeed_pos (tree : ParseTree) (ranked : tree.Ranked Operation.rank) :
    0 < tree.depthNeed Operation.need := by
  cases tree with
  | leaf label => exact Nat.one_pos
  | node operation operands =>
      rw [Tree.depthNeed]
      cases operation with
      | send toSuper selector =>
          exact lt_max_of_lt_right (Signature.getNumberOfArguments_pos selector)
      | assign targets => exact lt_max_of_lt_right (by rw [Operation.need]; omega)

/-- A return finds its operand and leaves the depth. -/
theorem moves_return {depth : Nat} (found : 0 < depth) : Moves [some ⟨1, 1⟩] depth depth depth :=
  (Moves.single found (by omega)).raise rfl (max_self depth)

/-- The code of a body that is no empty block runs, and goes as high as the body
needs. -/
theorem moves_body (environment : Environment) (block : Bool) : (body : Body) → (base : Nat) →
    (block && body.isEmpty) = false →
    ∃ last, Moves ((body.code environment block base).map Instruction.effect) 0 last
      (body.stackNeed environment base)
  | .empty, base, filled => by
      cases block with
      | true => exact absurd filled (by decide)
      | false => exact ⟨1, rfl, rfl⟩
  | .result value period, base, _ => by
      have moves := moves_expression environment value base 0
      have needed := depthNeed_pos _ ((compiles_expression environment value).ranked base).1
      refine ⟨1, ?_⟩
      rw [Body.code, List.map_append, Body.stackNeed]
      have returns : Moves ([if block then .returnNonLocal else .returnLocal].map
          Instruction.effect) 1 1 1 := by
        cases block <;> exact moves_return Nat.one_pos
      exact (moves.append returns).raise rfl (by omega)
  | .last value, base, _ => by
      have moves := moves_expression environment value base 0
      have needed := depthNeed_pos _ ((compiles_expression environment value).ranked base).1
      refine ⟨1, ?_⟩
      rw [Body.code, List.map_append, Body.stackNeed]
      have returns : Moves ((if block then [.returnLocal]
          else [.pop, .pushArgument 0 0, .returnLocal] : List Instruction).map
            Instruction.effect) 1 1 1 := by
        cases block with
        | true => exact moves_return Nat.one_pos
        | false => exact ⟨rfl, rfl⟩
      exact (moves.append returns).raise rfl (by omega)
  | .statement value rest, base, _ => by
      have moves := moves_expression environment value base 0
      have needed := depthNeed_pos _ ((compiles_expression environment value).ranked base).1
      rw [Body.code, List.map_append, List.map_append, Body.stackNeed]
      by_cases elided : (block && rest.isEmpty) = true
      · -- The pop behind the last statement of a block is taken back.
        rw [if_pos elided]
        obtain ⟨rfl, noRest⟩ := Bool.and_eq_true_iff.mp elided
        cases rest with
        | result | last | statement => exact Bool.noConfusion noRest
        | empty =>
            exact ⟨1, (moves.append (moves_return Nat.one_pos)).raise rfl
              (by rw [Body.stackNeed]; omega)⟩
      · rw [if_neg elided]
        obtain ⟨last, later⟩ := moves_body environment block rest
          (base + (value.generate environment base).objects.length) (Bool.eq_false_iff.mpr elided)
        have popped : Moves [some ⟨1, 0⟩] 1 0 (max 1 0) := Moves.single (Nat.le_refl 1) rfl
        exact ⟨last, (moves.append (popped.append later)).raise rfl (by omega)⟩

/-! ### What the stack size walk answers -/

theorem effectsReadBack_cons (literals : List Literal) (instruction : Instruction)
    (rest : List Instruction) : EffectsReadBack literals (instruction :: rest) ↔
      (instruction.truncate literals).bind Instruction.effect = instruction.effect ∧
        EffectsReadBack literals rest :=
  List.forall_mem_cons

/-- An instruction whose effect does not depend on its literal has that effect
however its operand is read back. -/
theorem effect_of_truncated {make : Literal → Instruction} {known effect : Effect}
    (fixed : ∀ literal, (make literal).effect = some known) {seen : Option Literal}
    (readBack : (seen.map make).bind Instruction.effect = some effect) : effect = known := by
  cases seen with
  | none => cases readBack
  | some literal =>
      have same := (fixed literal).symm.trans readBack
      exact (Option.some.inj same).symm

/-- The selector a send reads back. -/
theorem selector_of_truncated {make : Literal → Instruction} {effect : Effect}
    (isSend : make = .send ∨ make = .superSend) {seen : Option Literal}
    (readBack : (seen.map make).bind Instruction.effect = some effect) :
    ∃ selector, seen = some (.symbol selector) ∧
      effect = ⟨Signature.getNumberOfArguments selector, 1⟩ := by
  rcases seen with _ | selector | address
  · cases readBack
  · rcases isSend with rfl | rfl <;> exact ⟨selector, rfl, (Option.some.inj readBack).symm⟩
  · rcases isSend with rfl | rfl <;> cases readBack

/-- The walk counts in bytes. -/
def depthByte (effect : Effect) (depth : UInt8) : UInt8 :=
  depth - UInt8.ofNat effect.pops + UInt8.ofNat effect.pushes

theorem depthByte_push (depth : UInt8) : depthByte ⟨0, 1⟩ depth = depth + 1 := by
  show depth - 0 + 1 = depth + 1
  grind

theorem depthByte_pop (depth : UInt8) : depthByte ⟨1, 0⟩ depth = depth - 1 := by
  show depth - 1 + 0 = depth - 1
  grind

theorem depthByte_dup (depth : UInt8) : depthByte ⟨1, 2⟩ depth = depth + 1 := by
  show depth - 1 + 2 = depth + 1
  grind

theorem depthByte_return (depth : UInt8) : depthByte ⟨1, 1⟩ depth = depth := by
  show depth - 1 + 1 = depth
  grind

theorem depthByte_halt (depth : UInt8) : depthByte ⟨0, 0⟩ depth = depth := by
  show depth - 0 + 0 = depth
  grind

/-- One round of the walk. -/
theorem computeStackDepthFrom_encode {literals : List Literal} {instruction : Instruction}
    {effect : Effect} (rest : List UInt8) (rounds : Nat) (depth maxDepth : UInt8)
    (readBack : (instruction.truncate literals).bind Instruction.effect = some effect) :
    MethodGenerationContext.computeStackDepthFrom literals (rounds + 1)
        (instruction.encode literals ++ rest) depth maxDepth =
      MethodGenerationContext.computeStackDepthFrom literals rounds rest (depthByte effect depth)
        (if depthByte effect depth > maxDepth then depthByte effect depth else maxDepth) := by
  have sent (make : Literal → Instruction) (isSend : make = .send ∨ make = .superSend)
      (literal : Literal) (opcode : UInt8)
      (isOpcode : opcode = Bytecode.send ∨ opcode = Bytecode.superSend)
      (truncated : (literals[literals.idxOf literal % 256]?.map make).bind Instruction.effect =
        some effect) :
      MethodGenerationContext.computeStackDepthFrom literals (rounds + 1)
          (opcode :: UInt8.ofNat (literals.idxOf literal) :: rest) depth maxDepth =
        MethodGenerationContext.computeStackDepthFrom literals rounds rest
          (depthByte effect depth)
          (if depthByte effect depth > maxDepth then depthByte effect depth else maxDepth) := by
    obtain ⟨selector, seen, rfl⟩ := selector_of_truncated isSend truncated
    rw [← UInt8.toNat_ofNat'] at seen
    rcases isOpcode with rfl | rfl
    · rw [MethodGenerationContext.computeStackDepthFrom]
      simp only [seen]
      rfl
    · rw [MethodGenerationContext.computeStackDepthFrom]
      simp only [seen]
      rfl
  cases instruction with
  | halt =>
      obtain rfl := Option.some.inj readBack
      rw [depthByte_halt]
      rfl
  | dup =>
      obtain rfl := Option.some.inj readBack
      rw [depthByte_dup]
      rfl
  | pushLocal | pushArgument =>
      obtain rfl := Option.some.inj readBack
      rw [depthByte_push]
      rfl
  | pushField | pushBlock | pushConstant | pushGlobal =>
      obtain rfl := effect_of_truncated (fun _ => rfl) readBack
      rw [depthByte_push]
      rfl
  | pop | popLocal | popArgument =>
      obtain rfl := Option.some.inj readBack
      rw [depthByte_pop]
      rfl
  | popField =>
      obtain rfl := effect_of_truncated (fun _ => rfl) readBack
      rw [depthByte_pop]
      rfl
  | send literal => exact sent .send (Or.inl rfl) literal _ (Or.inl rfl) readBack
  | superSend literal => exact sent .superSend (Or.inr rfl) literal _ (Or.inr rfl) readBack
  | returnLocal | returnNonLocal =>
      obtain rfl := Option.some.inj readBack
      rw [depthByte_return]
      rfl

theorem depthByte_ofNat {effect : Effect} {depth : Nat} (enough : effect.pops ≤ depth) :
    depthByte effect (UInt8.ofNat depth) =
      UInt8.ofNat (depth - effect.pops + effect.pushes) := by
  rw [depthByte, UInt8.ofNat_add, UInt8.ofNat_sub enough]

theorem maxByte_ofNat {next bound : Nat} (fits : max bound next < 256) :
    (if UInt8.ofNat next > UInt8.ofNat bound then UInt8.ofNat next else UInt8.ofNat bound) =
      UInt8.ofNat (max bound next) := by
  have less : UInt8.ofNat bound < UInt8.ofNat next ↔ bound < next :=
    UInt8.ofNat_lt_iff_lt (lt_of_le_of_lt (le_max_left _ _) fits)
      (lt_of_le_of_lt (le_max_right _ _) fits)
  by_cases above : bound < next
  · rw [if_pos (less.mpr above), max_eq_right above.le]
  · rw [if_neg (fun more => above (less.mp more)), max_eq_left (Nat.not_lt.mp above)]

/-- While the depths fit a byte, the walk answers the highest of them. -/
theorem computeStackDepthFrom_eq {literals : List Literal} (code : List Instruction)
    (readBack : EffectsReadBack literals code) {depth last bound : Nat}
    (moves : depthAfter (code.map Instruction.effect) depth = some last) (known : depth ≤ bound)
    (fits : max bound (peak (code.map Instruction.effect) depth) < 256) (rounds : Nat)
    (enough : code.length ≤ rounds) :
    MethodGenerationContext.computeStackDepthFrom literals rounds
        (code.flatMap (Instruction.encode literals)) (UInt8.ofNat depth) (UInt8.ofNat bound) =
      some (UInt8.ofNat (max bound (peak (code.map Instruction.effect) depth))) := by
  induction code generalizing depth bound rounds with
  | nil =>
      rw [List.map_nil, peak_nil, max_eq_left known]
      cases rounds <;> rfl
  | cons instruction rest inductionHypothesis =>
      obtain ⟨rounds, rfl⟩ : ∃ more, rounds = more + 1 :=
        ⟨rounds - 1, by rw [List.length_cons] at enough; omega⟩
      obtain ⟨first, later⟩ := (effectsReadBack_cons literals instruction rest).mp readBack
      rw [List.map_cons] at moves fits ⊢
      generalize instruction.effect = effect? at first moves fits ⊢
      cases effect? with
      | none => cases moves
      | some effect =>
          by_cases found : effect.pops ≤ depth
          · rw [depthAfter, if_pos found] at moves
            rw [peak_cons] at fits ⊢
            have above := le_peak (rest.map Instruction.effect)
              (depth - effect.pops + effect.pushes)
            rw [List.flatMap_cons, computeStackDepthFrom_encode _ _ _ _ first,
              depthByte_ofNat found, maxByte_ofNat (by omega),
              inductionHypothesis later moves (le_max_right _ _) (by omega) rounds
                (by rw [List.length_cons] at enough; omega)]
            congr 2
            omega
          · rw [depthAfter, if_neg found] at moves
            cases moves

theorem effects_of_truncated {literals : List Literal} {code seen : List Instruction}
    (readBack : EffectsReadBack literals code)
    (truncated : code.mapM (Instruction.truncate literals) = some seen) :
    seen.map Instruction.effect = code.map Instruction.effect := by
  induction code generalizing seen with
  | nil =>
      obtain rfl := Option.some.inj truncated
      rfl
  | cons instruction rest inductionHypothesis =>
      obtain ⟨first, later⟩ := (effectsReadBack_cons literals instruction rest).mp readBack
      rw [List.mapM_cons] at truncated
      obtain ⟨seenFirst, sameFirst, more⟩ := Option.bind_eq_some_iff.mp truncated
      obtain ⟨seenLater, sameLater, same⟩ := Option.bind_eq_some_iff.mp more
      obtain rfl := Option.some.inj same
      rw [sameFirst, Option.bind_some] at first
      rw [List.map_cons, List.map_cons, first, inductionHypothesis later sameLater]

/-- Code that runs is read back. -/
theorem truncated_of_runs {literals : List Literal} {code : List Instruction}
    (readBack : EffectsReadBack literals code) {depth last : Nat}
    (runs : depthAfter (code.map Instruction.effect) depth = some last) :
    ∃ seen, code.mapM (Instruction.truncate literals) = some seen := by
  induction code generalizing depth with
  | nil => exact ⟨[], rfl⟩
  | cons instruction rest inductionHypothesis =>
      obtain ⟨first, later⟩ := (effectsReadBack_cons literals instruction rest).mp readBack
      rw [List.map_cons] at runs
      generalize instruction.effect = effect? at first runs
      cases effect? with
      | none => cases runs
      | some effect =>
          obtain ⟨seen, truncated, -⟩ := Option.bind_eq_some_iff.mp first
          by_cases found : effect.pops ≤ depth
          · rw [depthAfter, if_pos found] at runs
            obtain ⟨more, sameMore⟩ := inductionHypothesis later runs
            exact ⟨seen :: more, by rw [List.mapM_cons, truncated, sameMore]; rfl⟩
          · rw [depthAfter, if_neg found] at runs
            cases runs

/-! ### Units -/

theorem effect_plain (instruction : Instruction) :
    instruction.plain.effect = instruction.effect := by
  rcases instruction with _ | _ | _ | _ | _ | _ | _ | _ | _ | _ | _ | _ | _ | (_ | _) | _ | _ <;> rfl

theorem isReturn_plain (instruction : Instruction) :
    instruction.plain.isReturn = instruction.isReturn := by
  cases instruction <;> rfl

theorem SameCode.sameEffects {emitted prescribed : List Instruction} {once : Prop}
    (code : SameCode emitted prescribed once) :
    emitted.map Instruction.effect = prescribed.map Instruction.effect := by
  have plain (list : List Instruction) :
      (list.map Instruction.plain).map Instruction.effect = list.map Instruction.effect := by
    rw [List.map_map]
    exact List.map_congr_left fun instruction _ => effect_plain instruction
  rw [← plain emitted, code.samePlain, plain]

theorem EndsInReturn.congr {code other : List Instruction} (ends : EndsInReturn code)
    (same : code.map Instruction.isReturn = other.map Instruction.isReturn) :
    EndsInReturn other := by
  rw [EndsInReturn, ← List.getLast?_map] at ends ⊢
  rw [← same]
  exact ends

theorem SameCode.endsInReturn {emitted prescribed : List Instruction} {once : Prop}
    (code : SameCode emitted prescribed once) (ends : EndsInReturn prescribed) :
    EndsInReturn emitted := by
  have plain (list : List Instruction) :
      (list.map Instruction.plain).map Instruction.isReturn = list.map Instruction.isReturn := by
    rw [List.map_map]
    exact List.map_congr_left fun instruction _ => isReturn_plain instruction
  refine ends.congr ?_
  rw [← plain prescribed, ← code.samePlain, plain]

theorem endsInReturn_truncated {literals : List Literal} {code seen : List Instruction}
    (truncated : code.mapM (Instruction.truncate literals) = some seen)
    (ends : EndsInReturn code) : EndsInReturn seen := by
  have byOpcode (list : List Instruction) : list.map Instruction.isReturn =
      (list.map Instruction.opcode).map fun opcode =>
        opcode == Bytecode.returnLocal || opcode == Bytecode.returnNonLocal := by
    rw [List.map_map]
    refine List.map_congr_left fun instruction _ => ?_
    cases instruction <;> rfl
  refine ends.congr ?_
  rw [byOpcode, byOpcode, opcodes_truncate truncated]

theorem endsInReturn_append (early : List Instruction) {late : List Instruction}
    (ends : EndsInReturn late) : EndsInReturn (early ++ late) := by
  rw [EndsInReturn] at ends ⊢
  cases last : late.getLast? with
  | none =>
      rw [last] at ends
      cases ends
  | some final =>
      rw [List.getLast?_append, last]
      rw [last] at ends
      exact ends

theorem endsInReturn_body (environment : Environment) (block : Bool) : (body : Body) →
    (base : Nat) → EndsInReturn (body.code environment block base)
  | .empty, _ => by cases block <;> rfl
  | .result value _, _ => endsInReturn_append _ (by cases block <;> rfl)
  | .last value, _ => endsInReturn_append _ (by cases block <;> rfl)
  | .statement value rest, _ =>
      endsInReturn_append _ (endsInReturn_append _ (endsInReturn_body environment block rest _))

namespace CodeUnit

variable (unit : CodeUnit)

theorem bytecode_mgenc : unit.mgenc.bytecode =
    (instructions unit.generated.actions).flatMap (Instruction.encode unit.mgenc.literals) :=
  bytecode_perform unit.admissible

variable {unit}

theorem length_le_encode (literals : List Literal) (code : List Instruction) :
    code.length ≤ (code.flatMap (Instruction.encode literals)).length := by
  induction code with
  | nil => exact Nat.le_refl 0
  | cons instruction rest inductionHypothesis =>
      rw [List.flatMap_cons, List.length_append, List.length_cons]
      have positive : 0 < (instruction.encode literals).length := Nat.succ_pos _
      omega

/-- A literal of the table is read back as some literal of the table. -/
theorem effect_truncated {make : Literal → Instruction} {effect : Effect}
    (fixed : ∀ literal, (make literal).effect = some effect) {literals : List Literal}
    {literal : Literal} (member : literal ∈ literals) :
    (literals[literals.idxOf literal % 256]?.map make).bind Instruction.effect =
      (make literal).effect := by
  have below : literals.idxOf literal % 256 < literals.length :=
    lt_of_le_of_lt (Nat.mod_le _ _) (List.idxOf_lt_length_of_mem member)
  rw [List.getElem?_eq_getElem below, Option.map_some, Option.bind_some, fixed, fixed]

/-- Only sends can be read back with another effect. -/
theorem effectsReadBack (sends : unit.SendsReadBack) :
    EffectsReadBack unit.mgenc.literals (instructions unit.generated.actions) := by
  intro instruction emitted
  have member := literal_of_instruction unit.admissible instruction emitted
  cases instruction with
  | send literal | superSend literal => exact sends _ emitted rfl
  | halt | dup | pop | returnLocal | returnNonLocal | pushLocal | pushArgument | popLocal
  | popArgument => rfl
  | pushField literal | pushBlock literal | pushConstant literal | pushGlobal literal
  | popField literal => exact effect_truncated (fun _ => rfl) (member literal rfl)

/-- The compiled method of a unit passes verification exactly when the unit is no
empty block and its stack size fits a byte. -/
theorem stackVerified_iff (sends : unit.SendsReadBack) :
    StackVerified unit.mgenc.compiled ↔
      (unit.block && unit.body.isEmpty) = false ∧ unit.stackNeed < 256 := by
  have readBack := effectsReadBack sends
  have effects := unit.sameCode.sameEffects
  constructor
  · rintro ⟨seen, bound, decoded, -, ⟨last, runs⟩, fits, -⟩
    rw [MethodGenerationContext.compiled, bytecode_mgenc, decode_encode] at decoded
    rw [effects_of_truncated readBack decoded, effects] at runs fits
    by_cases hollow : (unit.block && unit.body.isEmpty) = true
    · -- An empty block returns with nothing on the stack.
      obtain ⟨isBlock, noStatement⟩ := Bool.and_eq_true_iff.mp hollow
      have code : unit.code = [.returnLocal] := by
        rw [CodeUnit.code, isBlock]
        generalize unit.body = body at noStatement
        cases body with
        | empty => rfl
        | result | last | statement => exact Bool.noConfusion noStatement
      rw [code] at runs
      cases runs
    · have filled := Bool.eq_false_iff.mpr hollow
      obtain ⟨last', moves⟩ := moves_body (unit.environment.enter unit.scope) unit.block unit.body
        unit.base filled
      rw [CodeUnit.code, moves.reaches] at fits
      exact ⟨filled, lt_of_le_of_lt fits bound.toNat_lt⟩
  · rintro ⟨filled, small⟩
    obtain ⟨last, moves⟩ := moves_body (unit.environment.enter unit.scope) unit.block unit.body
      unit.base filled
    have runs := moves.ends
    rw [← CodeUnit.code, ← effects] at runs
    obtain ⟨seen, truncated⟩ := truncated_of_runs readBack runs
    have highest : peak ((instructions unit.generated.actions).map Instruction.effect) 0 =
        unit.stackNeed := by
      rw [effects]
      exact moves.reaches
    have walk := computeStackDepthFrom_eq _ readBack runs (Nat.le_refl 0) (by omega)
      unit.mgenc.bytecode.length (by rw [bytecode_mgenc]; exact length_le_encode _ _)
    rw [Nat.zero_max, highest, ← bytecode_mgenc] at walk
    refine ⟨seen, UInt8.ofNat unit.stackNeed, ?_, walk, ⟨last, ?_⟩, ?_, ?_⟩
    · rw [MethodGenerationContext.compiled, bytecode_mgenc, decode_encode]
      exact truncated
    · rw [effects_of_truncated readBack truncated]
      exact runs
    · rw [effects_of_truncated readBack truncated, highest, UInt8.toNat_ofNat_of_lt' small]
    · exact endsInReturn_truncated truncated
        (unit.sameCode.endsInReturn (endsInReturn_body _ _ _ _))

end CodeUnit

/-- Where every operand is a byte, every send is read back. -/
theorem CodeUnit.sendsReadBack_of_fits {unit : CodeUnit}
    (fits : FitsBytes unit.mgenc.literals (instructions unit.generated.actions)) :
    unit.SendsReadBack := by
  intro instruction emitted _
  have seen := (truncate_eq_some_iff unit.mgenc.literals
    (nodup_perform List.nodup_nil unit.admissible)
    (literal_of_instruction unit.admissible instruction emitted)).mpr (fits instruction emitted)
  rw [seen, Option.bind_some]

instance (unit : CodeUnit) : Decidable unit.SendsReadBack :=
  inferInstanceAs (Decidable (∀ instruction ∈ instructions unit.generated.actions,
    instruction.isSend = true →
      (instruction.truncate unit.mgenc.literals).bind Instruction.effect = instruction.effect))

/-- Every method and block of a class the parser accepts passes verification
exactly when it is no empty block and its stack size fits a byte. -/
theorem stack_verified_iff (definition : ClassDefinition) (unit : CodeUnit)
    (compiled : unit ∈ definition.generate.units) (sends : unit.SendsReadBack) :
    (Parser.parse definition.tokens).result = .ok () ∧
    ∃ method, (Parser.parse definition.tokens).state.objects[unit.address]? =
        some (.method method) ∧
      (StackVerified method ↔
        (unit.block && unit.body.isEmpty) = false ∧ unit.stackNeed < 256) :=
  ⟨by rw [Parser.parse_tokens], unit.mgenc.compiled, placed_units definition unit compiled,
    CodeUnit.stackVerified_iff sends⟩

/-- `Foo = ( run = ( self foo ) )`. -/
theorem stack_verified_send : ∃ method,
    (Parser.parse (runClass (.last (.mk [] (.name ⟨"self", by decide⟩) [⟨"foo", by decide⟩] .done
      .done))).tokens).state.objects[0]? = some (.method method) ∧ StackVerified method := by
  obtain ⟨-, method, found, verified⟩ := stack_verified_iff
    (runClass (.last (.mk [] (.name ⟨"self", by decide⟩) [⟨"foo", by decide⟩] .done .done)))
    (runUnit (.last (.mk [] (.name ⟨"self", by decide⟩) [⟨"foo", by decide⟩] .done .done)))
    (runUnit_compiled _) (by decide)
  exact ⟨method, found, verified.mpr (by decide)⟩

/-- A body of one statement, an empty block. -/
def emptyBlock : Body := .last (.mk [] (.block [] none .empty) [] .done .done)

/-- `Foo = ( run = ( [] ) )`: the block returns from an empty stack. -/
theorem empty_block_not_verified : ¬ ∀ (definition : ClassDefinition) (unit : CodeUnit),
    unit ∈ definition.generate.units →
    ∃ method, (Parser.parse definition.tokens).state.objects[unit.address]? =
        some (.method method) ∧ StackVerified method := by
  intro verified
  let block : CodeUnit := ⟨true, (runUnit emptyBlock).environment.enter (runUnit emptyBlock).scope,
    blockScope [] none, blockSignature 1, 0, .empty⟩
  have compiled : block ∈ (runClass emptyBlock).generate.units := by
    rw [units_runClass]
    exact List.mem_append_left _ (List.mem_singleton_self _)
  obtain ⟨method, found, passes⟩ := verified _ _ compiled
  rw [placed_units _ _ compiled] at found
  injection found with same
  injection same with same
  subst same
  exact absurd ((CodeUnit.stackVerified_iff (by decide)).mp passes).1 (by decide)

end Somr.Compiler
