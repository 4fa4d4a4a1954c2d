import Somr.Compiler.Generation

/-!
Owns the bytes an instruction is emitted as and what the interpreter reads back
from them.

Every index passes through one byte. `Instruction.truncate` is the instruction
the interpreter sees; it is the instruction that was emitted exactly when every
operand is below 256.
-/

namespace Somr.Compiler

/-! ### What is emitted and what is read -/

namespace Instruction

/-- The literal an `Emit` function looks up. -/
def literal? : Instruction → Option Literal
  | .pushField literal | .pushBlock literal | .pushConstant literal | .pushGlobal literal
  | .popField literal | .send literal | .superSend literal => some literal
  | _ => none

/-- The index and the context level an `Emit` function is handed. -/
def slot? : Instruction → Option (Nat × Nat)
  | .pushLocal idx ctx | .pushArgument idx ctx | .popLocal idx ctx | .popArgument idx ctx =>
      some (idx, ctx)
  | _ => none

/-- The numbers that have to pass through an operand byte. -/
def operands (literals : List Literal) (instruction : Instruction) : List Nat :=
  match instruction.slot?, instruction.literal? with
  | some (idx, ctx), _ => [idx, ctx]
  | none, some literal => [literals.idxOf literal]
  | none, none => []

/-- Every operand is a byte. -/
def Fits (literals : List Literal) (instruction : Instruction) : Prop :=
  ∀ operand ∈ instruction.operands literals, operand < 256

instance (literals : List Literal) (instruction : Instruction) :
    Decidable (instruction.Fits literals) :=
  inferInstanceAs (Decidable (∀ operand ∈ instruction.operands literals, operand < 256))

def opcode : Instruction → UInt8
  | .halt => Bytecode.halt
  | .dup => Bytecode.dup
  | .pushLocal .. => Bytecode.pushLocal
  | .pushArgument .. => Bytecode.pushArgument
  | .pushField _ => Bytecode.pushField
  | .pushBlock _ => Bytecode.pushBlock
  | .pushConstant _ => Bytecode.pushConstant
  | .pushGlobal _ => Bytecode.pushGlobal
  | .pop => Bytecode.pop
  | .popLocal .. => Bytecode.popLocal
  | .popArgument .. => Bytecode.popArgument
  | .popField _ => Bytecode.popField
  | .send _ => Bytecode.send
  | .superSend _ => Bytecode.superSend
  | .returnLocal => Bytecode.returnLocal
  | .returnNonLocal => Bytecode.returnNonLocal

/-- The bytes of an instruction in a method with these literals. -/
def encode (literals : List Literal) (instruction : Instruction) : List UInt8 :=
  instruction.opcode :: (instruction.operands literals).map UInt8.ofNat

end Instruction

/-- A bytecode with an index and a context level behind it. -/
def fetchSlot (make : Nat → Nat → Instruction) : List UInt8 → Option (Instruction × List UInt8)
  | idx :: ctx :: rest => some (make idx.toNat ctx.toNat, rest)
  | _ => none

/-- `VMMethod::GetConstant` of a bytecode with a literal index behind it. -/
def fetchConstant (literals : List Literal) (make : Literal → Instruction) :
    List UInt8 → Option (Instruction × List UInt8)
  | index :: rest => literals[index.toNat]?.map fun literal => (make literal, rest)
  | [] => none

/-- What the interpreter reads at the head of some code. -/
def fetch (literals : List Literal) : List UInt8 → Option (Instruction × List UInt8)
  | [] => none
  | bytecode :: rest =>
      if bytecode = Bytecode.halt then some (.halt, rest)
      else if bytecode = Bytecode.dup then some (.dup, rest)
      else if bytecode = Bytecode.pushLocal then fetchSlot .pushLocal rest
      else if bytecode = Bytecode.pushArgument then fetchSlot .pushArgument rest
      else if bytecode = Bytecode.pushField then fetchConstant literals .pushField rest
      else if bytecode = Bytecode.pushBlock then fetchConstant literals .pushBlock rest
      else if bytecode = Bytecode.pushConstant then fetchConstant literals .pushConstant rest
      else if bytecode = Bytecode.pushGlobal then fetchConstant literals .pushGlobal rest
      else if bytecode = Bytecode.pop then some (.pop, rest)
      else if bytecode = Bytecode.popLocal then fetchSlot .popLocal rest
      else if bytecode = Bytecode.popArgument then fetchSlot .popArgument rest
      else if bytecode = Bytecode.popField then fetchConstant literals .popField rest
      else if bytecode = Bytecode.send then fetchConstant literals .send rest
      else if bytecode = Bytecode.superSend then fetchConstant literals .superSend rest
      else if bytecode = Bytecode.returnLocal then some (.returnLocal, rest)
      else if bytecode = Bytecode.returnNonLocal then some (.returnNonLocal, rest)
      else none

/-- The instructions of some code, read in order. -/
def decodeFrom (literals : List Literal) : (rounds : Nat) → List UInt8 → Option (List Instruction)
  | _, [] => some []
  | 0, _ :: _ => none
  | rounds + 1, byte :: bytes => do
      let (instruction, rest) ← fetch literals (byte :: bytes)
      return instruction :: (← decodeFrom literals rounds rest)

def decode (literals : List Literal) (bytes : List UInt8) : Option (List Instruction) :=
  decodeFrom literals bytes.length bytes

/-- The instruction the interpreter reads where this one was emitted. -/
def Instruction.truncate (literals : List Literal) : Instruction → Option Instruction
  | .pushLocal idx ctx => some (.pushLocal (idx % 256) (ctx % 256))
  | .pushArgument idx ctx => some (.pushArgument (idx % 256) (ctx % 256))
  | .popLocal idx ctx => some (.popLocal (idx % 256) (ctx % 256))
  | .popArgument idx ctx => some (.popArgument (idx % 256) (ctx % 256))
  | .pushField literal => literals[literals.idxOf literal % 256]?.map .pushField
  | .pushBlock literal => literals[literals.idxOf literal % 256]?.map .pushBlock
  | .pushConstant literal => literals[literals.idxOf literal % 256]?.map .pushConstant
  | .pushGlobal literal => literals[literals.idxOf literal % 256]?.map .pushGlobal
  | .popField literal => literals[literals.idxOf literal % 256]?.map .popField
  | .send literal => literals[literals.idxOf literal % 256]?.map .send
  | .superSend literal => literals[literals.idxOf literal % 256]?.map .superSend
  | instruction => some instruction

/-! ### One instruction -/

theorem fetch_encode (literals : List Literal) (instruction : Instruction) (rest : List UInt8) :
    fetch literals (instruction.encode literals ++ rest) =
      (instruction.truncate literals).map (·, rest) := by
  have constant (make : Literal → Instruction) (literal : Literal) :
      fetchConstant literals make (UInt8.ofNat (literals.idxOf literal) :: rest) =
        (literals[literals.idxOf literal % 256]?.map make).map (·, rest) := by
    rw [fetchConstant, UInt8.toNat_ofNat', Option.map_map]
    rfl
  have slot (make : Nat → Nat → Instruction) (idx ctx : Nat) :
      fetchSlot make (UInt8.ofNat idx :: UInt8.ofNat ctx :: rest) =
        some (make (idx % 256) (ctx % 256), rest) := by
    rw [fetchSlot, UInt8.toNat_ofNat', UInt8.toNat_ofNat']
  cases instruction with
  | halt | dup | pop | returnLocal | returnNonLocal => rfl
  | pushLocal idx ctx | pushArgument idx ctx | popLocal idx ctx | popArgument idx ctx =>
      exact slot _ idx ctx
  | pushField literal | pushBlock literal | pushConstant literal | pushGlobal literal
  | popField literal | send literal | superSend literal => exact constant _ literal

/-- A literal of the table is read back through its byte exactly when its index is
one. -/
theorem getElem?_idxOf_mod (literals : List Literal) (distinct : literals.Nodup)
    {literal : Literal} (member : literal ∈ literals) :
    literals[literals.idxOf literal % 256]? = some literal ↔ literals.idxOf literal < 256 := by
  have below : literals.idxOf literal < literals.length := List.idxOf_lt_length_of_mem member
  constructor
  · intro same
    obtain ⟨small, found⟩ := List.getElem?_eq_some_iff.mp same
    have index := distinct.idxOf_getElem _ small
    rw [found] at index
    omega
  · intro small
    rw [Nat.mod_eq_of_lt small, List.getElem?_eq_getElem below, List.getElem_idxOf below]

theorem truncate_eq_some_iff (literals : List Literal) (distinct : literals.Nodup)
    {instruction : Instruction} (member : ∀ literal ∈ instruction.literal?, literal ∈ literals) :
    instruction.truncate literals = some instruction ↔ instruction.Fits literals := by
  have constant (make : Literal → Instruction) (injective : Function.Injective make)
      (literal : Literal) (present : literal ∈ literals) :
      literals[literals.idxOf literal % 256]?.map make = some (make literal) ↔
        ∀ operand ∈ [literals.idxOf literal], operand < 256 := by
    rw [← Option.map_some, (Option.map_injective injective).eq_iff,
      getElem?_idxOf_mod literals distinct present, List.forall_mem_singleton]
  cases instruction with
  | halt | dup | pop | returnLocal | returnNonLocal =>
      simp [Instruction.truncate, Instruction.Fits, Instruction.operands, Instruction.slot?,
        Instruction.literal?]
  | pushLocal idx ctx | pushArgument idx ctx | popLocal idx ctx | popArgument idx ctx =>
      simp [Instruction.truncate, Instruction.Fits, Instruction.operands, Instruction.slot?]
  | pushField literal | pushBlock literal | pushConstant literal | pushGlobal literal
  | popField literal | send literal | superSend literal =>
      exact constant _ (fun _ _ same => by injection same) literal (member literal rfl)

/-! ### Sequences of instructions -/

theorem decodeFrom_encode (literals : List Literal) (code : List Instruction) (rounds : Nat)
    (enough : (code.flatMap (Instruction.encode literals)).length ≤ rounds) :
    decodeFrom literals rounds (code.flatMap (Instruction.encode literals)) =
      code.mapM (Instruction.truncate literals) := by
  induction code generalizing rounds with
  | nil => cases rounds <;> rfl
  | cons instruction rest inductionHypothesis =>
      rw [List.flatMap_cons] at enough ⊢
      have bytes : instruction.encode literals ++ rest.flatMap (Instruction.encode literals) =
          instruction.opcode :: ((instruction.operands literals).map UInt8.ofNat ++
            rest.flatMap (Instruction.encode literals)) := rfl
      have read := fetch_encode literals instruction (rest.flatMap (Instruction.encode literals))
      rw [bytes, List.length_cons, List.length_append] at enough
      rw [bytes] at read ⊢
      obtain ⟨rounds, rfl⟩ : ∃ more, rounds = more + 1 := ⟨rounds - 1, by omega⟩
      rw [decodeFrom, read, List.mapM_cons]
      cases instruction.truncate literals with
      | none => rfl
      | some seen =>
          rw [Option.map_some]
          show (do return seen :: (← decodeFrom literals rounds _) : Option _) = _
          rw [inductionHypothesis rounds (by omega)]
          rfl

/-- The interpreter sees the truncation of every instruction. -/
theorem decode_encode (literals : List Literal) (code : List Instruction) :
    decode literals (code.flatMap (Instruction.encode literals)) =
      code.mapM (Instruction.truncate literals) :=
  decodeFrom_encode literals code _ (Nat.le_refl _)

theorem opcode_truncate {literals : List Literal} {instruction seen : Instruction}
    (truncated : instruction.truncate literals = some seen) :
    seen.opcode = instruction.opcode := by
  cases instruction with
  | halt | dup | pop | returnLocal | returnNonLocal | pushLocal | pushArgument | popLocal
  | popArgument =>
      obtain rfl := Option.some.inj truncated
      rfl
  | pushField | pushBlock | pushConstant | pushGlobal | popField | send | superSend =>
      obtain ⟨literal, -, rfl⟩ := Option.map_eq_some_iff.mp truncated
      rfl

/-- Truncation changes operands, never bytecodes. -/
theorem opcodes_truncate {literals : List Literal} {code seen : List Instruction}
    (truncated : code.mapM (Instruction.truncate literals) = some seen) :
    seen.map Instruction.opcode = code.map Instruction.opcode := by
  induction code generalizing seen with
  | nil =>
      obtain rfl := Option.some.inj truncated
      rfl
  | cons instruction rest inductionHypothesis =>
      rw [List.mapM_cons] at truncated
      obtain ⟨first, sameFirst, more⟩ := Option.bind_eq_some_iff.mp truncated
      obtain ⟨later, sameLater, same⟩ := Option.bind_eq_some_iff.mp more
      obtain rfl := Option.some.inj same
      rw [List.map_cons, List.map_cons, opcode_truncate sameFirst,
        inductionHypothesis sameLater]

/-- Code is read back as itself exactly when every operand is a byte. -/
theorem mapM_truncate_eq_some_iff {literals : List Literal} (distinct : literals.Nodup)
    {code : List Instruction}
    (member : ∀ instruction ∈ code, ∀ literal ∈ instruction.literal?, literal ∈ literals) :
    code.mapM (Instruction.truncate literals) = some code ↔
      ∀ instruction ∈ code, instruction.Fits literals := by
  induction code with
  | nil => exact ⟨fun _ _ absurdMember => absurd absurdMember List.not_mem_nil, fun _ => rfl⟩
  | cons instruction rest inductionHypothesis =>
      have first := truncate_eq_some_iff literals distinct (member instruction List.mem_cons_self)
      have later := inductionHypothesis fun other inRest =>
        member other (List.mem_cons_of_mem _ inRest)
      rw [List.mapM_cons, List.forall_mem_cons, ← first, ← later]
      constructor
      · intro same
        obtain ⟨seen, sameFirst, more⟩ := Option.bind_eq_some_iff.mp same
        obtain ⟨seenLater, sameLater, sameCode⟩ := Option.bind_eq_some_iff.mp more
        obtain ⟨rfl, rfl⟩ := List.cons.inj (Option.some.inj sameCode)
        exact ⟨sameFirst, sameLater⟩
      · rintro ⟨sameFirst, sameLater⟩
        rw [sameFirst, sameLater]
        rfl

/-! ### Emission -/

/-- The signed byte of `FindLiteralIndex` becomes the same operand byte. -/
theorem toUInt8_findLiteralIndex (mgenc : MethodGenerationContext) {literal : Literal}
    (member : literal ∈ mgenc.literals) :
    (mgenc.findLiteralIndex literal).toUInt8 = UInt8.ofNat (mgenc.literals.idxOf literal) := by
  have found : mgenc.literals.idxOf? literal = some (mgenc.literals.idxOf literal) :=
    List.findIdx?_eq_some_of_exists ⟨literal, member, beq_self_eq_true literal⟩
  rw [MethodGenerationContext.findLiteralIndex, MethodGenerationContext.indexOfLiteral, found,
    Int8.ofInt_eq_ofNat, Int8.toUInt8_ofNat']

theorem emit_eq (instruction : Instruction) (mgenc : MethodGenerationContext)
    (member : ∀ literal ∈ instruction.literal?, literal ∈ mgenc.literals) :
    instruction.emit mgenc =
      { mgenc with bytecode := mgenc.bytecode ++ instruction.encode mgenc.literals } := by
  have slot (opcode : UInt8) (idx ctx : Nat) :
      BytecodeGenerator.emit3 mgenc opcode idx ctx = { mgenc with
        bytecode := mgenc.bytecode ++ [opcode, UInt8.ofNat idx, UInt8.ofNat ctx] } := by
    simp [BytecodeGenerator.emit3, MethodGenerationContext.addBytecode]
  have constant (opcode : UInt8) (literal : Literal) (present : literal ∈ mgenc.literals) :
      BytecodeGenerator.emitLiteral opcode mgenc literal = { mgenc with
        bytecode := mgenc.bytecode ++ [opcode, UInt8.ofNat (mgenc.literals.idxOf literal)] } := by
    rw [BytecodeGenerator.emitLiteral, toUInt8_findLiteralIndex mgenc present]
    simp [BytecodeGenerator.emit2, MethodGenerationContext.addBytecode]
  cases instruction with
  | halt | dup | pop | returnLocal | returnNonLocal => rfl
  | pushLocal idx ctx | pushArgument idx ctx | popLocal idx ctx | popArgument idx ctx =>
      exact slot _ idx ctx
  | pushField literal | pushBlock literal | pushConstant literal | pushGlobal literal
  | popField literal | send literal | superSend literal =>
      exact constant _ literal (member literal rfl)

/-- The index of a literal does not change when the table grows. -/
theorem operands_append (instruction : Instruction) {literals : List Literal}
    (more : List Literal) (member : ∀ literal ∈ instruction.literal?, literal ∈ literals) :
    instruction.operands (literals ++ more) = instruction.operands literals := by
  rw [Instruction.operands, Instruction.operands]
  cases instruction.slot? with
  | some slot => rfl
  | none =>
      cases literal? : instruction.literal? with
      | none => rfl
      | some literal => simp only [List.idxOf_append_of_mem (member literal literal?)]

theorem encode_append (instruction : Instruction) {literals : List Literal} (more : List Literal)
    (member : ∀ literal ∈ instruction.literal?, literal ∈ literals) :
    instruction.encode (literals ++ more) = instruction.encode literals := by
  rw [Instruction.encode, operands_append instruction more member, Instruction.encode]

end Somr.Compiler
