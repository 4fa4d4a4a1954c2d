import Somr.Compiler.Contexts

/-!
Owns the recursive-descent parser and its code generation, procedure by
procedure. A failed `expect` prints an error and goes on; printing is the event
of the model, so a run without events is a source the parser accepted.

The head of `tokens` is the current symbol: `GETSYM` drops it and `PEEK` looks
behind it. The head of `contexts` is the `mgenc` a procedure is given, the rest
are its outer contexts. Procedures that loop or recurse take the number of calls
they may still make; running out of it is the only way they stop short.
-/

namespace Somr.Compiler

open Somr.Foundation

/-- One message of `expect` or `expectOneOf`. -/
structure SyntaxError where
  expected : List Symbol
  found : Symbol
  text : String
deriving DecidableEq, Repr

/-- The bound on the number of calls was too small. -/
inductive ParserStop where
  | overrun
deriving DecidableEq, Repr

structure Parser where
  tokens : List Token
  objects : List CompiledObject := []
  contexts : List MethodGenerationContext := []
  classContext : ClassGenerationContext := {}
deriving DecidableEq, Repr

abbrev ParserM := Process SyntaxError ParserStop Parser

namespace Parser

def current (parser : Parser) : Token := parser.tokens.headD Token.endOfInput

/-- What `PEEK` answers. -/
def next (parser : Parser) : Token := parser.tokens.tail.headD Token.endOfInput

def sym : ParserM Symbol := ⟨fun parser => ⟨.ok parser.current.sym, parser, []⟩⟩

def text : ParserM String := ⟨fun parser => ⟨.ok parser.current.text, parser, []⟩⟩

def peek : ParserM Symbol := ⟨fun parser => ⟨.ok parser.next.sym, parser, []⟩⟩

def getSym : ParserM Unit :=
  Process.modify fun parser => { parser with tokens := parser.tokens.tail }

/-- The context being filled. -/
def mgenc (parser : Parser) : MethodGenerationContext := parser.contexts.headD {}

def scopes (parser : Parser) : List Scope :=
  parser.contexts.map MethodGenerationContext.toScope

def updateMgenc (change : MethodGenerationContext → MethodGenerationContext)
    (parser : Parser) : Parser :=
  { parser with contexts := change parser.mgenc :: parser.contexts.tail }

def modifyMgenc (change : MethodGenerationContext → MethodGenerationContext) : ParserM Unit :=
  Process.modify (updateMgenc change)

def updateClass (change : ClassGenerationContext → ClassGenerationContext) (parser : Parser) :
    Parser :=
  { parser with classContext := change parser.classContext }

def modifyClass (change : ClassGenerationContext → ClassGenerationContext) : ParserM Unit :=
  Process.modify (updateClass change)

def setSignature (signature : String) : ParserM Unit :=
  modifyMgenc fun mgenc => { mgenc with signature := signature }

/-! ### Objects the compiler allocates -/

/-- Allocate and answer the new object's name. -/
def allocate (object : CompiledObject) : ParserM Literal :=
  ⟨fun parser => ⟨.ok (.object parser.objects.length),
    { parser with objects := parser.objects ++ [object] }, []⟩⟩

/-- `Universe::SymbolFor`: the interned symbol of a text. -/
def symbolFor (text : String) : ParserM Literal := return .symbol text

/-- `MethodGenerationContext::Assemble`. -/
def assemble (mgenc : MethodGenerationContext) : ParserM Literal :=
  allocate (.method mgenc.compiled)

/-- `MethodGenerationContext::AssemblePrimitive`. -/
def assemblePrimitive (mgenc : MethodGenerationContext) : ParserM Literal :=
  allocate (.primitive mgenc.signature)

/-! ### Tokens -/

def accept (s : Symbol) : ParserM Bool := do
  if (← sym) = s then
    getSym
    return true
  else return false

def acceptOneOf (ss : List Symbol) : ParserM Bool := do
  if ss.contains (← sym) then
    getSym
    return true
  else return false

def expect (s : Symbol) : ParserM Bool := do
  if ← accept s then return true
  Process.emit fun parser => ⟨[s], parser.current.sym, parser.current.text⟩
  return false

def expectOneOf (ss : List Symbol) : ParserM Bool := do
  if ← acceptOneOf ss then return true
  Process.emit fun parser => ⟨ss, parser.current.sym, parser.current.text⟩
  return false

/-! ### Variables -/

def genPushVariable (var : String) : ParserM Unit := do
  let parser ← Process.read
  match findVar var parser.scopes 0 with
  | some slot =>
      if slot.isArgument then
        modifyMgenc (BytecodeGenerator.emitPUSHARGUMENT · slot.index slot.context)
      else
        modifyMgenc (BytecodeGenerator.emitPUSHLOCAL · slot.index slot.context)
  | none =>
      let name ← symbolFor var
      if parser.classContext.findField var then
        modifyMgenc (·.addLiteralIfAbsent name)
        modifyMgenc (BytecodeGenerator.emitPUSHFIELD · name)
      else
        modifyMgenc (·.addLiteralIfAbsent name)
        modifyMgenc (BytecodeGenerator.emitPUSHGLOBAL · name)

def genPopVariable (var : String) : ParserM Unit := do
  let parser ← Process.read
  match findVar var parser.scopes 0 with
  | some slot =>
      if slot.isArgument then
        modifyMgenc (BytecodeGenerator.emitPOPARGUMENT · slot.index slot.context)
      else
        modifyMgenc (BytecodeGenerator.emitPOPLOCAL · slot.index slot.context)
  | none =>
      let name ← symbolFor var
      modifyMgenc (BytecodeGenerator.emitPOPFIELD · name)

/-! ### Identifiers and selectors -/

def identifier : ParserM String := do
  let s ← text
  if ← accept .primitive then return s
  let _ ← expect .identifier
  return s

def keyword : ParserM String := do
  let s ← text
  let _ ← expect .keyword
  return s

/-- `Parser::variable`. -/
def variableName : ParserM String := identifier

def argument : ParserM String := variableName

def unarySelector : ParserM String := do
  let s ← identifier
  let _ ← symbolFor s
  return s

def binarySelector : ParserM String := do
  let s ← text
  if ← accept .or then pure ()
  else if ← accept .comma then pure ()
  else if ← accept .minus then pure ()
  else if ← accept .equal then pure ()
  else if ← acceptOneOf singleOpSyms then pure ()
  else if ← accept .operatorSequence then pure ()
  else let _ ← expect .none
  let _ ← symbolFor s
  return s

def keywordSelector : ParserM String := do
  let s ← text
  let _ ← expectOneOf keywordSelectorSyms
  let _ ← symbolFor s
  return s

def selector : ParserM String := do
  let s ← sym
  if s = .operatorSequence ∨ singleOpSyms.contains s then binarySelector
  else if s = .keyword ∨ s = .keywordSequence then keywordSelector
  else unarySelector

/-! ### Literals -/

def literalInteger : ParserM Nat := do
  let i := strtoul (← text)
  let _ ← expect .integer
  return i

def literalDecimal : ParserM Nat := literalInteger

def negativeDecimal : ParserM Int := do
  let _ ← expect .minus
  return asInt32 (-asInt32 (← literalInteger))

def literalNumber : ParserM Unit := do
  let val ← if (← sym) = .minus then negativeDecimal
    else (fun i : Nat => asInt32 i) <$> literalDecimal
  let lit ← allocate (.integer val)
  modifyMgenc (·.addLiteralIfAbsent lit)
  modifyMgenc (BytecodeGenerator.emitPUSHCONSTANT · lit)

def string : ParserM String := do
  let s ← text
  let _ ← expect .stString
  return s

def literalSymbol : ParserM Unit := do
  let _ ← expect .pound
  let name ← if (← sym) = .stString then string else selector
  let symb ← symbolFor name
  modifyMgenc (·.addLiteralIfAbsent symb)
  modifyMgenc (BytecodeGenerator.emitPUSHCONSTANT · symb)

def literalString : ParserM Unit := do
  let s ← string
  let str ← allocate (.string s)
  modifyMgenc (·.addLiteralIfAbsent str)
  modifyMgenc (BytecodeGenerator.emitPUSHCONSTANT · str)

def literal : ParserM Unit := do
  match ← sym with
  | .pound => literalSymbol
  | .stString => literalString
  | _ => literalNumber

/-! ### Messages and assignments without nesting -/

/-- Emit the send of a message, to `super` when the flag says so. -/
def emitMessage (super : Bool) (msg : String) : ParserM Unit :=
  modifyMgenc fun mgenc =>
    if super then BytecodeGenerator.emitSUPERSEND mgenc (.symbol msg)
    else BytecodeGenerator.emitSEND mgenc (.symbol msg)

def unaryMessage (super : Bool) : ParserM Unit := do
  let msg ← unarySelector
  modifyMgenc (·.addLiteralIfAbsent (.symbol msg))
  emitMessage super msg

/-- `while(sym == Identifier) unaryMessage(super)`, where the flag after the
first message is the one the loop of the caller leaves. -/
def unaryMessages (keepSuper : Bool) : Nat → Bool → ParserM Unit
  | 0, _ => Process.stop .overrun
  | calls + 1, super => do
      if (← sym) = .identifier then
        unaryMessage super
        unaryMessages keepSuper calls (super && keepSuper)

def assignment : ParserM String := do
  let v ← variableName
  let var ← symbolFor v
  modifyMgenc (·.addLiteralIfAbsent var)
  let _ ← expect .assign
  return v

def assignments : Nat → ParserM (List String)
  | 0 => Process.stop .overrun
  | calls + 1 => do
      if (← sym) = .identifier then
        let v ← assignment
        if (← peek) = .assign then
          return v :: (← assignments calls)
        else return [v]
      else return []

def locals : Nat → ParserM Unit
  | 0 => Process.stop .overrun
  | calls + 1 => do
      if (← sym) = .identifier then
        let name ← variableName
        modifyMgenc (·.addLocalIfAbsent name)
        locals calls

def blockArguments : Nat → ParserM Unit
  | 0 => Process.stop .overrun
  | calls + 1 => do
      let _ ← expect .colon
      let name ← argument
      modifyMgenc (·.addArgumentIfAbsent name)
      if (← sym) = .colon then blockArguments calls

def blockPattern (calls : Nat) : ParserM Unit := do
  blockArguments calls
  let _ ← expect .or

/-! ### Nested procedures -/

mutual

def expression : Nat → ParserM Unit
  | 0 => Process.stop .overrun
  | calls + 1 => do
      if (← peek) = .assign then assignation calls else evaluation calls

def assignation : Nat → ParserM Unit
  | 0 => Process.stop .overrun
  | calls + 1 => do
      let l ← assignments calls
      evaluation calls
      l.forM fun _ => modifyMgenc BytecodeGenerator.emitDUP
      l.forM genPopVariable

def evaluation : Nat → ParserM Unit
  | 0 => Process.stop .overrun
  | calls + 1 => do
      let super ← primary calls
      if (← sym).startsMessage then messages calls super

/-- Answers the `super` flag. -/
def primary : Nat → ParserM Bool
  | 0 => Process.stop .overrun
  | calls + 1 => do
      match ← sym with
      | .identifier =>
          let v ← variableName
          if v = "super" then
            genPushVariable "self"
            return true
          else
            genPushVariable v
            return false
      | .newTerm =>
          nestedTerm calls
          return false
      | .newBlock =>
          Process.modify fun parser =>
            { parser with contexts := { blockMethod := true } :: parser.contexts }
          nestedBlock calls
          let parser ← Process.read
          Process.modify fun parser => { parser with contexts := parser.contexts.tail }
          let blockMethod ← assemble parser.mgenc
          modifyMgenc (·.addLiteral blockMethod)
          modifyMgenc (BytecodeGenerator.emitPUSHBLOCK · blockMethod)
          return false
      | _ =>
          literal
          return false

def messages : Nat → Bool → ParserM Unit
  | 0, _ => Process.stop .overrun
  | calls + 1, super => do
      if (← sym) = .identifier then
        unaryMessages false calls super
        binaryMessages calls false
        if (← sym) = .keyword then keywordMessage calls false
      else if (← sym).isBinaryOperator then
        binaryMessages calls super
        if (← sym) = .keyword then keywordMessage calls false
      else keywordMessage calls super

/-- The loops over binary messages: only the first one can be a super send. -/
def binaryMessages : Nat → Bool → ParserM Unit
  | 0, _ => Process.stop .overrun
  | calls + 1, super => do
      if (← sym).isBinaryOperator then
        binaryMessage calls super
        binaryMessages calls false

def binaryMessage : Nat → Bool → ParserM Unit
  | 0, _ => Process.stop .overrun
  | calls + 1, super => do
      let msg ← binarySelector
      modifyMgenc (·.addLiteralIfAbsent (.symbol msg))
      let _ ← binaryOperand calls
      emitMessage super msg

/-- Answers the `super` flag, which the unary messages do not clear. -/
def binaryOperand : Nat → ParserM Bool
  | 0 => Process.stop .overrun
  | calls + 1 => do
      let super ← primary calls
      unaryMessages true calls super
      return super

def keywordMessage : Nat → Bool → ParserM Unit
  | 0, _ => Process.stop .overrun
  | calls + 1, super => do
      let kw ← keywordArguments calls
      let msg ← symbolFor kw
      modifyMgenc (·.addLiteralIfAbsent msg)
      emitMessage super kw

/-- The `do … while(sym == Keyword)` of `keywordMessage`, answering the selector. -/
def keywordArguments : Nat → ParserM String
  | 0 => Process.stop .overrun
  | calls + 1 => do
      let kw ← keyword
      formula calls
      if (← sym) = .keyword then return kw ++ (← keywordArguments calls) else return kw

def formula : Nat → ParserM Unit
  | 0 => Process.stop .overrun
  | calls + 1 => do
      let super ← binaryOperand calls
      binaryMessages calls super

def nestedTerm : Nat → ParserM Unit
  | 0 => Process.stop .overrun
  | calls + 1 => do
      let _ ← expect .newTerm
      expression calls
      let _ ← expect .endTerm

def nestedBlock : Nat → ParserM Unit
  | 0 => Process.stop .overrun
  | calls + 1 => do
      modifyMgenc (·.addArgumentIfAbsent "$block self")
      let _ ← expect .newBlock
      if (← sym) = .colon then blockPattern calls
      let parser ← Process.read
      let signature := blockSignature parser.mgenc.arguments.length
      let _ ← symbolFor signature
      setSignature signature
      blockContents calls
      let parser ← Process.read
      if !parser.mgenc.finished then
        modifyMgenc BytecodeGenerator.emitRETURNLOCAL
        modifyMgenc fun mgenc => { mgenc with finished := true }
      let _ ← expect .endBlock

def blockContents : Nat → ParserM Unit
  | 0 => Process.stop .overrun
  | calls + 1 => do
      if ← accept .or then
        locals calls
        let _ ← expect .or
      blockBody calls false

def blockBody : Nat → Bool → ParserM Unit
  | 0, _ => Process.stop .overrun
  | calls + 1, seenPeriod => do
      if ← accept .exit then result calls
      else if (← sym) = .endBlock then
        if seenPeriod then modifyMgenc (·.removeLastBytecode)
        modifyMgenc BytecodeGenerator.emitRETURNLOCAL
        modifyMgenc fun mgenc => { mgenc with finished := true }
      else if (← sym) = .endTerm then
        modifyMgenc (BytecodeGenerator.emitPUSHARGUMENT · 0 0)
        modifyMgenc BytecodeGenerator.emitRETURNLOCAL
        modifyMgenc fun mgenc => { mgenc with finished := true }
      else
        expression calls
        if ← accept .period then
          modifyMgenc BytecodeGenerator.emitPOP
          blockBody calls true

def result : Nat → ParserM Unit
  | 0 => Process.stop .overrun
  | calls + 1 => do
      expression calls
      modifyMgenc fun mgenc =>
        if mgenc.blockMethod then BytecodeGenerator.emitRETURNNONLOCAL mgenc
        else BytecodeGenerator.emitRETURNLOCAL mgenc
      modifyMgenc fun mgenc => { mgenc with finished := true }
      let _ ← accept .period

end

/-! ### Methods and classes -/

def unaryPattern : ParserM Unit := do
  setSignature (← unarySelector)

def binaryPattern : ParserM Unit := do
  setSignature (← binarySelector)
  let name ← argument
  modifyMgenc (·.addArgumentIfAbsent name)

def keywordPatternArguments : Nat → ParserM String
  | 0 => Process.stop .overrun
  | calls + 1 => do
      let kw ← keyword
      let name ← argument
      modifyMgenc (·.addArgumentIfAbsent name)
      if (← sym) = .keyword then return kw ++ (← keywordPatternArguments calls) else return kw

def keywordPattern (calls : Nat) : ParserM Unit := do
  let kw ← keywordPatternArguments calls
  let _ ← symbolFor kw
  setSignature kw

def pattern (calls : Nat) : ParserM Unit := do
  match ← sym with
  | .identifier => unaryPattern
  | .keyword => keywordPattern calls
  | _ => binaryPattern

def methodBlock (calls : Nat) : ParserM Unit := do
  let _ ← expect .newTerm
  blockContents calls
  let parser ← Process.read
  if !parser.mgenc.finished then
    modifyMgenc BytecodeGenerator.emitPOP
    modifyMgenc (BytecodeGenerator.emitPUSHARGUMENT · 0 0)
    modifyMgenc BytecodeGenerator.emitRETURNLOCAL
    modifyMgenc fun mgenc => { mgenc with finished := true }
  let _ ← expect .endTerm

def primitiveBlock : ParserM Unit := do
  let _ ← expect .primitive

def method (calls : Nat) : ParserM Unit := do
  pattern calls
  let _ ← expect .equal
  if (← sym) = .primitive then
    modifyMgenc fun mgenc => { mgenc with primitive := true }
    primitiveBlock
  else methodBlock calls

/-- The field loops of `instanceFields` and `classFields`. -/
def fieldNames (add : String → ClassGenerationContext → ClassGenerationContext) :
    Nat → ParserM Unit
  | 0 => Process.stop .overrun
  | calls + 1 => do
      if (← sym) = .identifier then
        let var ← variableName
        let _ ← symbolFor var
        modifyClass (add var)
        fieldNames add calls

def fields (add : String → ClassGenerationContext → ClassGenerationContext) (calls : Nat) :
    ParserM Unit := do
  if ← accept .or then
    fieldNames add calls
    let _ ← expect .or

def instanceFields : Nat → ParserM Unit :=
  fields fun var cgenc => { cgenc with instanceFields := cgenc.instanceFields ++ [var] }

def classFields : Nat → ParserM Unit :=
  fields fun var cgenc => { cgenc with classFields := cgenc.classFields ++ [var] }

/-- The two method loops of `Classdef`. -/
def methods (add : Literal → ClassGenerationContext → ClassGenerationContext) :
    Nat → ParserM Unit
  | 0 => Process.stop .overrun
  | calls + 1 => do
      if (← sym).startsMessage then
        Process.modify fun parser => { parser with contexts := [{ toScope := { arguments := ["self"] } }] }
        method calls
        let parser ← Process.read
        let invokable ← if parser.mgenc.primitive then assemblePrimitive parser.mgenc
          else assemble parser.mgenc
        Process.modify fun parser => { parser with contexts := [] }
        modifyClass (add invokable)
        methods add calls

def classdef (calls : Nat) : ParserM Unit := do
  let name ← text
  let _ ← symbolFor name
  modifyClass fun cgenc => { cgenc with name := name }
  let _ ← expect .identifier
  let _ ← expect .equal
  let superName ← if (← sym) = .identifier then text else pure "Object"
  let _ ← symbolFor superName
  modifyClass fun cgenc => { cgenc with superName := superName }
  let _ ← accept .identifier
  let _ ← expect .newTerm
  instanceFields calls
  methods (fun invokable cgenc =>
    { cgenc with instanceMethods := cgenc.instanceMethods ++ [invokable] }) calls
  if ← accept .separator then
    modifyClass fun cgenc => { cgenc with classSide := true }
    classFields calls
    methods (fun invokable cgenc =>
      { cgenc with classMethods := cgenc.classMethods ++ [invokable] }) calls
  let _ ← expect .endTerm

/-- `Parser::Classdef` on a whole token stream. Every procedure of the parser
consumes a token within a fixed number of calls, so this many calls suffice. -/
def parse (tokens : List Token) : Outcome SyntaxError ParserStop Parser Unit :=
  (classdef (16 * (tokens.length + 1))).run { tokens := tokens }

end Parser

end Somr.Compiler
