import Somr.Compiler.Symbols

/-!
Owns the concrete grammar of SOM: what the parser should accept, as syntax trees
together with the tokens they are written with.

Every level of precedence has its own constructor arguments, so a syntax tree is
a derivation: an operand is a primary with its unary selectors, a formula is an
operand with its binary messages, an expression is a formula with its keyword
messages behind assignment targets.
-/

namespace Somr.Compiler

/-! ### Words -/

/-- The text of an identifier token: a name without a colon that starts with no
operator character. -/
structure Identifier where
  text : String
  lexical : Signature.isBinary text = false ∧ text.toList.count ':' = 0

theorem Identifier.lexical_self :
    Signature.isBinary "self" = false ∧ "self".toList.count ':' = 0 := by decide

theorem Identifier.lexical_super :
    Signature.isBinary "super" = false ∧ "super".toList.count ':' = 0 := by decide

/-- The text of a keyword token: an identifier and one colon. -/
structure Keyword where
  text : String
  lexical : Signature.isBinary text = false ∧ text.toList.count ':' = 1

/-- A token that names a binary message. -/
structure Operator where
  token : Token
  operator : token.sym.isBinaryOperator = true
  lexical : Signature.isBinary token.text = true

def Operator.plus : Operator := ⟨⟨.plus, "+"⟩, rfl, by decide⟩

/-- A token that names a parameter; the word `primitive` is one there. -/
structure Parameter where
  token : Token
  named : token.sym = .identifier ∨ token.sym = .primitive

/-- A token that names the selector of a symbol literal. -/
structure SelectorToken where
  token : Token
  named : token.sym = .operatorSequence ∨ singleOpSyms.contains token.sym = true ∨
    token.sym = .keyword ∨ token.sym = .keywordSequence ∨
    token.sym = .identifier ∨ token.sym = .primitive

namespace Token

def newBlock : Token := ⟨.newBlock, "["⟩
def endBlock : Token := ⟨.endBlock, "]"⟩
def newTerm : Token := ⟨.newTerm, "("⟩
def endTerm : Token := ⟨.endTerm, ")"⟩
def colon : Token := ⟨.colon, ":"⟩
def period : Token := ⟨.period, "."⟩
def exit : Token := ⟨.exit, "^"⟩
def assign : Token := ⟨.assign, ":="⟩
def pound : Token := ⟨.pound, "#"⟩
def or : Token := ⟨.or, "|"⟩
def minus : Token := ⟨.minus, "-"⟩
def equal : Token := ⟨.equal, "="⟩
def separator : Token := ⟨.separator, "----"⟩
def primitive : Token := ⟨.primitive, "primitive"⟩

end Token

def Identifier.token (identifier : Identifier) : Token := ⟨.identifier, identifier.text⟩

def Keyword.token (keyword : Keyword) : Token := ⟨.keyword, keyword.text⟩

/-- A literal as it is written. -/
inductive LiteralSource where
  | integer (digits : String)
  | negative (digits : String)
  | string (chars : String)
  | symbol (selector : SelectorToken)
  | symbolString (chars : String)

/-! ### Syntax trees -/

mutual

inductive Primary where
  | name (identifier : Identifier)
  | term (expression : Expression)
  | block (parameters : List Parameter) (locals : Option (List Identifier)) (body : Body)
  | literal (source : LiteralSource)

/-- `targets := primary unaries binaries keywords`. -/
inductive Expression where
  | mk (targets : List Identifier) (primary : Primary) (unaries : List Identifier)
      (binaries : Binaries) (keywords : Keywords)

/-- The binary messages behind an operand. -/
inductive Binaries where
  | done
  | message (operator : Operator) (primary : Primary) (unaries : List Identifier)
      (rest : Binaries)

/-- The parts of a keyword message behind its receiver. -/
inductive Keywords where
  | done
  | message (keyword : Keyword) (primary : Primary) (unaries : List Identifier)
      (binaries : Binaries) (rest : Keywords)

/-- The statements of a method or a block. -/
inductive Body where
  | empty
  | result (value : Expression) (period : Bool)
  | last (value : Expression)
  | statement (value : Expression) (rest : Body)

end

inductive MethodPattern where
  | unary (selector : Identifier)
  | binary (operator : Operator) (argument : Parameter)
  | keyword (first : Keyword × Parameter) (rest : List (Keyword × Parameter))

inductive MethodDefinition where
  | primitive (pattern : MethodPattern)
  | code (pattern : MethodPattern) (locals : Option (List Identifier)) (body : Body)

/-- The first token of a method. -/
def MethodPattern.head : MethodPattern → Token
  | .unary selector => ⟨.identifier, selector.text⟩
  | .binary operator _ => operator.token
  | .keyword first _ => ⟨.keyword, first.1.text⟩

def MethodDefinition.pattern : MethodDefinition → MethodPattern
  | .primitive pattern => pattern
  | .code pattern _ _ => pattern

/-- The fields and methods of one side of a class. A side without field
declaration does not start with the method `|`. -/
structure ClassSide where
  fields : Option (List Identifier)
  methods : List MethodDefinition
  unambiguous : fields = none →
    ∀ method ∈ methods.head?, method.pattern.head.sym ≠ .or

structure ClassDefinition where
  name : Identifier
  superName : Option Identifier
  instanceSide : ClassSide
  classSide : Option ClassSide

/-! ### Token sequences -/

def LiteralSource.tokens : LiteralSource → List Token
  | .integer digits => [⟨.integer, digits⟩]
  | .negative digits => [Token.minus, ⟨.integer, digits⟩]
  | .string chars => [⟨.stString, chars⟩]
  | .symbol selector => [Token.pound, selector.token]
  | .symbolString chars => [Token.pound, ⟨.stString, chars⟩]

/-- Names between bars. -/
def barredTokens : Option (List Identifier) → List Token
  | none => []
  | some names => Token.or :: names.map Identifier.token ++ [Token.or]

/-- The parameters of a block with the bar that ends them. -/
def parameterTokens : List Parameter → List Token
  | [] => []
  | parameters => parameters.flatMap (fun parameter => [Token.colon, parameter.token]) ++ [Token.or]

def targetTokens (targets : List Identifier) : List Token :=
  targets.flatMap fun target => [target.token, Token.assign]

mutual

def Primary.tokens : Primary → List Token
  | .name identifier => [identifier.token]
  | .term expression => Token.newTerm :: expression.tokens ++ [Token.endTerm]
  | .block parameters locals body =>
      Token.newBlock :: parameterTokens parameters ++ barredTokens locals ++ body.tokens ++
        [Token.endBlock]
  | .literal source => source.tokens

def Expression.tokens : Expression → List Token
  | .mk targets primary unaries binaries keywords =>
      targetTokens targets ++ primary.tokens ++ unaries.map Identifier.token ++
        binaries.tokens ++ keywords.tokens

def Binaries.tokens : Binaries → List Token
  | .done => []
  | .message operator primary unaries rest =>
      operator.token :: primary.tokens ++ unaries.map Identifier.token ++ rest.tokens

def Keywords.tokens : Keywords → List Token
  | .done => []
  | .message keyword primary unaries binaries rest =>
      keyword.token :: primary.tokens ++ unaries.map Identifier.token ++ binaries.tokens ++
        rest.tokens

def Body.tokens : Body → List Token
  | .empty => []
  | .result value period =>
      Token.exit :: value.tokens ++ (if period then [Token.period] else [])
  | .last value => value.tokens
  | .statement value rest => value.tokens ++ Token.period :: rest.tokens

end

def MethodPattern.tokens : MethodPattern → List Token
  | .unary selector => [selector.token]
  | .binary operator argument => [operator.token, argument.token]
  | .keyword first rest =>
      (first :: rest).flatMap fun part => [part.1.token, part.2.token]

def MethodDefinition.tokens : MethodDefinition → List Token
  | .primitive pattern => pattern.tokens ++ [Token.equal, Token.primitive]
  | .code pattern locals body =>
      pattern.tokens ++ Token.equal :: Token.newTerm :: barredTokens locals ++ body.tokens ++
        [Token.endTerm]

def ClassSide.tokens (side : ClassSide) : List Token :=
  barredTokens side.fields ++ side.methods.flatMap MethodDefinition.tokens

/-- The class side behind its separator. -/
def classSideTokens : Option ClassSide → List Token
  | none => []
  | some side => Token.separator :: side.tokens

def ClassDefinition.tokens (definition : ClassDefinition) : List Token :=
  definition.name.token :: Token.equal :: (definition.superName.toList.map Identifier.token ++
    (Token.newTerm :: (definition.instanceSide.tokens ++
      (classSideTokens definition.classSide ++ [Token.endTerm]))))

/-! ### Shape of a syntax tree -/

/-- The variable `super` itself. -/
def Primary.isSuper : Primary → Bool
  | .name identifier => identifier.text == "super"
  | _ => false

/-- The selector of a keyword message. -/
def Keywords.selector : Keywords → String
  | .done => ""
  | .message keyword _ _ _ rest => keyword.text ++ rest.selector

def Binaries.isDone : Binaries → Bool
  | .done => true
  | .message .. => false

def Body.isEmpty : Body → Bool
  | .empty => true
  | _ => false

/-- The last statement is neither returned nor followed by a period. -/
def Body.endsOpen : Body → Bool
  | .empty | .result .. => false
  | .last _ => true
  | .statement _ rest => rest.endsOpen

def Keywords.isDone : Keywords → Bool
  | .done => true
  | .message .. => false

end Somr.Compiler
