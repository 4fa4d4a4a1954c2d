import Mathlib.Data.List.Basic

/-!
Owns the tokens the parser reads, the tables that classify them, and the number
of arguments a selector stands for.

A token stream is the list of what successive `GetSym` calls return; when it is
used up every further call returns `NONE`.
-/

namespace Somr.Compiler

/-- `Symbol` of `Lexer.h`. -/
inductive Symbol where
  | none | integer | not | and | or | star | div | mod | plus
  | minus | equal | more | less | comma | at | per | newBlock
  | endBlock | colon | period | exit | assign | newTerm | endTerm | pound
  | primitive | separator | stString | identifier | keyword | keywordSequence
  | operatorSequence
deriving DecidableEq, Repr

structure Token where
  sym : Symbol
  text : String
deriving DecidableEq, Repr

/-- What `GetSym` returns at the end of the input. -/
def Token.endOfInput : Token := ⟨.none, ""⟩

/-! ### Symbol tables of the parser -/

def singleOpSyms : List Symbol :=
  [.not, .and, .or, .star, .div, .mod, .plus, .equal, .more, .less, .comma, .at, .per]

def binaryOpSyms : List Symbol :=
  [.or, .comma, .minus, .equal, .not, .and, .or, .star, .div, .mod, .plus, .equal,
    .more, .less, .comma, .at, .per]

def keywordSelectorSyms : List Symbol := [.keyword, .keywordSequence]

/-- The guard of every binary-message loop. -/
def Symbol.isBinaryOperator (sym : Symbol) : Bool :=
  sym == .operatorSequence || binaryOpSyms.contains sym

/-- The guard of `Parser::evaluation` and of the method loops of `Classdef`. -/
def Symbol.startsMessage (sym : Symbol) : Bool :=
  sym == .identifier || sym == .keyword || sym.isBinaryOperator

/-! ### Signatures -/

/-- The characters on which `Signature::IsBinary` answers true. -/
def operatorChars : List Char :=
  ['~', '&', '|', '*', '/', '@', '+', '-', '=', '>', '<', ',', '%', '\\']

namespace Signature

/-- `Signature::IsBinary`: only the first character is looked at. -/
def isBinary (signature : String) : Bool :=
  match signature.toList with
  | [] => false
  | first :: _ => operatorChars.contains first

/-- `Signature::GetNumberOfArguments`: two for a binary selector, otherwise the
receiver and one argument for each colon. -/
def getNumberOfArguments (signature : String) : Nat :=
  if isBinary signature then 2 else signature.toList.count ':' + 1

theorem getNumberOfArguments_pos (signature : String) :
    0 < getNumberOfArguments signature := by
  unfold getNumberOfArguments
  split <;> omega

/-- Whether a selector is binary is decided by its first part. -/
theorem isBinary_append {first : String} (colon : 0 < first.toList.count ':') (others : String) :
    isBinary (first ++ others) = isBinary first := by
  rw [isBinary, isBinary, String.toList_append]
  cases chars : first.toList with
  | nil =>
      rw [chars] at colon
      exact absurd colon (by decide)
  | cons letter letters => rfl

end Signature

end Somr.Compiler
