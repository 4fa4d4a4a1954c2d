import Somr.Compiler.Symbols
import Somr.Foundation.TextSearch

/-!
Owns the lexer: the line buffer and its refilling from the input stream, the
skipping of white space and comments, the classification of the next token, and
the one token of lookahead.

Reading `buf` behind the NUL that ends it and writing behind the end of a text
buffer are undefined; a call that does either stops. The text buffers are raw
memory of which `cString` reads the part before the first NUL.
-/

namespace Somr.Compiler

open Somr.Foundation

/-- Why a call of the lexer has no defined result. -/
inductive LexerStop where
  | outside
  | overflow
deriving DecidableEq, Repr

/-! ### Characters -/

def newline : Char := Char.ofNat 10
def doubleQuote : Char := Char.ofNat 34
def quote : Char := Char.ofNat 39

/-- `isspace` in the C locale. -/
def isspace (c : Char) : Bool := c == ' ' || (9 ≤ c.toNat && c.toNat ≤ 13)

/-- The macro `_ISOP`. -/
def isOp (c : Char) : Bool :=
  ['~', '&', '|', '*', '/', '\\', '+', '=', '>', '<', ',', '@', '%'].contains c

/-- The characters of an identifier behind its first one. -/
def isWord (c : Char) : Bool := c.isAlpha || c.isDigit || c == '_'

/-- `BUFSIZ` of the C library. -/
def bufsiz : Nat := 8192

/-! ### Input -/

/-- An `istream`: what is left to read, and whether an end was hit. -/
structure InputStream where
  content : List Char
  good : Bool
deriving DecidableEq, Repr

/-- `std::getline` on a good stream. -/
def InputStream.getline (stream : InputStream) : List Char × InputStream :=
  match stream.content.dropWhile (· ≠ newline) with
  | [] => (stream.content, ⟨[], false⟩)
  | _ :: rest => (stream.content.takeWhile (· ≠ newline), ⟨rest, true⟩)

structure Lexer where
  infile : InputStream
  sym : Symbol
  symc : Char
  text : List Char
  lineNumber : Nat
  peekDone : Bool
  nextSym : Symbol
  nextSymc : Char
  nextText : List Char
  buf : List Char
  bufp : Nat
deriving DecidableEq, Repr

namespace Lexer

/-- The constructor; it leaves the other members as the memory had them. -/
def new (file : InputStream) (memory : Lexer) : Lexer :=
  { memory with infile := file, peekDone := false, buf := [], bufp := 0, lineNumber := 0 }

def getText (lexer : Lexer) : List Char := cString lexer.text

def getNextText (lexer : Lexer) : List Char := cString lexer.nextText

/-- `buf[index]`. -/
def charAt (lexer : Lexer) (index : Nat) : Except LexerStop Char :=
  if index < lexer.buf.length then .ok (lexer.buf.getD index nul)
  else if index = lexer.buf.length then .ok nul
  else .error .outside

/-- `_BC`. -/
def bc (lexer : Lexer) : Except LexerStop Char := lexer.charAt lexer.bufp

/-- `EOB`. -/
def eob (lexer : Lexer) : Bool := lexer.buf.length ≤ lexer.bufp

def fillBuffer (lexer : Lexer) : Lexer :=
  if lexer.infile.good then
    { lexer with
      buf := lexer.infile.getline.1
      infile := lexer.infile.getline.2
      lineNumber := lexer.lineNumber + 1
      bufp := 0 }
  else lexer

/-- `bufp++; if(EOB) fillBuffer();` -/
def advance (lexer : Lexer) : Lexer :=
  let moved := { lexer with bufp := lexer.bufp + 1 }
  if moved.eob then moved.fillBuffer else moved

/-- What the lexer may still read: the rest of the line, the rest of the
stream, and the end of the stream once. -/
def unread (lexer : Lexer) : Nat :=
  (lexer.buf.length - lexer.bufp) + lexer.infile.content.length + lexer.infile.good.toNat

/-! ### Progress -/

theorem getline_length (stream : InputStream) :
    stream.getline.1.length + stream.getline.2.content.length +
      stream.getline.2.good.toNat = stream.content.length := by
  have split : stream.content.takeWhile (· ≠ newline) ++ stream.content.dropWhile (· ≠ newline) =
      stream.content := List.takeWhile_append_dropWhile
  unfold InputStream.getline
  cases dropped : stream.content.dropWhile (· ≠ newline) with
  | nil => simp
  | cons c rest =>
      rw [dropped] at split
      have lengths := congrArg List.length split
      simp only [List.length_append, List.length_cons] at lengths
      simp only [Bool.toNat_true]
      omega

theorem unread_fillBuffer_lt (lexer : Lexer) (good : lexer.infile.good = true) :
    lexer.fillBuffer.unread < lexer.unread := by
  have lengths := getline_length lexer.infile
  simp only [fillBuffer, good, if_true, unread, Bool.toNat_true]
  omega

theorem unread_fillBuffer_le (lexer : Lexer) : lexer.fillBuffer.unread ≤ lexer.unread := by
  by_cases good : lexer.infile.good = true
  · exact Nat.le_of_lt (unread_fillBuffer_lt lexer good)
  · have same : lexer.fillBuffer = lexer := if_neg good
    exact Nat.le_of_eq (congrArg unread same)

theorem unread_advance_lt (lexer : Lexer) (inside : lexer.bufp < lexer.buf.length) :
    lexer.advance.unread < lexer.unread := by
  have moved : ({ lexer with bufp := lexer.bufp + 1 } : Lexer).unread < lexer.unread := by
    simp only [unread]
    omega
  unfold advance
  simp only
  split
  · exact Nat.lt_of_le_of_lt (unread_fillBuffer_le _) moved
  · exact moved

/-- Behind the end of the line only the next line can be read. -/
theorem unread_advance_lt_of_reads (lexer : Lexer) {c : Char}
    (reads : lexer.advance.bc = .ok c) : lexer.advance.unread < lexer.unread := by
  by_cases inside : lexer.bufp < lexer.buf.length
  · exact unread_advance_lt lexer inside
  · have atEnd : ({ lexer with bufp := lexer.bufp + 1 } : Lexer).eob = true := by
      simp only [eob, decide_eq_true_eq]
      omega
    by_cases good : lexer.infile.good = true
    · have filled := unread_fillBuffer_lt { lexer with bufp := lexer.bufp + 1 } good
      simp only [advance, atEnd, if_true]
      simp only [unread] at filled ⊢
      omega
    · have stuck : lexer.advance = { lexer with bufp := lexer.bufp + 1 } := by
        simp only [advance, atEnd, if_true, fillBuffer, if_neg good]
      rw [stuck, bc, charAt, if_neg (by simp only; omega), if_neg (by simp only; omega)] at reads
      cases reads

theorem lt_of_bc_ne_nul {lexer : Lexer} {c : Char} (reads : lexer.bc = .ok c) (real : c ≠ nul) :
    lexer.bufp < lexer.buf.length := by
  unfold bc charAt at reads
  split at reads
  · assumption
  · split at reads
    · exact absurd (Except.ok.inj reads).symm real
    · cases reads

theorem good_of_fillBuffer {lexer : Lexer} (good : lexer.fillBuffer.infile.good = true) :
    lexer.infile.good = true := by
  unfold fillBuffer at good
  split at good
  · assumption
  · exact good

theorem good_of_advance {lexer : Lexer} (good : lexer.advance.infile.good = true) :
    lexer.infile.good = true := by
  unfold advance at good
  simp only at good
  split at good
  · have before := good_of_fillBuffer good
    exact before
  · exact good

/-! ### White space and comments -/

def skipWhiteSpace (lexer : Lexer) : Except LexerStop Lexer :=
  match _reads : lexer.bc with
  | .error reason => .error reason
  | .ok c => if _space : isspace c then skipWhiteSpace lexer.advance else .ok lexer
termination_by lexer.unread
decreasing_by
  refine unread_advance_lt lexer (lt_of_bc_ne_nul _reads ?_)
  intro isNul
  rw [isNul] at _space
  exact Bool.noConfusion _space

/-- The loop of `skipComment`. -/
def skipToDoubleQuote (lexer : Lexer) : Except LexerStop Lexer :=
  match _reads : lexer.advance.bc with
  | .error reason => .error reason
  | .ok c => if c = doubleQuote then .ok lexer.advance else skipToDoubleQuote lexer.advance
termination_by lexer.unread
decreasing_by exact unread_advance_lt_of_reads lexer _reads

def skipComment (lexer : Lexer) : Except LexerStop Lexer := do
  if (← lexer.bc) = doubleQuote then
    let closing ← lexer.skipToDoubleQuote
    return { closing with bufp := closing.bufp + 1 }
  else return lexer

/-- The condition of the skipping loop of `GetSym`. -/
def skipsOn (lexer : Lexer) : Except LexerStop Bool :=
  if lexer.eob then .ok lexer.infile.good
  else do
    let c ← lexer.bc
    return (isspace c || c == doubleQuote) && lexer.infile.good

theorem skipWhiteSpace_spec (lexer after : Lexer) (skips : lexer.skipWhiteSpace = .ok after) :
    (after = lexer ∨ after.unread < lexer.unread) ∧
      (after.infile.good = true → lexer.infile.good = true) ∧
      ∃ c, after.bc = .ok c ∧ isspace c = false := by
  fun_induction skipWhiteSpace lexer with
  | case1 lexer reason reads => cases skips
  | case2 lexer c reads space again =>
      obtain ⟨shrinks, stays, ends⟩ := again skips
      have real : c ≠ nul := by
        intro isNul
        rw [isNul] at space
        exact Bool.noConfusion space
      have less := unread_advance_lt lexer (lt_of_bc_ne_nul reads real)
      refine ⟨.inr ?_, fun good => good_of_advance (stays good), ends⟩
      rcases shrinks with same | shrinks
      · exact same ▸ less
      · omega
  | case3 lexer c reads noSpace =>
      cases skips
      exact ⟨.inl rfl, id, c, reads, by simpa using noSpace⟩

theorem skipToDoubleQuote_spec (lexer after : Lexer)
    (skips : lexer.skipToDoubleQuote = .ok after) :
    after.unread < lexer.unread ∧ (after.infile.good = true → lexer.infile.good = true) := by
  fun_induction skipToDoubleQuote lexer with
  | case1 lexer reason reads => cases skips
  | case2 lexer reads =>
      cases skips
      exact ⟨unread_advance_lt_of_reads lexer reads, good_of_advance⟩
  | case3 lexer c reads noQuote again =>
      obtain ⟨shrinks, stays⟩ := again skips
      have less := unread_advance_lt_of_reads lexer reads
      exact ⟨by omega, fun good => good_of_advance (stays good)⟩

theorem skipComment_spec (lexer after : Lexer) (skips : lexer.skipComment = .ok after) :
    (after.infile.good = true → lexer.infile.good = true) ∧
      (after.unread < lexer.unread ∨
        after = lexer ∧ ∃ c, lexer.bc = .ok c ∧ c ≠ doubleQuote) := by
  unfold skipComment at skips
  cases reads : lexer.bc with
  | error reason => simp [reads, bind, Except.bind] at skips
  | ok c =>
      simp only [reads, bind, Except.bind, pure, Except.pure] at skips
      split at skips
      · cases inner : lexer.skipToDoubleQuote with
        | error reason => simp [inner] at skips
        | ok closing =>
            simp only [inner, Except.ok.injEq] at skips
            obtain ⟨shrinks, stays⟩ := skipToDoubleQuote_spec lexer closing inner
            subst skips
            refine ⟨stays, .inl ?_⟩
            simp only [unread] at shrinks ⊢
            omega
      · next noQuote =>
          cases skips
          exact ⟨id, .inr ⟨rfl, c, rfl, noQuote⟩⟩

theorem skip_progress {lexer spaced after : Lexer}
    (spaces : (if lexer.eob then lexer.fillBuffer else lexer).skipWhiteSpace = .ok spaced)
    (comments : spaced.skipComment = .ok after) (again : after.skipsOn = .ok true) :
    after.unread < lexer.unread := by
  obtain ⟨spaceShrinks, spaceGood, blank⟩ := skipWhiteSpace_spec _ _ spaces
  obtain ⟨commentGood, commentShrinks⟩ := skipComment_spec _ _ comments
  have afterGood : after.infile.good = true := by
    unfold skipsOn at again
    split at again
    · exact Except.ok.inj again
    · cases reads : after.bc with
      | error reason => simp [reads, bind, Except.bind] at again
      | ok c => simp_all [bind, Except.bind, pure, Except.pure]
  have good := spaceGood (commentGood afterGood)
  by_cases atEnd : lexer.eob = true
  · rw [if_pos atEnd] at spaceShrinks good
    have filled := unread_fillBuffer_lt lexer (good_of_fillBuffer good)
    rcases spaceShrinks with rfl | spaceShrinks <;> rcases commentShrinks with _ | ⟨rfl, _⟩ <;>
      omega
  · rw [if_neg atEnd] at spaceShrinks
    rcases commentShrinks with commentShrinks | ⟨rfl, c, reads, noQuote⟩
    · rcases spaceShrinks with rfl | spaceShrinks <;> omega
    · rcases spaceShrinks with rfl | spaceShrinks
      · -- nothing was skipped, so the loop stands at a token
        obtain ⟨d, alsoReads, noSpace⟩ := blank
        rw [reads] at alsoReads
        cases alsoReads
        simp [skipsOn, atEnd, reads, bind, Except.bind, pure, Except.pure, noSpace, noQuote]
          at again
      · omega

/-- The skipping loop of `GetSym`. -/
def skip (lexer : Lexer) : Except LexerStop Lexer :=
  match _spaces : (if lexer.eob then lexer.fillBuffer else lexer).skipWhiteSpace with
  | .error reason => .error reason
  | .ok spaced =>
    match _comments : spaced.skipComment with
    | .error reason => .error reason
    | .ok after =>
      match _again : after.skipsOn with
      | .error reason => .error reason
      | .ok true => skip after
      | .ok false => .ok after
termination_by lexer.unread
decreasing_by exact skip_progress _spaces _comments _again

/-! ### Tokens -/

/-- The characters matched by `_MATCH` outside the operators. -/
def punctuation : List (Char × Symbol) :=
  [('[', .newBlock), (']', .endBlock), ('(', .newTerm), (')', .endTerm), ('#', .pound),
    ('^', .exit), ('.', .period)]

def operators : List (Char × Symbol) :=
  [('~', .not), ('&', .and), ('|', .or), ('*', .star), ('/', .div), ('\\', .mod), ('+', .plus),
    ('=', .equal), ('>', .more), ('<', .less), (',', .comma), ('@', .at), ('%', .per)]

def separatorText : List Char := ['-', '-', '-', '-']

def primitiveText : List Char := ['p', 'r', 'i', 'm', 'i', 't', 'i', 'v', 'e']

/-- Write a C string into `text`. -/
def writeText (chars : List Char) (lexer : Lexer) : Except LexerStop Lexer :=
  if chars.length < bufsiz then
    .ok { lexer with text := chars ++ nul :: lexer.text.drop (chars.length + 1) }
  else .error .overflow

/-- What is left of the line. -/
def rest (lexer : Lexer) : List Char := lexer.buf.drop lexer.bufp

/-- Recognise `chars` as a token of kind `sym`; `width` characters are used up. -/
def recognise (sym : Symbol) (symc : Char) (chars : List Char) (width : Nat) (lexer : Lexer) :
    Except LexerStop Lexer :=
  { lexer with sym := sym, symc := symc, bufp := lexer.bufp + width }.writeText chars

/-- A string literal; the loop looks for the closing quote on the line and does
not know where the line ends. -/
def scanString (lexer : Lexer) : Except LexerStop Lexer :=
  let contents := lexer.rest.tail.takeWhile (· ≠ quote)
  if contents.length < lexer.rest.tail.length then
    lexer.recognise .stString nul contents (contents.length + 2)
  else .error .outside

/-- Identifiers, keywords and keyword sequences. -/
def scanWord (lexer : Lexer) : Except LexerStop Lexer :=
  let word := lexer.rest.takeWhile isWord
  let behind := lexer.rest.dropWhile isWord
  match behind with
  | ':' :: more =>
      if (more.headD nul).isAlpha then
        let others := more.takeWhile fun c => c.isAlpha || c == ':'
        lexer.recognise .keywordSequence nul (word ++ ':' :: others)
          (word.length + 1 + others.length)
      else lexer.recognise .keyword nul (word ++ [':']) (word.length + 1)
  | _ => lexer.recognise .identifier nul word word.length

/-- The cascade of `GetSym`. Its scanning loops stop at the NUL that ends the
line at the latest. -/
def scanToken (lexer : Lexer) : Except LexerStop Lexer := do
  let c ← lexer.bc
  let next := lexer.rest.tail.headD nul
  if c = quote then lexer.scanString
  else if let some sym := punctuation.lookup c then lexer.recognise sym c [c] 1
  else if c = ':' then
    if next = '=' then lexer.recognise .assign nul [':', '='] 2
    else lexer.recognise .colon ':' [':'] 1
  else if c = '-' then
    if separatorText.isPrefixOf lexer.rest then
      let dashes := lexer.rest.takeWhile (· = '-')
      lexer.recognise .separator lexer.symc dashes dashes.length
    else lexer.recognise .minus '-' ['-'] 1
  else if isOp c then
    if isOp next then
      let chars := lexer.rest.takeWhile isOp
      lexer.recognise .operatorSequence nul chars chars.length
    else lexer.recognise ((operators.lookup c).getD lexer.sym) c [c] 1
  else if primitiveText.isPrefixOf lexer.rest then
    lexer.recognise .primitive nul primitiveText primitiveText.length
  else if c.isAlpha then lexer.scanWord
  else if c.isDigit then
    let digits := lexer.rest.takeWhile Char.isDigit
    lexer.recognise .integer nul digits digits.length
  else lexer.recognise .none c [c] 0

/-- Take over the token `Peek` has read; `strncpy` copies at most 512
characters and fills up with NULs. -/
def replay (lexer : Lexer) : Lexer :=
  let copied := lexer.getNextText.take 512
  { lexer with
    peekDone := false
    sym := lexer.nextSym
    symc := lexer.nextSymc
    text := copied ++ List.replicate (512 - copied.length) nul ++ lexer.text.drop 512 }

def getSym (lexer : Lexer) : Except LexerStop Lexer :=
  if lexer.peekDone then .ok lexer.replay
  else do (← lexer.skip).scanToken

/-- `Peek`; the current text is kept in a buffer of 256 characters. -/
def peek (lexer : Lexer) : Except LexerStop Lexer := do
  let saveText := lexer.getText
  if saveText.length < 256 then
    let ahead ← lexer.getSym
    let nextText := ahead.getText ++ nul :: ahead.nextText.drop (ahead.getText.length + 1)
    let restored : Lexer :=
      { ahead with nextSym := ahead.sym, nextSymc := ahead.symc, nextText := nextText,
                   sym := lexer.sym, symc := lexer.symc, peekDone := true }
    restored.writeText saveText
  else .error .overflow

/-- The token the last call has left. -/
def token (lexer : Lexer) : Token := ⟨lexer.sym, String.ofList lexer.getText⟩

/-- What `count` successive calls of `GetSym` return. -/
def getSyms : Nat → Lexer → Except LexerStop (List Token)
  | 0, _ => .ok []
  | count + 1, lexer => do
      let after ← lexer.getSym
      let others ← getSyms count after
      return after.token :: others

end Lexer
end Somr.Compiler
