import Mathlib.Data.List.TakeWhile
import Somr.Compiler.Lexer
import Somr.Foundation.KeyedEntries

/-!
Owns the printed form of token lists and what the lexer reads back from it.

A token comes back as it was printed unless the prefix test for the word
`primitive` cuts it, a later keyword of a sequence has a digit or an underscore,
or a NUL ends the text of a string early.
-/

namespace Somr.Compiler

open Lexer (operators punctuation primitiveText)
open Somr.Foundation

/-! ### Printed tokens -/

/-- An identifier: a letter and then letters, digits and underscores. -/
def isIdentifier : List Char → Bool
  | [] => false
  | first :: others => first.isAlpha && others.all isWord

/-- The texts of each kind of token. -/
inductive Lexical : Symbol → List Char → Prop
  | identifier (word : List Char) (isWord : isIdentifier word) (other : word ≠ primitiveText) :
      Lexical .identifier word
  | keyword (word : List Char) (isWord : isIdentifier word) (other : word ≠ primitiveText) :
      Lexical .keyword (word ++ [':'])
  | keywordSequence (words : List (List Char)) (several : 2 ≤ words.length)
      (areWords : ∀ word ∈ words, isIdentifier word ∧ word ≠ primitiveText) :
      Lexical .keywordSequence (words.flatMap (· ++ [':']))
  | integer (digits : List Char) (some : digits ≠ []) (areDigits : ∀ c ∈ digits, c.isDigit) :
      Lexical .integer digits
  | operator (c : Char) (sym : Symbol) (listed : operators.lookup c = some sym) :
      Lexical sym [c]
  | minus : Lexical .minus ['-']
  | operatorSequence (chars : List Char) (several : 2 ≤ chars.length)
      (areOps : ∀ c ∈ chars, isOp c) : Lexical .operatorSequence chars
  | punctuation (c : Char) (sym : Symbol) (listed : punctuation.lookup c = some sym) :
      Lexical sym [c]
  | colon : Lexical .colon [':']
  | assign : Lexical .assign [':', '=']
  | separator (count : Nat) (long : 4 ≤ count) :
      Lexical .separator (List.replicate count '-')
  | primitive : Lexical .primitive primitiveText
  | stString (chars : List Char) (closed : quote ∉ chars) (oneLine : newline ∉ chars) :
      Lexical .stString chars

namespace Token

/-- A token of the source language of fewer than 256 characters. -/
def Printable (token : Token) : Prop :=
  Lexical token.sym token.text.toList ∧ token.text.toList.length < 256

def print (token : Token) : List Char :=
  if token.sym = .stString then quote :: (token.text.toList ++ [quote]) else token.text.toList

/-- The texts the lexer does not cut. -/
def ReadBack (token : Token) : Prop :=
  match token.sym with
  | .identifier => ¬ primitiveText <+: token.text.toList
  | .keyword => ¬ primitiveText <+: token.text.toList
  | .keywordSequence => ¬ primitiveText <+: token.text.toList ∧
      ∀ c ∈ token.text.toList.dropWhile isWord, c.isAlpha ∨ c = ':'
  | .stString => nul ∉ token.text.toList
  | _ => True

end Token

/-- Tokens separated by single spaces. -/
def printLine (line : List Token) : List Char := [' '].intercalate (line.map Token.print)

def printLines (lines : List (List Token)) : List Char :=
  lines.flatMap fun line => printLine line ++ [newline]

namespace Lexer

/-! ### Positions in the input -/

/-- The lexer stands before `this` on its line, and `more` is not read yet. -/
structure At (lexer : Lexer) (this more : List Char) : Prop where
  unpeeked : lexer.peekDone = false
  good : lexer.infile.good = true
  inside : lexer.bufp ≤ lexer.buf.length
  here : lexer.rest = this
  ahead : lexer.infile.content = more

theorem bc_of_cons {lexer : Lexer} {c : Char} {cs : List Char} (here : lexer.rest = c :: cs) :
    lexer.bc = .ok c := by
  have position : lexer.buf[lexer.bufp]? = some c := by
    have first := congrArg List.head? here
    rwa [rest, List.head?_drop, List.head?_cons] at first
  obtain ⟨inside, value⟩ := List.getElem?_eq_some_iff.mp position
  rw [bc, charAt, if_pos inside, List.getD_eq_getElem?_getD, position, Option.getD_some]

theorem eob_of_cons {lexer : Lexer} {c : Char} {cs : List Char} (here : lexer.rest = c :: cs) :
    lexer.eob = false := by
  have lengths := congrArg List.length here
  rw [rest, List.length_drop, List.length_cons] at lengths
  simp only [eob, decide_eq_false_iff_not]
  omega

theorem eob_of_nil {lexer : Lexer} (here : lexer.rest = []) : lexer.eob = true := by
  simpa [rest, eob] using here

theorem bc_of_nil {lexer : Lexer} (inside : lexer.bufp ≤ lexer.buf.length)
    (here : lexer.rest = []) : lexer.bc = .ok nul := by
  have atEnd : lexer.buf.length ≤ lexer.bufp := by simpa [rest] using here
  rw [bc, charAt, if_neg (by omega), if_pos (by omega)]

theorem At.step {lexer : Lexer} {c d : Char} {cs more : List Char}
    (position : lexer.At (c :: d :: cs) more) : lexer.advance.At (d :: cs) more := by
  have there : lexer.buf.drop (lexer.bufp + 1) = d :: cs := by
    have tails := congrArg List.tail position.here
    rwa [rest, List.tail_drop, List.tail_cons] at tails
  have moved : lexer.advance = { lexer with bufp := lexer.bufp + 1 } := by
    have ahead : ({ lexer with bufp := lexer.bufp + 1 } : Lexer).rest = d :: cs := there
    have notEnd := eob_of_cons ahead
    simp only [advance, notEnd, Bool.false_eq_true, if_false]
  rw [moved]
  have lengths := congrArg List.length there
  rw [List.length_drop, List.length_cons] at lengths
  exact ⟨position.unpeeked, position.good, by simp only; omega, there, position.ahead⟩

/-- Using up the characters of a token. -/
theorem At.recognise {lexer : Lexer} {used tail more : List Char}
    (position : lexer.At (used ++ tail) more) (sym : Symbol) (symc : Char) (chars : List Char)
    (fits : chars.length < bufsiz) :
    ∃ after, lexer.recognise sym symc chars used.length = .ok after ∧ after.sym = sym ∧
      after.getText = cString chars ∧ after.At tail more := by
  have there : lexer.buf.drop (lexer.bufp + used.length) = tail := by
    rw [← List.drop_drop]
    have drops := congrArg (List.drop used.length) position.here
    rwa [rest, List.drop_left] at drops
  have lengths := congrArg List.length position.here
  rw [rest, List.length_drop, List.length_append] at lengths
  refine ⟨_, if_pos fits, rfl, cString_terminated _ _, position.unpeeked, position.good, ?_, there,
    position.ahead⟩
  have inside := position.inside
  simp only
  omega

/-! ### Skipping -/

theorem skipWhiteSpace_of_space {lexer : Lexer} {c : Char} (reads : lexer.bc = .ok c)
    (space : isspace c = true) : lexer.skipWhiteSpace = lexer.advance.skipWhiteSpace := by
  rw [skipWhiteSpace]
  split
  · simp_all
  · next d alsoReads =>
      rw [reads] at alsoReads
      cases alsoReads
      rw [dif_pos space]

theorem skipWhiteSpace_of_other {lexer : Lexer} {c : Char} (reads : lexer.bc = .ok c)
    (noSpace : isspace c = false) : lexer.skipWhiteSpace = .ok lexer := by
  rw [skipWhiteSpace]
  split
  · simp_all
  · next d alsoReads =>
      rw [reads] at alsoReads
      cases alsoReads
      rw [dif_neg (by simp [noSpace])]

theorem skipComment_of_other {lexer : Lexer} {c : Char} (reads : lexer.bc = .ok c)
    (noQuote : c ≠ doubleQuote) : lexer.skipComment = .ok lexer := by
  simp only [skipComment, reads, bind, Except.bind, if_neg noQuote, pure, Except.pure]

theorem skip_eq {lexer spaced after : Lexer} (again : Bool)
    (spaces : (if lexer.eob then lexer.fillBuffer else lexer).skipWhiteSpace = .ok spaced)
    (comments : spaced.skipComment = .ok after) (condition : after.skipsOn = .ok again) :
    lexer.skip = if again then after.skip else .ok after := by
  rw [skip]
  split
  · simp_all
  · next spaced' alsoSpaces =>
      rw [spaces] at alsoSpaces
      cases alsoSpaces
      split
      · simp_all
      · next after' alsoComments =>
          rw [comments] at alsoComments
          cases alsoComments
          split <;> simp_all

/-- A character that begins a token. -/
def startsToken (c : Char) : Bool := !isspace c && c != doubleQuote

theorem skipsOn_of_token {lexer : Lexer} {c : Char} {cs : List Char}
    (here : lexer.rest = c :: cs) (starts : startsToken c = true) :
    lexer.skipsOn = .ok false := by
  simp only [startsToken, Bool.and_eq_true, Bool.not_eq_true', bne_iff_ne] at starts
  simp [skipsOn, eob_of_cons here, bc_of_cons here, bind, Except.bind, pure, Except.pure,
    starts.1, starts.2]

theorem skip_space {lexer : Lexer} {c : Char} {cs more : List Char}
    (position : lexer.At (' ' :: c :: cs) more) (starts : startsToken c = true) :
    ∃ after, lexer.skip = .ok after ∧ after.At (c :: cs) more := by
  have parts := starts
  simp only [startsToken, Bool.and_eq_true, Bool.not_eq_true', bne_iff_ne] at parts
  have moved := position.step
  have reads := bc_of_cons moved.here
  refine ⟨lexer.advance, ?_, moved⟩
  refine skip_eq false ?_ (skipComment_of_other reads parts.2)
    (skipsOn_of_token moved.here starts)
  rw [if_neg (by simp [eob_of_cons position.here]),
    skipWhiteSpace_of_space (bc_of_cons position.here) rfl]
  exact skipWhiteSpace_of_other reads parts.1

theorem At.fillBuffer {lexer : Lexer} {line more : List Char}
    (position : lexer.At [] (line ++ newline :: more)) (oneLine : newline ∉ line) :
    lexer.fillBuffer.At line more := by
  have other := all_ne_of_notMem oneLine
  have split : lexer.infile.getline = (line, ⟨more, true⟩) := by
    rw [InputStream.getline, position.ahead, List.dropWhile_append_of_pos other,
      List.takeWhile_append_of_pos other]
    simp
  simp only [Lexer.fillBuffer, position.good, if_true, split]
  exact ⟨position.unpeeked, rfl, Nat.zero_le _, rfl, rfl⟩

theorem skip_line {lexer : Lexer} {c : Char} {cs more : List Char}
    (position : lexer.At [] (c :: cs ++ newline :: more)) (oneLine : newline ∉ c :: cs)
    (starts : startsToken c = true) :
    ∃ after, lexer.skip = .ok after ∧ after.At (c :: cs) more := by
  have parts := starts
  simp only [startsToken, Bool.and_eq_true, Bool.not_eq_true', bne_iff_ne] at parts
  have filled := position.fillBuffer oneLine
  have reads := bc_of_cons filled.here
  refine ⟨lexer.fillBuffer, ?_, filled⟩
  refine skip_eq false ?_ (skipComment_of_other reads parts.2)
    (skipsOn_of_token filled.here starts)
  rw [if_pos (eob_of_nil position.here)]
  exact skipWhiteSpace_of_other reads parts.1

/-- At the end of a line the loop stands before a NUL, which it does not skip. -/
theorem skip_eq_of_nil {lexer : Lexer} (atEnd : lexer.eob = true)
    (inside : lexer.fillBuffer.bufp ≤ lexer.fillBuffer.buf.length)
    (here : lexer.fillBuffer.rest = []) :
    lexer.skip = if lexer.fillBuffer.infile.good then lexer.fillBuffer.skip
      else .ok lexer.fillBuffer := by
  have reads := bc_of_nil inside here
  refine skip_eq _ ?_ (skipComment_of_other reads (by decide)) ?_
  · rw [if_pos atEnd]
    exact skipWhiteSpace_of_other reads rfl
  · rw [skipsOn, if_pos (eob_of_nil here)]

theorem skip_blank {lexer : Lexer} {more : List Char}
    (position : lexer.At [] (newline :: more)) :
    lexer.skip = lexer.fillBuffer.skip ∧ lexer.fillBuffer.At [] more := by
  have emptyLine : lexer.At [] ([] ++ newline :: more) := position
  have filled := emptyLine.fillBuffer (by simp)
  refine ⟨?_, filled⟩
  rw [skip_eq_of_nil (eob_of_nil position.here) filled.inside filled.here, if_pos filled.good]

/-! ### Calls of the lexer -/

theorem getSym_eq {lexer spaced after : Lexer} (unpeeked : lexer.peekDone = false)
    (skipped : lexer.skip = .ok spaced) (scanned : spaced.scanToken = .ok after) :
    lexer.getSym = .ok after := by
  unfold getSym
  rw [if_neg (by simp [unpeeked]), skipped]
  exact scanned

theorem getSyms_succ {lexer after : Lexer} (count : Nat) (called : lexer.getSym = .ok after) :
    lexer.getSyms (count + 1) = (after.getSyms count).map (after.token :: ·) := by
  simp only [getSyms, called, bind, Except.bind, pure, Except.pure]
  cases after.getSyms count <;> rfl

/-- The input is used up. -/
structure Ended (lexer : Lexer) : Prop where
  unpeeked : lexer.peekDone = false
  stopped : lexer.infile.good = false
  inside : lexer.bufp ≤ lexer.buf.length
  here : lexer.rest = []

theorem At.ended {lexer : Lexer} (position : lexer.At [] []) : lexer.fillBuffer.Ended := by
  have split : lexer.infile.getline = ([], ⟨[], false⟩) := by
    rw [InputStream.getline, position.ahead]
    rfl
  simp only [Lexer.fillBuffer, position.good, if_true, split]
  exact ⟨position.unpeeked, rfl, Nat.zero_le _, rfl⟩

theorem Ended.fillBuffer {lexer : Lexer} (ended : lexer.Ended) : lexer.fillBuffer = lexer := by
  rw [Lexer.fillBuffer, ended.stopped]
  rfl

theorem Ended.scanToken {lexer : Lexer} (ended : lexer.Ended) :
    ∃ after, lexer.scanToken = .ok after ∧ after.token = Token.endOfInput ∧ after.Ended := by
  have reads := bc_of_nil ended.inside ended.here
  refine ⟨{ lexer with
      sym := .none, symc := nul, text := [nul] ++ nul :: lexer.text.drop ([nul].length + 1) },
    ?_, ?_, ⟨ended.unpeeked, ended.stopped, ended.inside, ended.here⟩⟩
  · simp only [Lexer.scanToken, reads, bind, Except.bind, ended.here]
    rfl
  · simp only [token, getText, cString_terminated]
    rfl

theorem Ended.skip {lexer : Lexer} (ended : lexer.Ended) : lexer.skip = .ok lexer := by
  have same := ended.fillBuffer
  have stays := skip_eq_of_nil (eob_of_nil ended.here) (same.symm ▸ ended.inside)
    (same.symm ▸ ended.here)
  rw [same, ended.stopped] at stays
  exact stays

/-- After the input every further call returns `NONE`. -/
theorem Ended.getSyms {lexer : Lexer} (ended : lexer.Ended) (count : Nat) :
    lexer.getSyms count = .ok (List.replicate count Token.endOfInput) := by
  induction count generalizing lexer with
  | zero => rfl
  | succ count hypothesis =>
      obtain ⟨after, scanned, isEnd, stays⟩ := ended.scanToken
      rw [getSyms_succ count (getSym_eq ended.unpeeked ended.skip scanned), hypothesis stays, isEnd]
      rfl

theorem skip_end {lexer : Lexer} (position : lexer.At [] []) :
    ∃ after, lexer.skip = .ok after ∧ after.Ended := by
  have ended := position.ended
  refine ⟨lexer.fillBuffer, ?_, ended⟩
  rw [skip_eq_of_nil (eob_of_nil position.here) ended.inside ended.here, ended.stopped]
  rfl

/-! ### The characters around a token -/

/-- What may stand behind a printed token on its line. -/
def Follow (tail : List Char) : Prop := ∀ c ∈ tail.head?, c = ' '

theorem takeWhile_follow {accepts : Char → Bool} {word tail : List Char}
    (all : ∀ c ∈ word, accepts c = true) (follow : Follow tail) (noSpace : accepts ' ' = false) :
    (word ++ tail).takeWhile accepts = word := by
  rw [List.takeWhile_append_of_pos all]
  cases tail with
  | nil => simp
  | cons c cs =>
      have isSpace : c = ' ' := follow c rfl
      simp [isSpace, noSpace]

theorem dropWhile_follow {accepts : Char → Bool} {word tail : List Char}
    (all : ∀ c ∈ word, accepts c = true) (follow : Follow tail) (noSpace : accepts ' ' = false) :
    (word ++ tail).dropWhile accepts = tail := by
  rw [List.dropWhile_append_of_pos all]
  cases tail with
  | nil => rfl
  | cons c cs =>
      have isSpace : c = ' ' := follow c rfl
      simp [isSpace, noSpace]

theorem headD_follow (accepts : Char → Bool) {tail : List Char} (follow : Follow tail)
    (noSpace : accepts ' ' = false) (noNul : accepts nul = false) :
    accepts (tail.headD nul) = false := by
  cases tail with
  | nil => exact noNul
  | cons c cs =>
      have isSpace : c = ' ' := follow c rfl
      simpa [isSpace] using noSpace

/-- A word is a prefix of the line behind its token only if it is one of the token. -/
theorem prefix_follow {target word tail : List Char} (follow : Follow tail)
    (noSpace : ' ' ∉ target) : target <+: word ++ tail ↔ target <+: word := by
  induction word generalizing target with
  | nil =>
      cases target with
      | nil => simp
      | cons c cs =>
          simp only [List.nil_append, List.prefix_nil, reduceCtorEq, iff_false]
          rintro ⟨others, same⟩
          have isSpace : c = ' ' := follow c (by simp [← same])
          exact noSpace (by simp [isSpace])
  | cons d word hypothesis =>
      cases target with
      | nil => simp
      | cons c cs =>
          rw [List.cons_append, List.cons_prefix_cons, List.cons_prefix_cons,
            hypothesis (fun there => noSpace (List.mem_cons_of_mem c there))]

theorem isOp_cases {c : Char} (isOperator : isOp c = true) :
    c ≠ quote ∧ punctuation.lookup c = none ∧ c ≠ ':' ∧ c ≠ '-' ∧ startsToken c = true := by
  simp only [isOp, List.contains_eq_mem, List.mem_cons, List.not_mem_nil, or_false,
    decide_eq_true_eq] at isOperator
  rcases isOperator with rfl | rfl | rfl | rfl | rfl | rfl | rfl | rfl | rfl | rfl | rfl | rfl |
    rfl <;> decide

theorem isOp_of_lookup {c : Char} {sym : Symbol} (listed : operators.lookup c = some sym) :
    isOp c = true := by
  have all : ∀ entry ∈ operators, isOp entry.1 = true := by decide
  exact all _ (mem_of_lookup listed)

theorem punctuation_cases {c : Char} {sym : Symbol} (listed : punctuation.lookup c = some sym) :
    c ≠ quote ∧ startsToken c = true := by
  have all : ∀ entry ∈ punctuation, entry.1 ≠ quote ∧ startsToken entry.1 = true := by decide
  exact all _ (mem_of_lookup listed)

/-- The characters the cascade tests for one by one. -/
def specials : List Char :=
  [quote, doubleQuote, ':', '-'] ++ punctuation.map Prod.fst ++ operators.map Prod.fst

theorem large_of_isAlpha {c : Char} (alpha : c.isAlpha = true) : 65 ≤ c.toNat := by
  have ranges : (decide ('A'.val ≤ c.val ∧ c.val ≤ 'Z'.val) ||
      (decide ('a'.val ≤ c.val) && decide (c.val ≤ 'z'.val))) = true := alpha
  simp only [Bool.or_eq_true, Bool.and_eq_true, decide_eq_true_eq, UInt32.le_iff_toNat_le] at ranges
  have upper : 'A'.val.toNat = 65 := rfl
  have lower : 'a'.val.toNat = 97 := rfl
  unfold Char.toNat
  omega

theorem range_of_isDigit {c : Char} (digit : c.isDigit = true) : 48 ≤ c.toNat ∧ c.toNat ≤ 57 := by
  have range : (decide ('0'.val ≤ c.val) && decide (c.val ≤ '9'.val)) = true := digit
  simp only [Bool.and_eq_true, decide_eq_true_eq, UInt32.le_iff_toNat_le] at range
  have zero : '0'.val.toNat = 48 := rfl
  have nine : '9'.val.toNat = 57 := rfl
  unfold Char.toNat
  omega

theorem isspace_of_large {c : Char} (large : 33 ≤ c.toNat) : isspace c = false := by
  unfold isspace
  have notSpace : c ≠ ' ' := by
    rintro rfl
    exact absurd large (by decide)
  have above : ¬ c.toNat ≤ 13 := by omega
  simp [notSpace, above]

/-- The first character of a word or a number reaches the last cases of the cascade. -/
theorem plain_cases {accepts : Char → Bool} {c : Char} (is : accepts c = true)
    (large : 33 ≤ c.toNat) (other : specials.all (fun d => !accepts d) = true) :
    c ≠ quote ∧ punctuation.lookup c = none ∧ c ≠ ':' ∧ c ≠ '-' ∧ isOp c = false ∧
      startsToken c = true := by
  have differs : ∀ d ∈ specials, c ≠ d := by
    intro d special same
    have rejected := List.all_eq_true.mp other d special
    rw [← same, is] at rejected
    exact Bool.noConfusion rejected
  have operator : isOp c = false := by
    simp only [isOp, List.contains_eq_mem, decide_eq_false_iff_not]
    exact fun there => differs c (List.mem_append_right _ there) rfl
  refine ⟨differs quote (by decide), List.lookup_eq_none_iff.mpr ?_, differs ':' (by decide),
    differs '-' (by decide), operator, ?_⟩
  · intro entry listed
    have special : entry.1 ∈ specials :=
      List.mem_append_left _ (List.mem_append_right _ (List.mem_map_of_mem listed))
    simpa using differs entry.1 special
  · simp [startsToken, isspace_of_large large, differs doubleQuote (by decide)]

theorem alpha_cases {c : Char} (alpha : c.isAlpha = true) :
    c ≠ quote ∧ punctuation.lookup c = none ∧ c ≠ ':' ∧ c ≠ '-' ∧ isOp c = false ∧
      startsToken c = true :=
  plain_cases alpha (by have := large_of_isAlpha alpha; omega) rfl

theorem digit_cases {c : Char} (digit : c.isDigit = true) :
    c ≠ quote ∧ punctuation.lookup c = none ∧ c ≠ ':' ∧ c ≠ '-' ∧ isOp c = false ∧
      startsToken c = true :=
  plain_cases digit (by have := range_of_isDigit digit; omega) rfl

/-! ### Scanning one token -/

theorem scanToken_of_plain {lexer : Lexer} {c : Char} {cs : List Char}
    (here : lexer.rest = c :: cs) (plain : c ≠ quote ∧ punctuation.lookup c = none ∧ c ≠ ':' ∧
      c ≠ '-' ∧ isOp c = false ∧ startsToken c = true) :
    lexer.scanToken =
      if primitiveText.isPrefixOf lexer.rest then
        lexer.recognise .primitive nul primitiveText primitiveText.length
      else if c.isAlpha then lexer.scanWord
      else if c.isDigit then
        lexer.recognise .integer nul (lexer.rest.takeWhile Char.isDigit)
          (lexer.rest.takeWhile Char.isDigit).length
      else lexer.recognise .none c [c] 0 := by
  obtain ⟨noQuote, noPunctuation, noColon, noDash, noOp, _⟩ := plain
  simp only [scanToken, bc_of_cons here, bind, Except.bind, if_neg noQuote, noPunctuation,
    if_neg noColon, if_neg noDash, noOp, Bool.false_eq_true, if_false]

/-- The outcome of a call that leaves the lexer behind the printed token. -/
def Reads (lexer : Lexer) (sym : Symbol) (text tail more : List Char) : Prop :=
  ∃ after, lexer.scanToken = .ok after ∧ after.sym = sym ∧ after.getText = cString text ∧
    after.At tail more

theorem At.reads {lexer : Lexer} {used tail more : List Char}
    (position : lexer.At (used ++ tail) more) {sym : Symbol} (symc : Char) {chars : List Char}
    (width : Nat) (fits : chars.length < bufsiz) (whole : width = used.length)
    (scans : lexer.scanToken = lexer.recognise sym symc chars width) :
    lexer.Reads sym chars tail more := by
  obtain ⟨after, recognised, sameSym, sameText, there⟩ := position.recognise sym symc chars fits
  exact ⟨after, by rw [scans, whole, recognised], sameSym, sameText, there⟩

theorem reads_punctuation {lexer : Lexer} {c : Char} {sym : Symbol} {tail more : List Char}
    (position : lexer.At ([c] ++ tail) more) (listed : punctuation.lookup c = some sym) :
    lexer.Reads sym [c] tail more := by
  apply position.reads _ 1 (by simp [bufsiz]) rfl
  simp only [scanToken, bc_of_cons position.here, bind, Except.bind,
    if_neg (punctuation_cases listed).1, listed]
  rfl

theorem reads_operator {lexer : Lexer} {c : Char} {sym : Symbol} {tail more : List Char}
    (position : lexer.At ([c] ++ tail) more) (listed : operators.lookup c = some sym)
    (follow : Follow tail) : lexer.Reads sym [c] tail more := by
  obtain ⟨noQuote, noPunctuation, noColon, noDash, _⟩ := isOp_cases (isOp_of_lookup listed)
  apply position.reads _ 1 (by simp [bufsiz]) rfl
  simp only [scanToken, bc_of_cons position.here, bind, Except.bind, if_neg noQuote,
    noPunctuation, if_neg noColon, if_neg noDash, isOp_of_lookup listed, if_true, position.here,
    List.singleton_append, List.tail_cons, headD_follow isOp follow rfl rfl, listed]
  rfl

theorem reads_operatorSequence {lexer : Lexer} {chars tail more : List Char}
    (position : lexer.At (chars ++ tail) more) (several : 2 ≤ chars.length)
    (areOps : ∀ c ∈ chars, isOp c = true) (short : chars.length < 256) (follow : Follow tail) :
    lexer.Reads .operatorSequence chars tail more := by
  apply position.reads nul _ (Nat.lt_trans short (by decide)) rfl
  match chars, several, areOps with
  | first :: second :: others, _, areOps =>
      obtain ⟨noQuote, noPunctuation, noColon, noDash, _⟩ := isOp_cases (areOps first (by simp))
      have taken := takeWhile_follow areOps follow rfl
      rw [scanToken, bc_of_cons position.here]
      simp only [bind, Except.bind, if_neg noQuote, noPunctuation, if_neg noColon, if_neg noDash,
        areOps first (by simp), if_true, position.here, taken]
      simp only [List.cons_append, List.tail_cons, List.headD_cons, areOps second (by simp),
        if_true]

theorem reads_colon {lexer : Lexer} {tail more : List Char}
    (position : lexer.At ([':'] ++ tail) more) (follow : Follow tail) :
    lexer.Reads .colon [':'] tail more := by
  apply position.reads _ 1 (by simp [bufsiz]) rfl
  have noAssign : tail.headD nul ≠ '=' := by
    have other := headD_follow (· == '=') follow rfl rfl
    simpa using other
  simp only [scanToken, bc_of_cons position.here, bind, Except.bind, position.here,
    List.singleton_append, List.tail_cons, if_neg noAssign]
  rfl

theorem reads_assign {lexer : Lexer} {tail more : List Char}
    (position : lexer.At ([':', '='] ++ tail) more) : lexer.Reads .assign [':', '='] tail more := by
  apply position.reads _ 2 (by simp [bufsiz]) rfl
  simp only [scanToken, bc_of_cons position.here, bind, Except.bind, position.here]
  rfl

theorem reads_minus {lexer : Lexer} {tail more : List Char}
    (position : lexer.At (['-'] ++ tail) more) (follow : Follow tail) :
    lexer.Reads .minus ['-'] tail more := by
  apply position.reads _ 1 (by simp [bufsiz]) rfl
  have noSeparator : separatorText.isPrefixOf (['-'] ++ tail) = false := by
    rw [← Bool.not_eq_true, List.isPrefixOf_iff_prefix, prefix_follow follow (by decide)]
    decide
  simp only [scanToken, bc_of_cons position.here, bind, Except.bind, position.here, noSeparator]
  rfl

theorem reads_separator {lexer : Lexer} {count : Nat} {tail more : List Char}
    (position : lexer.At (List.replicate count '-' ++ tail) more) (long : 4 ≤ count)
    (short : count < 256) (follow : Follow tail) :
    lexer.Reads .separator (List.replicate count '-') tail more := by
  apply position.reads _ _ (by simpa using Nat.lt_trans short (by decide)) rfl
  have first : lexer.bc = .ok '-' := by
    obtain ⟨count, rfl⟩ : ∃ others, count = others + 1 := ⟨count - 1, by omega⟩
    exact bc_of_cons position.here
  have isSeparator : separatorText.isPrefixOf (List.replicate count '-' ++ tail) = true := by
    rw [List.isPrefixOf_iff_prefix, prefix_follow follow (by decide)]
    refine ⟨List.replicate (count - 4) '-', ?_⟩
    have four : separatorText = List.replicate 4 '-' := rfl
    rw [four, List.replicate_append_replicate]
    congr 1
    omega
  have taken : (List.replicate count '-' ++ tail).takeWhile (· = '-') = List.replicate count '-' :=
    takeWhile_follow (by simp) follow rfl
  simp only [scanToken, first, bind, Except.bind, position.here, isSeparator, taken]
  rfl

theorem reads_integer {lexer : Lexer} {digits tail more : List Char}
    (position : lexer.At (digits ++ tail) more) (some : digits ≠ [])
    (areDigits : ∀ c ∈ digits, c.isDigit = true) (short : digits.length < 256)
    (follow : Follow tail) : lexer.Reads .integer digits tail more := by
  apply position.reads nul _ (Nat.lt_trans short (by decide)) rfl
  cases digits with
  | nil => exact absurd rfl some
  | cons c others =>
      have digit := areDigits c (by simp)
      have noLetter : c.isAlpha = false := by
        by_contra alpha
        have letter := large_of_isAlpha (by simpa using alpha)
        have number := range_of_isDigit digit
        omega
      have noPrimitive : primitiveText.isPrefixOf (c :: others ++ tail) = false := by
        have other : 'p' ≠ c := by
          rintro rfl
          exact absurd digit (by decide)
        simp [primitiveText, List.isPrefixOf, other]
      rw [scanToken_of_plain position.here (digit_cases digit), position.here, noPrimitive,
        noLetter, digit, takeWhile_follow areDigits follow rfl]
      rfl

theorem reads_primitive {lexer : Lexer} {tail more : List Char}
    (position : lexer.At (primitiveText ++ tail) more) :
    lexer.Reads .primitive primitiveText tail more := by
  apply position.reads nul _ (by decide) rfl
  have isPrefix : primitiveText.isPrefixOf (primitiveText ++ tail) = true := by
    simp [List.isPrefixOf_iff_prefix]
  rw [scanToken_of_plain position.here (alpha_cases (by decide)), position.here, isPrefix]
  rfl

theorem reads_string {lexer : Lexer} {chars tail more : List Char}
    (position : lexer.At (quote :: (chars ++ [quote]) ++ tail) more) (closed : quote ∉ chars)
    (short : chars.length < 256) : lexer.Reads .stString chars tail more := by
  apply position.reads nul (chars.length + 2) (Nat.lt_trans short (by decide))
    (by simp)
  have other := all_ne_of_notMem closed
  have contents : (lexer.rest.tail).takeWhile (· ≠ quote) = chars := by
    rw [position.here, List.cons_append, List.tail_cons, List.append_assoc,
      List.takeWhile_append_of_pos other]
    simp
  have inside : chars.length < lexer.rest.tail.length := by
    rw [position.here]
    simp
  have string : lexer.scanString = lexer.recognise .stString nul chars (chars.length + 2) := by
    unfold scanString
    rw [contents]
    exact if_pos inside
  rw [← string]
  simp only [scanToken, bc_of_cons position.here, bind, Except.bind, if_true]

/-- The word test comes first, so it cuts every longer word. -/
theorem reads_cut_word {lexer : Lexer} {word tail more : List Char}
    (position : lexer.At (word ++ tail) more) (cut : primitiveText <+: word) :
    ∃ after, lexer.scanToken = .ok after ∧ after.sym = .primitive := by
  obtain ⟨others, rfl⟩ := cut
  have longer : lexer.At (primitiveText ++ (others ++ tail)) more := by
    rw [← List.append_assoc]
    exact position
  obtain ⟨after, scanned, isPrimitive, _⟩ := reads_primitive longer
  exact ⟨after, scanned, isPrimitive⟩

theorem isWord_of_isAlpha {c : Char} (alpha : c.isAlpha = true) : isWord c = true := by
  simp [isWord, alpha]

theorem all_isWord {word : List Char} (identifier : isIdentifier word = true) :
    ∀ c ∈ word, isWord c = true := by
  cases word with
  | nil => simp
  | cons first others =>
      simp only [isIdentifier, Bool.and_eq_true, List.all_eq_true] at identifier
      simpa using ⟨isWord_of_isAlpha identifier.1, identifier.2⟩

theorem scanToken_of_word {lexer : Lexer} {word behind : List Char}
    (here : lexer.rest = word ++ behind) (identifier : isIdentifier word = true)
    (whole : ¬ primitiveText <+: word ++ behind) : lexer.scanToken = lexer.scanWord := by
  cases word with
  | nil => exact Bool.noConfusion identifier
  | cons first others =>
      simp only [isIdentifier, Bool.and_eq_true] at identifier
      rw [scanToken_of_plain here (alpha_cases identifier.1), here,
        if_neg (by simpa [List.isPrefixOf_iff_prefix] using whole), if_pos identifier.1]

theorem reads_identifier {lexer : Lexer} {word tail more : List Char}
    (position : lexer.At (word ++ tail) more) (identifier : isIdentifier word = true)
    (whole : ¬ primitiveText <+: word) (short : word.length < 256) (follow : Follow tail) :
    lexer.Reads .identifier word tail more := by
  apply position.reads nul _ (Nat.lt_trans short (by decide)) rfl
  rw [scanToken_of_word position.here identifier
    (by rwa [prefix_follow follow (by decide)])]
  unfold scanWord
  simp only [position.here, takeWhile_follow (all_isWord identifier) follow rfl,
    dropWhile_follow (all_isWord identifier) follow rfl]
  split
  · next others =>
      have isSpace : ':' = ' ' := follow ':' rfl
      exact absurd isSpace (by decide)
  · rfl

theorem takeWhile_word {word behind : List Char} (identifier : isIdentifier word = true) :
    (word ++ ':' :: behind).takeWhile isWord = word := by
  rw [List.takeWhile_append_of_pos (all_isWord identifier)]
  simp [isWord]

theorem dropWhile_word {word behind : List Char} (identifier : isIdentifier word = true) :
    (word ++ ':' :: behind).dropWhile isWord = ':' :: behind := by
  rw [List.dropWhile_append_of_pos (all_isWord identifier)]
  simp [isWord]

theorem reads_keyword {lexer : Lexer} {word tail more : List Char}
    (position : lexer.At (word ++ [':'] ++ tail) more) (identifier : isIdentifier word = true)
    (whole : ¬ primitiveText <+: word ++ [':']) (short : (word ++ [':']).length < 256)
    (follow : Follow tail) : lexer.Reads .keyword (word ++ [':']) tail more := by
  apply position.reads nul (word.length + 1) (Nat.lt_trans short (by decide))
    (by simp)
  have here : lexer.rest = word ++ ':' :: tail := by
    rw [position.here]
    simp
  have whole' : ¬ primitiveText <+: word ++ ':' :: tail := by
    have same : word ++ ':' :: tail = (word ++ [':']) ++ tail := by simp
    rwa [same, prefix_follow follow (by decide)]
  rw [scanToken_of_word here identifier whole']
  unfold scanWord
  simp only [here, takeWhile_word identifier, dropWhile_word identifier,
    headD_follow Char.isAlpha follow rfl rfl]
  rfl

/-- The characters the loop for the later keywords of a sequence accepts. -/
def continues (c : Char) : Bool := c.isAlpha || c == ':'

theorem scanToken_of_keywords {lexer : Lexer} {word behind : List Char}
    (here : lexer.rest = word ++ ':' :: behind) (identifier : isIdentifier word = true)
    (whole : ¬ primitiveText <+: word ++ ':' :: behind)
    (several : (behind.headD nul).isAlpha = true) :
    lexer.scanToken = lexer.recognise .keywordSequence nul
      (word ++ ':' :: behind.takeWhile continues)
      (word.length + 1 + (behind.takeWhile continues).length) := by
  rw [scanToken_of_word here identifier whole]
  unfold scanWord
  simp only [here, takeWhile_word identifier, dropWhile_word identifier, several, if_true]
  rfl

/-- A sequence is cut before the first digit or underscore behind its first colon. -/
theorem reads_keywordSequence {lexer : Lexer} {word others tail more : List Char}
    (position : lexer.At (word ++ ':' :: others ++ tail) more)
    (identifier : isIdentifier word = true) (several : (others.headD nul).isAlpha = true)
    (whole : ¬ primitiveText <+: word ++ ':' :: others)
    (short : (word ++ ':' :: others).length < 256) (follow : Follow tail) :
    lexer.Reads .keywordSequence (word ++ ':' :: others.takeWhile continues)
      (others.dropWhile continues ++ tail) more := by
  have cut : (others ++ tail).takeWhile continues = others.takeWhile continues := by
    by_cases all : ∀ c ∈ others, continues c = true
    · rw [takeWhile_follow all follow rfl, List.takeWhile_eq_self_iff.mpr all]
    · rw [List.takeWhile_append, if_neg]
      intro complete
      have same := (List.takeWhile_prefix continues).eq_of_length complete
      exact all (List.takeWhile_eq_self_iff.mp same)
  have here : lexer.rest = word ++ ':' :: (others ++ tail) := by
    rw [position.here]
    simp
  have whole' : ¬ primitiveText <+: word ++ ':' :: (others ++ tail) := by
    have same : word ++ ':' :: (others ++ tail) = word ++ ':' :: others ++ tail := by simp
    rwa [same, prefix_follow follow (by decide)]
  have first : ((others ++ tail).headD nul).isAlpha = true := by
    cases others with
    | nil => exact absurd several (by decide)
    | cons c cs => exact several
  have scans := scanToken_of_keywords here identifier whole' first
  rw [cut] at scans
  have shorter : (others.takeWhile continues).length ≤ others.length :=
    (List.takeWhile_prefix continues).length_le
  have used : lexer.At (word ++ ':' :: others.takeWhile continues ++
      (others.dropWhile continues ++ tail)) more := by
    have same : word ++ ':' :: others.takeWhile continues ++
        (others.dropWhile continues ++ tail) = word ++ ':' :: others ++ tail := by
      conv_rhs => rw [← List.takeWhile_append_dropWhile (p := continues) (l := others)]
      simp only [List.append_assoc, List.cons_append]
    rwa [same]
  refine used.reads nul _ ?_ ?_ scans
  · simp only [List.length_append, List.length_cons] at short ⊢
    unfold bufsiz
    omega
  · simp only [List.length_append, List.length_cons]
    omega

end Lexer

open Lexer

/-! ### The characters of printed tokens -/

/-- No white space, no NUL and no double quote. -/
def visible (c : Char) : Bool := 33 ≤ c.toNat && c.toNat != 34

theorem visible_iff {c : Char} : visible c = true ↔ 33 ≤ c.toNat ∧ c.toNat ≠ 34 := by
  simp [visible]

theorem Lexical.visible {sym : Symbol} {text : List Char} (lexical : Lexical sym text)
    (noString : sym ≠ .stString) : ∀ c ∈ text, Compiler.visible c = true := by
  have wordChar : ∀ c, isWord c = true → Compiler.visible c = true := by
    intro c isWordChar
    simp only [isWord, Bool.or_eq_true, beq_iff_eq] at isWordChar
    rcases isWordChar with (alpha | digit) | rfl
    · have large := large_of_isAlpha alpha
      exact visible_iff.mpr ⟨by omega, by omega⟩
    · have range := range_of_isDigit digit
      exact visible_iff.mpr ⟨by omega, by omega⟩
    · decide
  have opChar : ∀ c, isOp c = true → Compiler.visible c = true := by
    intro c operator
    simp only [isOp, List.contains_eq_mem, List.mem_cons, List.not_mem_nil, or_false,
      decide_eq_true_eq] at operator
    rcases operator with rfl | rfl | rfl | rfl | rfl | rfl | rfl | rfl | rfl | rfl | rfl | rfl |
      rfl <;> decide
  cases lexical with
  | identifier _ identifier other => exact fun c there => wordChar c (all_isWord identifier c there)
  | keyword word identifier other =>
      intro c there
      rcases List.mem_append.mp there with inWord | colon
      · exact wordChar c (all_isWord identifier c inWord)
      · rw [List.mem_singleton.mp colon]
        decide
  | keywordSequence words several areWords =>
      intro c there
      obtain ⟨word, listed, inside⟩ := List.mem_flatMap.mp there
      rcases List.mem_append.mp inside with inWord | colon
      · exact wordChar c (all_isWord (areWords word listed).1 c inWord)
      · rw [List.mem_singleton.mp colon]
        decide
  | integer _ some areDigits =>
      intro c there
      have range := range_of_isDigit (areDigits c there)
      exact visible_iff.mpr ⟨by omega, by omega⟩
  | operator c sym listed =>
      intro d there
      rw [List.mem_singleton.mp there]
      exact opChar c (isOp_of_lookup listed)
  | minus => exact List.all_eq_true.mp rfl
  | operatorSequence _ several areOps => exact fun c there => opChar c (areOps c there)
  | punctuation c sym listed =>
      intro d there
      have all : ∀ entry ∈ Lexer.punctuation, Compiler.visible entry.1 = true := by decide
      rw [List.mem_singleton.mp there]
      exact all _ (mem_of_lookup listed)
  | colon => exact List.all_eq_true.mp rfl
  | assign => exact List.all_eq_true.mp rfl
  | separator count long =>
      intro c there
      rw [List.eq_of_mem_replicate there]
      decide
  | primitive => exact List.all_eq_true.mp rfl
  | stString _ closed oneLine => exact absurd rfl noString

theorem startsToken_of_visible {c : Char} (isVisible : visible c = true) :
    startsToken c = true := by
  obtain ⟨large, other⟩ := visible_iff.mp isVisible
  have noQuote : c ≠ doubleQuote := by
    rintro rfl
    exact other rfl
  simp [startsToken, isspace_of_large large, noQuote]

theorem cString_eq_self {text : List Char} (noNul : nul ∉ text) : cString text = text :=
  List.takeWhile_eq_self_iff.mpr (all_ne_of_notMem noNul)

theorem Lexical.noNul {sym : Symbol} {text : List Char} (lexical : Lexical sym text)
    (noString : sym ≠ .stString) : nul ∉ text := by
  intro there
  exact absurd (lexical.visible noString nul there) (by decide)

theorem isIdentifier_ne_nil {word : List Char} (identifier : isIdentifier word = true) :
    word ≠ [] := by
  rintro rfl
  exact Bool.noConfusion identifier

theorem Lexical.nonempty {sym : Symbol} {text : List Char} (lexical : Lexical sym text)
    (noString : sym ≠ .stString) : text ≠ [] := by
  cases lexical with
  | identifier _ identifier other => exact isIdentifier_ne_nil identifier
  | keyword word identifier other => simp
  | keywordSequence words several areWords =>
      cases words with
      | nil => exact absurd several (by decide)
      | cons word others => simp
  | integer _ some areDigits => exact some
  | operatorSequence _ several areOps =>
      rintro rfl
      exact absurd several (by decide)
  | separator count long =>
      cases count with
      | zero => exact absurd long (by decide)
      | succ count => simp [List.replicate_succ]
  | primitive => decide
  | stString _ closed oneLine => exact absurd rfl noString
  | operator | minus | punctuation | colon | assign => simp

/-- A printed token begins with a character that nothing skips. -/
theorem print_starts {token : Token} (printable : token.Printable) :
    ∃ c cs, token.print = c :: cs ∧ startsToken c = true := by
  unfold Token.print
  by_cases isString : token.sym = .stString
  · rw [if_pos isString]
    exact ⟨quote, _, rfl, by decide⟩
  · rw [if_neg isString]
    cases text : token.text.toList with
    | nil => exact absurd text (printable.1.nonempty isString)
    | cons c cs =>
        have isVisible := printable.1.visible isString c (by simp [text])
        exact ⟨c, cs, rfl, startsToken_of_visible isVisible⟩

theorem Lexical.of_string {text : List Char} (lexical : Lexical .stString text) :
    quote ∉ text ∧ newline ∉ text := by
  generalize isString : Symbol.stString = sym at lexical
  cases lexical with
  | stString _ closed oneLine => exact ⟨closed, oneLine⟩
  | operator c sym listed =>
      have listed' := mem_of_lookup listed
      rw [← isString] at listed'
      exact absurd listed' (by simp [Lexer.operators])
  | punctuation c sym listed =>
      have listed' := mem_of_lookup listed
      rw [← isString] at listed'
      exact absurd listed' (by simp [Lexer.punctuation])
  | _ => exact Symbol.noConfusion isString

theorem newline_not_mem_print {token : Token} (printable : token.Printable) :
    newline ∉ token.print := by
  unfold Token.print
  by_cases isString : token.sym = .stString
  · rw [if_pos isString]
    obtain ⟨lexical, _⟩ := printable
    rw [isString] at lexical
    have other : newline ≠ quote := by decide
    simp [other, lexical.of_string.2]
  · rw [if_neg isString]
    intro there
    exact absurd (printable.1.visible isString newline there) (by decide)

/-! ### One printed token read back -/

/-- Where the lexer stands and what it meets for one printed token. -/
structure Lexer.Facing (lexer : Lexer) (token : Token) (tail more : List Char) : Prop where
  printable : token.Printable
  position : lexer.At (token.print ++ tail) more
  follow : Follow tail

theorem print_eq_text {token : Token} (noString : token.sym ≠ .stString) :
    token.print = token.text.toList := if_neg noString

theorem token_eq {lexer : Lexer} {token : Token} (sameSym : lexer.sym = token.sym)
    (sameText : lexer.getText = token.text.toList) : lexer.token = token := by
  simp only [Lexer.token, sameSym, sameText, String.ofList_toList]

theorem Lexer.Reads.token {lexer : Lexer} {token : Token} {tail more : List Char}
    (reads : lexer.Reads token.sym token.text.toList tail more)
    (noNul : nul ∉ token.text.toList) :
    ∃ after, lexer.scanToken = .ok after ∧ after.token = token ∧ after.At tail more := by
  obtain ⟨after, scanned, sameSym, sameText, there⟩ := reads
  rw [cString_eq_self noNul] at sameText
  exact ⟨after, scanned, token_eq sameSym sameText, there⟩

theorem keywordSequence_cases {words : List (List Char)} (several : 2 ≤ words.length)
    (areWords : ∀ word ∈ words, isIdentifier word = true ∧ word ≠ primitiveText) :
    ∃ word others, words.flatMap (· ++ [':']) = word ++ ':' :: others ∧
      isIdentifier word = true ∧ (others.headD nul).isAlpha = true := by
  match words, several, areWords with
  | first :: second :: words, _, areWords =>
      have secondWord := (areWords second (by simp)).1
      refine ⟨first, second ++ ':' :: words.flatMap (· ++ [':']), by simp,
        (areWords first (by simp)).1, ?_⟩
      cases second with
      | nil => exact Bool.noConfusion secondWord
      | cons c cs =>
          simp only [isIdentifier, Bool.and_eq_true] at secondWord
          exact secondWord.1

theorem continues_iff {c : Char} : continues c = true ↔ c.isAlpha = true ∨ c = ':' := by
  simp [continues]

theorem Lexical.reads {lexer : Lexer} {sym : Symbol} {text tail more : List Char}
    (lexical : Lexical sym text) (short : text.length < 256) (noString : sym ≠ .stString)
    (readBack : Token.ReadBack ⟨sym, String.ofList text⟩) (position : lexer.At (text ++ tail) more)
    (follow : Follow tail) : lexer.Reads sym text tail more := by
  simp only [Token.ReadBack, String.toList_ofList] at readBack
  cases lexical with
  | identifier _ identifier other =>
      exact reads_identifier position identifier readBack short follow
  | keyword word identifier other => exact reads_keyword position identifier readBack short follow
  | keywordSequence words several areWords =>
      obtain ⟨word, others, text, identifier, first⟩ := keywordSequence_cases several areWords
      rw [text] at short readBack position ⊢
      obtain ⟨whole, letters⟩ := readBack
      rw [dropWhile_word identifier] at letters
      have all : ∀ c ∈ others, continues c = true := fun c there =>
        continues_iff.mpr (letters c (List.mem_cons_of_mem _ there))
      have reads := reads_keywordSequence position identifier first whole short follow
      rwa [List.takeWhile_eq_self_iff.mpr all, List.dropWhile_eq_nil_iff.mpr all] at reads
  | integer _ some areDigits => exact reads_integer position some areDigits short follow
  | operator c sym listed => exact reads_operator position listed follow
  | minus => exact reads_minus position follow
  | operatorSequence _ several areOps =>
      exact reads_operatorSequence position several areOps short follow
  | punctuation c sym listed => exact reads_punctuation position listed
  | colon => exact reads_colon position follow
  | assign => exact reads_assign position
  | separator count long =>
      exact reads_separator position long (by simpa using short) follow
  | primitive => exact reads_primitive position
  | stString _ closed oneLine => exact absurd rfl noString

theorem cut_sequence {lexer : Lexer} {text tail more : List Char}
    (lexical : Lexical .keywordSequence text) (short : text.length < 256)
    (whole : ¬ primitiveText <+: text)
    (cut : ¬ ∀ c ∈ text.dropWhile isWord, c.isAlpha = true ∨ c = ':')
    (position : lexer.At (text ++ tail) more) (follow : Follow tail) :
    ∃ after, lexer.scanToken = .ok after ∧ after.getText ≠ text := by
  have noNul := lexical.noNul (by decide)
  generalize isSequence : Symbol.keywordSequence = sym at lexical
  cases lexical with
  | keywordSequence words several areWords =>
      obtain ⟨word, others, split, identifier, first⟩ := keywordSequence_cases several areWords
      rw [split] at short whole cut position noNul ⊢
      obtain ⟨after, scanned, _, sameText, _⟩ :=
        reads_keywordSequence position identifier first whole short follow
      refine ⟨after, scanned, ?_⟩
      have shorter : nul ∉ word ++ ':' :: others.takeWhile continues := by
        intro there
        refine noNul ?_
        simp only [List.mem_append, List.mem_cons] at there ⊢
        exact there.imp_right (Or.imp_right fun inside =>
          (List.takeWhile_prefix continues).subset inside)
      rw [sameText, cString_eq_self shorter]
      intro same
      have parts := (List.cons.inj (List.append_cancel_left same)).2
      refine cut fun c there => ?_
      rw [dropWhile_word identifier, List.mem_cons] at there
      rcases there with colon | inside
      · exact .inr colon
      · exact continues_iff.mp (List.takeWhile_eq_self_iff.mp parts c inside)
  | operator c sym listed =>
      have listed' := mem_of_lookup listed
      rw [← isSequence] at listed'
      exact absurd listed' (by simp [Lexer.operators])
  | punctuation c sym listed =>
      have listed' := mem_of_lookup listed
      rw [← isSequence] at listed'
      exact absurd listed' (by simp [Lexer.punctuation])
  | _ => exact Symbol.noConfusion isSequence

theorem Lexer.Facing.reads {lexer : Lexer} {token : Token} {tail more : List Char}
    (facing : lexer.Facing token tail more) (readBack : token.ReadBack) :
    ∃ after, lexer.scanToken = .ok after ∧ after.token = token ∧ after.At tail more := by
  obtain ⟨⟨lexical, short⟩, position, follow⟩ := facing
  by_cases isString : token.sym = .stString
  · have noNul : nul ∉ token.text.toList := by
      simpa only [Token.ReadBack, isString] using readBack
    rw [Token.print, if_pos isString] at position
    rw [isString] at lexical
    have reads := reads_string position lexical.of_string.1 short
    exact Lexer.Reads.token (isString ▸ reads) noNul
  · rw [print_eq_text isString] at position
    have reads := lexical.reads short isString (by simpa using readBack) position follow
    exact reads.token (lexical.noNul isString)

theorem Lexer.Facing.cut {lexer : Lexer} {token : Token} {tail more : List Char}
    (facing : lexer.Facing token tail more) (notReadBack : ¬ token.ReadBack) :
    ∃ after, lexer.scanToken = .ok after ∧ after.token ≠ token := by
  obtain ⟨⟨lexical, short⟩, position, follow⟩ := facing
  obtain ⟨sym, text⟩ := token
  have cutWord : sym ≠ .primitive → sym ≠ .stString → primitiveText <+: text.toList →
      ∃ after, lexer.scanToken = .ok after ∧ after.token ≠ ⟨sym, text⟩ := by
    intro other noString isPrefix
    rw [print_eq_text noString] at position
    obtain ⟨after, scanned, isPrimitive⟩ := reads_cut_word position isPrefix
    refine ⟨after, scanned, fun same => other ?_⟩
    rw [← isPrimitive]
    exact (congrArg Token.sym same).symm
  have byText : (∃ after, lexer.scanToken = .ok after ∧ after.getText ≠ text.toList) →
      ∃ after, lexer.scanToken = .ok after ∧ after.token ≠ ⟨sym, text⟩ := by
    rintro ⟨after, scanned, differs⟩
    refine ⟨after, scanned, fun same => differs ?_⟩
    have texts := congrArg (String.toList ∘ Token.text) same
    simpa [Lexer.token] using texts
  unfold Token.ReadBack at notReadBack
  simp only at notReadBack lexical
  split at notReadBack
  · exact cutWord (by decide) (by decide) (not_not.mp notReadBack)
  · exact cutWord (by decide) (by decide) (not_not.mp notReadBack)
  · by_cases isPrefix : primitiveText <+: text.toList
    · exact cutWord (by decide) (by decide) isPrefix
    · refine byText (cut_sequence lexical short isPrefix ?_ position follow)
      exact fun all => notReadBack ⟨isPrefix, all⟩
  · obtain ⟨after, scanned, _, sameText, _⟩ :=
      reads_string position lexical.of_string.1 short
    refine byText ⟨after, scanned, ?_⟩
    rw [sameText]
    intro same
    have noNul := List.takeWhile_eq_self_iff.mp same nul (not_not.mp notReadBack)
    exact absurd noNul (by decide)
  · exact absurd trivial notReadBack

/-! ### Whole inputs -/

/-- What is left of a line behind one of its tokens. -/
def restOfLine (line : List Token) : List Char :=
  if line = [] then [] else ' ' :: printLine line

theorem follow_restOfLine (line : List Token) : Follow (restOfLine line) := by
  unfold restOfLine Follow
  split <;> simp

theorem printLine_cons (token : Token) (line : List Token) :
    printLine (token :: line) = token.print ++ restOfLine line := by
  cases line with
  | nil => simp [printLine, restOfLine]
  | cons next line => simp [printLine, restOfLine, List.intercalate_cons_cons]

theorem newline_not_mem_printLine {line : List Token} (printable : ∀ token ∈ line, token.Printable) :
    newline ∉ printLine line := by
  induction line with
  | nil => simp [printLine]
  | cons token line hypothesis =>
      have rest := hypothesis fun other there => printable other (List.mem_cons_of_mem token there)
      have space : newline ≠ ' ' := by decide
      rw [printLine_cons, restOfLine]
      split
      · simpa using newline_not_mem_print (printable token (by simp))
      · simpa [space, rest] using newline_not_mem_print (printable token (by simp))

/-- The lexer stands behind a token, with `line` and then `lines` still to come. -/
def Lexer.Before (lexer : Lexer) (line : List Token) (lines : List (List Token)) : Prop :=
  lexer.At (restOfLine line) (printLines lines)

/-- Skipping to the next token; blank lines are passed over. -/
theorem Lexer.Before.skip {lexer : Lexer} {line : List Token} {lines : List (List Token)}
    (before : lexer.Before line lines)
    (printable : ∀ token ∈ line ++ lines.flatten, token.Printable) :
    ∃ after, lexer.skip = .ok after ∧ match line ++ lines.flatten with
      | [] => after.Ended
      | token :: _ => ∃ line' lines', line' ++ lines'.flatten = (line ++ lines.flatten).tail ∧
          after.Facing token (restOfLine line') (printLines lines') := by
  unfold Lexer.Before at before
  cases line with
  | cons token line =>
      have isPrintable := printable token (by simp)
      obtain ⟨c, cs, starts, isStart⟩ := print_starts isPrintable
      rw [restOfLine, if_neg (by simp), printLine_cons, starts, List.cons_append] at before
      obtain ⟨after, skipped, there⟩ := skip_space before isStart
      refine ⟨after, skipped, line, lines, rfl, isPrintable, ?_, follow_restOfLine line⟩
      rwa [starts, List.cons_append]
  | nil =>
      induction lines generalizing lexer with
      | nil => exact skip_end before
      | cons next lines hypothesis =>
          rw [restOfLine, if_pos rfl, printLines, List.flatMap_cons] at before
          cases next with
          | nil =>
              obtain ⟨skips, there⟩ := skip_blank before
              rw [skips]
              exact hypothesis there printable
          | cons token line =>
              have isPrintable := printable token (by simp)
              have oneLine : newline ∉ printLine (token :: line) :=
                newline_not_mem_printLine fun other listed =>
                  printable other (List.mem_flatten.mpr ⟨token :: line, by simp, listed⟩)
              rw [List.append_assoc, List.singleton_append] at before
              obtain ⟨c, cs, starts, isStart⟩ := print_starts isPrintable
              rw [printLine_cons, starts, List.cons_append] at before oneLine
              obtain ⟨after, skipped, there⟩ := skip_line before oneLine isStart
              refine ⟨after, skipped, line, lines, rfl, isPrintable, ?_, follow_restOfLine line⟩
              rwa [starts, List.cons_append]

/-- The tokens to come are returned as they were printed, then `NONE`, exactly
if all of them are read back. -/
theorem Lexer.Before.getSyms_iff {lexer : Lexer} {line : List Token}
    {lines : List (List Token)} (before : lexer.Before line lines) (tokens : List Token)
    (toCome : line ++ lines.flatten = tokens) (printable : ∀ token ∈ tokens, token.Printable)
    (count : Nat) :
    lexer.getSyms (tokens.length + count) =
        .ok (tokens ++ List.replicate count Token.endOfInput) ↔
      ∀ token ∈ tokens, token.ReadBack := by
  induction tokens generalizing lexer line lines with
  | nil =>
      obtain ⟨spaced, skipped, ended⟩ := before.skip (toCome ▸ printable)
      rw [toCome] at ended
      have stops : lexer.getSyms count = .ok (List.replicate count Token.endOfInput) := by
        cases count with
        | zero => rfl
        | succ count =>
            obtain ⟨after, scanned, isEnd, stays⟩ := ended.scanToken
            rw [getSyms_succ count (getSym_eq before.unpeeked skipped scanned),
              stays.getSyms count, isEnd]
            rfl
      simp [stops]
  | cons token tokens hypothesis =>
      obtain ⟨spaced, skipped, faces⟩ := before.skip (toCome ▸ printable)
      rw [toCome] at faces
      obtain ⟨line', lines', toCome', facing⟩ := faces
      rw [List.length_cons, Nat.add_right_comm, List.forall_mem_cons]
      by_cases readBack : token.ReadBack
      · obtain ⟨after, scanned, same, there⟩ := facing.reads readBack
        rw [getSyms_succ _ (getSym_eq before.unpeeked skipped scanned), same,
          ← hypothesis there toCome' fun other listed => printable other (.tail _ listed)]
        cases after.getSyms (tokens.length + count) <;> simp [Except.map, readBack]
      · obtain ⟨after, scanned, differs⟩ := facing.cut readBack
        rw [getSyms_succ _ (getSym_eq before.unpeeked skipped scanned)]
        cases after.getSyms (tokens.length + count) <;> simp [Except.map, readBack, differs]

/-- Printed tokens come back, followed by `NONE`, exactly if each of them is
read back. -/
theorem round_trip_iff (lines : List (List Token))
    (printable : ∀ line ∈ lines, ∀ token ∈ line, token.Printable) (memory : Lexer) (count : Nat) :
    (Lexer.new ⟨printLines lines, true⟩ memory).getSyms (lines.flatten.length + count) =
        .ok (lines.flatten ++ List.replicate count Token.endOfInput) ↔
      ∀ line ∈ lines, ∀ token ∈ line, token.ReadBack := by
  have before : (Lexer.new ⟨printLines lines, true⟩ memory).Before [] lines :=
    ⟨rfl, rfl, Nat.le_refl _, rfl, rfl⟩
  have all : ∀ token ∈ lines.flatten, token.Printable := by
    intro token there
    obtain ⟨line, listed, inside⟩ := List.mem_flatten.mp there
    exact printable line listed token inside
  rw [before.getSyms_iff lines.flatten rfl all]
  simp only [List.mem_flatten]
  exact ⟨fun all line listed token inside => all token ⟨line, listed, inside⟩,
    fun all token ⟨line, listed, inside⟩ => all line listed token inside⟩

/-- Members of a lexer in zeroed memory. -/
def Lexer.zeroed : Lexer :=
  ⟨⟨[], false⟩, .none, nul, [], 0, false, .none, nul, [], [], 0⟩

theorem round_trip_at_put :
    (Lexer.new ⟨printLines [[⟨.identifier, "a1"⟩, ⟨.keywordSequence, "at:put:"⟩], [],
        [⟨.stString, "x"⟩]], true⟩ Lexer.zeroed).getSyms (3 + 1) =
      .ok ([⟨.identifier, "a1"⟩, ⟨.keywordSequence, "at:put:"⟩, ⟨.stString, "x"⟩] ++
        List.replicate 1 Token.endOfInput) := by
  refine (round_trip_iff [[⟨.identifier, "a1"⟩, ⟨.keywordSequence, "at:put:"⟩], [],
    [⟨.stString, "x"⟩]] ?_ Lexer.zeroed 1).mpr ?_
  · simp only [List.forall_mem_cons, List.not_mem_nil, false_imp_iff, implies_true, and_true,
      true_and]
    exact ⟨⟨⟨.identifier _ (by decide) (by decide), by decide⟩,
        .keywordSequence [['a', 't'], ['p', 'u', 't']] (by decide) (by decide), by decide⟩,
      .stString _ (by decide) (by decide), by decide⟩
  · simp only [List.forall_mem_cons, List.not_mem_nil, false_imp_iff, implies_true, and_true,
      true_and, Token.ReadBack]
    have letters : (("at:put:".toList).dropWhile isWord).all continues = true := rfl
    refine ⟨⟨by decide, by decide, ?_⟩, by decide⟩
    exact fun c there => continues_iff.mp (List.all_eq_true.mp letters c there)

/-- The identifier `primitives` is an identifier of the language and comes back
as the word `primitive`. -/
theorem primitives_cut :
    (∀ line ∈ [[Token.mk .identifier "primitives"]], ∀ token ∈ line, token.Printable) ∧
      ¬ (Lexer.new ⟨printLines [[⟨.identifier, "primitives"⟩]], true⟩
          Lexer.zeroed).getSyms 2 =
        .ok [⟨.identifier, "primitives"⟩, Token.endOfInput] := by
  have printable : ∀ token ∈ [Token.mk .identifier "primitives"], token.Printable := by
    simp only [List.forall_mem_cons, List.not_mem_nil, false_imp_iff, implies_true, and_true]
    exact ⟨.identifier _ (by decide) (by decide), by decide⟩
  refine ⟨by simpa using printable, fun returned => ?_⟩
  have before : (Lexer.new ⟨printLines [[⟨.identifier, "primitives"⟩]], true⟩
      Lexer.zeroed).Before [] [[⟨.identifier, "primitives"⟩]] := ⟨rfl, rfl, Nat.le_refl _, rfl, rfl⟩
  have readBack := (before.getSyms_iff _ rfl printable 1).mp returned _ (List.mem_singleton_self _)
  have isPrefix : primitiveText <+: "primitives".toList := by decide
  exact readBack isPrefix

end Somr.Compiler
