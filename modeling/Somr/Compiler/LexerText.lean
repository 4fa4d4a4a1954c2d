import Somr.Compiler.LexerRoundTrip

/-!
Owns what the lexer does as a function of the text that is left to read.

The line buffer, the position in it and the stream are one text: the rest of the
line and, as long as the stream is good, a newline and what the stream still
holds. Every call of the lexer is a function of that text.
-/

namespace Somr.Compiler

open Lexer (operators punctuation primitiveText separatorText startsToken continues)
open Somr.Foundation

/-! ### Tokens of a text -/

/-- The line a text begins with. -/
def lineOf (text : List Char) : List Char := text.takeWhile (· ≠ newline)

/-- A kind, the characters written into the text buffer, and how many
characters of the line are used up. -/
structure Lexeme where
  sym : Symbol
  chars : List Char
  width : Nat
deriving DecidableEq, Repr

/-- A word with the keywords that follow it. -/
def wordLexeme (line : List Char) : Lexeme :=
  let word := line.takeWhile isWord
  match line.dropWhile isWord with
  | ':' :: more =>
      if (more.headD nul).isAlpha then
        let others := more.takeWhile fun c => c.isAlpha || c == ':'
        ⟨.keywordSequence, word ++ ':' :: others, word.length + 1 + others.length⟩
      else ⟨.keyword, word ++ [':'], word.length + 1⟩
  | _ => ⟨.identifier, word, word.length⟩

/-- The token at the beginning of a line that does not begin with a quote. -/
def lexeme (line : List Char) : Lexeme :=
  let c := line.headD nul
  let next := line.tail.headD nul
  if let some sym := punctuation.lookup c then ⟨sym, [c], 1⟩
  else if c = ':' then
    if next = '=' then ⟨.assign, [':', '='], 2⟩ else ⟨.colon, [':'], 1⟩
  else if c = '-' then
    if separatorText.isPrefixOf line then
      ⟨.separator, line.takeWhile (· = '-'), (line.takeWhile (· = '-')).length⟩
    else ⟨.minus, ['-'], 1⟩
  else if isOp c then
    if isOp next then ⟨.operatorSequence, line.takeWhile isOp, (line.takeWhile isOp).length⟩
    else ⟨(operators.lookup c).getD .none, [c], 1⟩
  else if primitiveText.isPrefixOf line then ⟨.primitive, primitiveText, primitiveText.length⟩
  else if c.isAlpha then wordLexeme line
  else if c.isDigit then
    ⟨.integer, line.takeWhile Char.isDigit, (line.takeWhile Char.isDigit).length⟩
  else ⟨.none, [c], 0⟩

/-- The token at the beginning of a line. -/
def tokenOf (line : List Char) : Except LexerStop Lexeme :=
  if line.headD nul = quote then
    let contents := line.tail.takeWhile (· ≠ quote)
    if contents.length < line.tail.length then
      .ok ⟨.stString, contents, contents.length + 2⟩
    else .error .outside
  else .ok (lexeme line)

/-- The characters a token of the language begins with. -/
def isKnown (c : Char) : Bool :=
  c == quote || (punctuation.lookup c).isSome || c == ':' || c == '-' || isOp c || c.isAlpha ||
    c.isDigit

theorem startsToken_of_known {c : Char} (known : isKnown c = true) : startsToken c = true := by
  simp only [isKnown, Bool.or_eq_true, beq_iff_eq, Option.isSome_iff_exists] at known
  rcases known with (((((rfl | ⟨sym, listed⟩) | rfl) | rfl) | operator) | alpha) | digit
  · decide
  · exact (Lexer.punctuation_cases listed).2
  · decide
  · decide
  · exact (Lexer.isOp_cases operator).2.2.2.2
  · exact (Lexer.alpha_cases alpha).2.2.2.2.2
  · exact (Lexer.digit_cases digit).2.2.2.2.2

theorem lexeme_of_unknown {c : Char} (line : List Char) (unknown : isKnown c = false) :
    lexeme (c :: line) = ⟨.none, [c], 0⟩ := by
  simp only [isKnown, Bool.or_eq_false_iff, beq_eq_false_iff_ne, Option.isSome_eq_false_iff,
    Option.isNone_iff_eq_none] at unknown
  obtain ⟨⟨⟨⟨⟨⟨_, noPunctuation⟩, noColon⟩, noDash⟩, noOp⟩, noLetter⟩, noDigit⟩ := unknown
  have noPrimitive : primitiveText.isPrefixOf (c :: line) = false := by
    have other : 'p' ≠ c := by
      rintro rfl
      exact absurd noLetter (by decide)
    simp [primitiveText, List.isPrefixOf, other]
  simp only [lexeme, List.headD_cons, noPunctuation, if_neg noColon, if_neg noDash, noOp,
    noPrimitive, noLetter, noDigit, Bool.false_eq_true, if_false]

/-- A token of a line: it has a kind, and a part of the line that is not empty. -/
structure Lexeme.Within (token : Lexeme) (line : List Char) : Prop where
  recognised : token.sym ≠ .none
  positive : 0 < token.width
  inside : token.width ≤ line.length

theorem within_ite {condition : Prop} [Decidable condition] {yes no : Lexeme} {line : List Char}
    (holds : condition → yes.Within line) (fails : ¬ condition → no.Within line) :
    (if condition then yes else no).Within line :=
  iteInduction (motive := fun token : Lexeme => token.Within line) holds fails

theorem within_takeWhile {accepts : Char → Bool} {c : Char} (line : List Char) (sym : Symbol)
    (recognised : sym ≠ .none) (first : accepts c = true) :
    Lexeme.Within ⟨sym, (c :: line).takeWhile accepts, ((c :: line).takeWhile accepts).length⟩
      (c :: line) :=
  ⟨recognised, by simp [first], (List.takeWhile_prefix accepts).length_le⟩

theorem within_one {c : Char} (line : List Char) (sym : Symbol) (recognised : sym ≠ .none) :
    Lexeme.Within ⟨sym, [c], 1⟩ (c :: line) :=
  ⟨recognised, Nat.one_pos, by simp⟩

theorem within_wordLexeme {c : Char} (line : List Char) (letter : c.isAlpha = true) :
    (wordLexeme (c :: line)).Within (c :: line) := by
  have word := within_takeWhile line .identifier (by decide) (Lexer.isWord_of_isAlpha letter)
  unfold wordLexeme
  simp only
  split
  · next more behind =>
      have lengths := congrArg List.length
        (List.takeWhile_append_dropWhile (p := isWord) (l := c :: line))
      rw [behind, List.length_append, List.length_cons] at lengths
      have shorter : (more.takeWhile fun d => d.isAlpha || d == ':').length ≤ more.length :=
        (List.takeWhile_prefix _).length_le
      refine within_ite (fun _ => ?_) fun _ => ?_
      · exact ⟨by simp, by simp only; omega, by simp only; omega⟩
      · exact ⟨by simp, by simp, by simp only; omega⟩
  · exact word

theorem getD_operators {c : Char} (operator : isOp c = true) :
    (operators.lookup c).getD .none ≠ .none := by
  simp only [isOp, List.contains_eq_mem, List.mem_cons, List.not_mem_nil, or_false,
    decide_eq_true_eq] at operator
  rcases operator with rfl | rfl | rfl | rfl | rfl | rfl | rfl | rfl | rfl | rfl | rfl | rfl |
    rfl <;> decide

theorem within_of_isPrefixOf {word line : List Char} (sym : Symbol) (recognised : sym ≠ .none)
    (some : 0 < word.length) (isPrefix : word.isPrefixOf line = true) :
    Lexeme.Within ⟨sym, word, word.length⟩ line :=
  ⟨recognised, some, (List.isPrefixOf_iff_prefix.mp isPrefix).length_le⟩

theorem within_lexeme {c : Char} (line : List Char) (known : isKnown c = true)
    (noString : c ≠ quote) : (lexeme (c :: line)).Within (c :: line) := by
  have listedSyms : ∀ entry ∈ punctuation, entry.2 ≠ .none := by decide
  simp only [lexeme, List.headD_cons, List.tail_cons]
  split
  · next sym listed => exact within_one line sym (listedSyms _ (mem_of_lookup listed))
  next noPunctuation =>
  refine within_ite (fun isColon => ?_) fun noColon => ?_
  · refine within_ite (fun isAssign => ?_) fun _ => isColon ▸ within_one line .colon (by decide)
    cases line with
    | nil => exact absurd isAssign (by decide)
    | cons d line => exact ⟨by simp, by simp, by simp⟩
  refine within_ite (fun isDash => ?_) fun noDash => ?_
  · exact within_ite (fun _ => within_takeWhile line .separator (by decide) (by simp [isDash]))
      fun _ => isDash ▸ within_one line .minus (by decide)
  refine within_ite (fun operator => ?_) fun noOp => ?_
  · exact within_ite (fun _ => within_takeWhile line .operatorSequence (by decide) operator)
      fun _ => within_one line _ (getD_operators operator)
  refine within_ite (within_of_isPrefixOf .primitive (by decide) (by decide)) fun _ => ?_
  refine within_ite (within_wordLexeme line) fun noLetter => ?_
  refine within_ite (within_takeWhile line .integer (by decide)) fun noDigit => ?_
  have unlisted : punctuation.lookup c = none := by
    cases listed : punctuation.lookup c with
    | none => rfl
    | some sym => exact (noPunctuation sym listed).elim
  simp [isKnown, unlisted, noColon, noDash, noOp, noLetter, noDigit, noString] at known

theorem lexeme_width_le {line : List Char} (noString : line.headD nul ≠ quote) :
    (lexeme line).width ≤ line.length := by
  cases line with
  | nil => exact Nat.le_of_eq rfl
  | cons c line =>
      cases known : isKnown c with
      | true => exact (within_lexeme line known noString).inside
      | false =>
          rw [lexeme_of_unknown line known]
          exact Nat.zero_le _

/-- Blanks and comments. The loop of `GetSym` looks at the stream again after
each comment, so it stops behind the first comment of the last line if that line
has no newline. -/
def skipText (text : List Char) : Option (List Char) :=
  match text with
  | [] => some []
  | c :: more =>
      if isspace c then skipText more
      else if c = doubleQuote then
        match _closing : more.dropWhile (· ≠ doubleQuote) with
        | [] => none
        | _ :: behind => if newline ∈ behind then skipText behind else some behind
      else some (c :: more)
termination_by text.length
decreasing_by
  · exact Nat.lt_succ_self more.length
  · have shorter := (List.dropWhile_suffix (· ≠ doubleQuote) (l := more)).length_le
    rw [_closing] at shorter
    exact Nat.lt_succ_of_le (Nat.le_of_succ_le shorter)

/-- The token a text begins with, and the text behind it. -/
def readToken (text : List Char) : Except LexerStop (Token × List Char) := do
  let found ← tokenOf (lineOf text)
  if found.chars.length < bufsiz then
    return (⟨found.sym, String.ofList (cString found.chars)⟩, text.drop found.width)
  else .error .overflow

/-- One call of `GetSym`. -/
def nextToken (text : List Char) : Except LexerStop (Token × List Char) :=
  match skipText text with
  | none => .error .outside
  | some found => readToken found

/-- Successive calls of `GetSym`. -/
def nextTokens : Nat → List Char → Except LexerStop (List Token)
  | 0, _ => .ok []
  | count + 1, text => do
      let (token, behind) ← nextToken text
      let others ← nextTokens count behind
      return token :: others

/-! ### Skipping -/

theorem skipText_blank {c : Char} (text : List Char) (blank : isspace c = true) :
    skipText (c :: text) = skipText text := by
  rw [skipText, if_pos blank]

theorem skipText_token {c : Char} (text : List Char) (starts : startsToken c = true) :
    skipText (c :: text) = some (c :: text) := by
  simp only [startsToken, Bool.and_eq_true, Bool.not_eq_true', bne_iff_ne] at starts
  rw [skipText, if_neg (by simp [starts.1]), if_neg starts.2]

theorem dropWhile_to_doubleQuote {inside : List Char} (text : List Char)
    (closed : doubleQuote ∉ inside) :
    (inside ++ doubleQuote :: text).dropWhile (· ≠ doubleQuote) = doubleQuote :: text := by
  rw [List.dropWhile_append_of_pos (all_ne_of_notMem closed)]
  simp

theorem skipText_comment {inside : List Char} (text : List Char)
    (closed : doubleQuote ∉ inside) :
    skipText (doubleQuote :: (inside ++ doubleQuote :: text)) =
      if newline ∈ text then skipText text else some text := by
  rw [skipText, if_neg (by decide), if_pos rfl]
  split
  · next isNil =>
      rw [dropWhile_to_doubleQuote text closed] at isNil
      exact absurd isNil (List.cons_ne_nil _ _)
  · next first behind isCons =>
      rw [dropWhile_to_doubleQuote text closed] at isCons
      rw [(List.cons.inj isCons).2]

theorem skipText_unclosed {text : List Char} (unclosed : doubleQuote ∉ text) :
    skipText (doubleQuote :: text) = none := by
  have noQuote : text.dropWhile (· ≠ doubleQuote) = [] :=
    List.dropWhile_eq_nil_iff.mpr (all_ne_of_notMem unclosed)
  rw [skipText, if_neg (by decide), if_pos rfl]
  split
  · rfl
  · next isCons => exact absurd (noQuote.symm.trans isCons) (List.cons_ne_nil _ _).symm

/-- A text is empty, or begins with a blank, with a comment, with a comment that
is not closed, or with a token or an unknown character. -/
theorem text_cases {motive : List Char → Prop} (text : List Char) (exhausted : motive [])
    (blank : ∀ c more, isspace c = true → motive (c :: more))
    (comment : ∀ inside more, doubleQuote ∉ inside →
      motive (doubleQuote :: (inside ++ doubleQuote :: more)))
    (unclosed : ∀ more, doubleQuote ∉ more → motive (doubleQuote :: more))
    (starts : ∀ c more, startsToken c = true → motive (c :: more)) : motive text := by
  cases text with
  | nil => exact exhausted
  | cons c more =>
      by_cases isBlank : isspace c = true
      · exact blank c more isBlank
      by_cases isComment : c = doubleQuote
      · subst isComment
        by_cases closing : doubleQuote ∈ more
        · obtain ⟨inside, behind, rfl, closed⟩ := List.eq_append_cons_of_mem closing
          exact comment inside behind closed
        · exact unclosed more closing
      · exact starts c more (by simp [startsToken, isBlank, isComment])

/-! ### Reading tokens -/

theorem lineOf_cons {c : Char} (text : List Char) (oneLine : c ≠ newline) :
    lineOf (c :: text) = c :: lineOf text := by
  simp [lineOf, oneLine]

theorem startsToken_ne_newline {c : Char} (starts : startsToken c = true) : c ≠ newline := by
  rintro rfl
  exact absurd starts (by decide)

/-- The token that stands at the beginning of a text. -/
inductive Begins : List Char → Lexeme → Prop
  | string (chars text : List Char) (closed : quote ∉ chars) (oneLine : newline ∉ chars) :
      Begins (quote :: (chars ++ quote :: text)) ⟨.stString, chars, chars.length + 2⟩
  | other (c : Char) (text : List Char) (known : isKnown c = true) (noString : c ≠ quote) :
      Begins (c :: text) (lexeme (lineOf (c :: text)))

theorem Begins.tokenOf {text : List Char} {token : Lexeme} (begins : Begins text token) :
    tokenOf (lineOf text) = .ok token ∧ token.Within (lineOf text) ∧
      ∃ c more, text = c :: more ∧ startsToken c = true := by
  cases begins with
  | string chars text closed oneLine =>
      have line : lineOf (quote :: (chars ++ quote :: text)) =
          quote :: (chars ++ quote :: lineOf text) := by
        rw [lineOf_cons _ (by decide), lineOf, List.takeWhile_append_of_pos (all_ne_of_notMem oneLine),
          ← lineOf, lineOf_cons _ (by decide)]
      have contents : (chars ++ quote :: lineOf text).takeWhile (· ≠ quote) = chars := by
        rw [List.takeWhile_append_of_pos (all_ne_of_notMem closed)]
        simp
      rw [line]
      refine ⟨?_, ⟨by simp, by simp, by simp⟩, quote, _, rfl, by decide⟩
      simp only [Compiler.tokenOf, List.headD_cons, if_true, List.tail_cons, contents]
      rw [if_pos (by simp)]
  | other c text known noString =>
      have starts := startsToken_of_known known
      have line := lineOf_cons text (startsToken_ne_newline starts)
      refine ⟨?_, line ▸ within_lexeme (lineOf text) known noString, c, text, rfl, starts⟩
      rw [Compiler.tokenOf, line, List.headD_cons, if_neg noString]

/-- The only other tokens are a string that its line does not close and a
character the cascade does not know. -/
theorem begins_or (c : Char) (text : List Char) (starts : startsToken c = true) :
    (∃ token, Begins (c :: text) token) ∨
      (c = quote ∧ tokenOf (lineOf (c :: text)) = .error .outside) ∨
      (isKnown c = false ∧ tokenOf (lineOf (c :: text)) = .ok ⟨.none, [c], 0⟩) := by
  have line := lineOf_cons text (startsToken_ne_newline starts)
  by_cases isString : c = quote
  · subst isString
    by_cases closing : quote ∈ lineOf text
    · left
      obtain ⟨chars, behind, split, closed⟩ := List.eq_append_cons_of_mem closing
      have oneLine : newline ∉ chars := by
        intro there
        have inside : newline ∈ lineOf text := split ▸ List.mem_append_left _ there
        simpa using List.mem_takeWhile_imp inside
      obtain ⟨more, whole⟩ := List.takeWhile_prefix (· ≠ newline) (l := text)
      have text_eq : text = chars ++ quote :: (behind ++ more) := by
        rw [← whole]
        change lineOf text ++ more = _
        rw [split]
        simp
      rw [text_eq]
      exact ⟨_, .string chars (behind ++ more) closed oneLine⟩
    · right; left
      refine ⟨rfl, ?_⟩
      have all : (lineOf text).takeWhile (· ≠ quote) = lineOf text :=
        List.takeWhile_eq_self_iff.mpr (all_ne_of_notMem closing)
      simp only [tokenOf, line, List.headD_cons, if_true, List.tail_cons, all, Nat.lt_irrefl,
        if_false]
  · cases known : isKnown c with
    | true => exact .inl ⟨_, .other c text known isString⟩
    | false =>
        refine .inr (.inr ⟨rfl, ?_⟩)
        rw [tokenOf, line, List.headD_cons, if_neg isString, lexeme_of_unknown _ known]

/-! ### The text a lexer has still to read -/

namespace Lexer

/-- `text` is left to read. -/
structure Remaining (lexer : Lexer) (text : List Char) : Prop where
  unpeeked : lexer.peekDone = false
  inside : lexer.bufp ≤ lexer.buf.length
  oneLine : newline ∉ lexer.buf
  here : text =
    lexer.rest ++ if lexer.infile.good then newline :: lexer.infile.content else []

theorem Remaining.notMem_rest {lexer : Lexer} {text : List Char}
    (remaining : lexer.Remaining text) : newline ∉ lexer.rest :=
  fun there => remaining.oneLine (List.mem_of_mem_drop there)

theorem Remaining.lineOf {lexer : Lexer} {text : List Char} (remaining : lexer.Remaining text) :
    lineOf text = lexer.rest := by
  rw [remaining.here, Compiler.lineOf,
    List.takeWhile_append_of_pos (all_ne_of_notMem remaining.notMem_rest)]
  split <;> simp

theorem Remaining.good_iff {lexer : Lexer} {text : List Char} (remaining : lexer.Remaining text) :
    lexer.infile.good = true ↔ newline ∈ text := by
  have notMem := remaining.notMem_rest
  rw [remaining.here]
  cases lexer.infile.good <;> simp [notMem]

theorem Remaining.bc {lexer : Lexer} {text : List Char} (remaining : lexer.Remaining text) :
    lexer.bc = .ok ((Compiler.lineOf text).headD nul) := by
  rw [remaining.lineOf]
  cases here : lexer.rest with
  | nil => exact bc_of_nil remaining.inside here
  | cons c cs => exact bc_of_cons here

theorem Remaining.eob {lexer : Lexer} {text : List Char} (remaining : lexer.Remaining text) :
    lexer.eob = (Compiler.lineOf text).isEmpty := by
  rw [remaining.lineOf]
  cases here : lexer.rest with
  | nil => exact eob_of_nil here
  | cons c cs => exact eob_of_cons here

/-- A line ends at the first newline or at the end of the stream. -/
theorem getline_spec (stream : InputStream) :
    newline ∉ stream.getline.1 ∧ stream.content = stream.getline.1 ++
      if stream.getline.2.good then newline :: stream.getline.2.content else [] := by
  have split : stream.content.takeWhile (· ≠ newline) ++ stream.content.dropWhile (· ≠ newline) =
      stream.content := List.takeWhile_append_dropWhile
  have oneLine : newline ∉ stream.content.takeWhile (· ≠ newline) := by
    intro there
    simpa using List.mem_takeWhile_imp there
  have first := List.head?_dropWhile_not (· ≠ newline) stream.content
  unfold InputStream.getline
  cases dropped : stream.content.dropWhile (· ≠ newline) with
  | nil =>
      rw [dropped, List.append_nil] at split
      simp only [Bool.false_eq_true, if_false, List.append_nil, and_true]
      exact split ▸ oneLine
  | cons c more =>
      rw [dropped] at split first
      have isNewline : c = newline := by simpa using first
      rw [isNewline] at split
      exact ⟨oneLine, split.symm⟩

/-- Filling the buffer uses up the newline. -/
theorem remaining_fillBuffer {lexer : Lexer} (unpeeked : lexer.peekDone = false)
    (good : lexer.infile.good = true) : lexer.fillBuffer.Remaining lexer.infile.content := by
  obtain ⟨oneLine, here⟩ := getline_spec lexer.infile
  simp only [fillBuffer, good, if_true]
  exact ⟨unpeeked, Nat.zero_le _, oneLine, here⟩

theorem Remaining.fillBuffer {lexer : Lexer} {text : List Char}
    (remaining : lexer.Remaining (newline :: text)) : lexer.fillBuffer.Remaining text := by
  have good := remaining.good_iff.mpr List.mem_cons_self
  have atEnd : lexer.rest = [] := by
    rw [← remaining.lineOf]
    simp [Compiler.lineOf]
  have here := remaining.here
  rw [atEnd, good, if_pos rfl, List.nil_append] at here
  rw [(List.cons.inj here).2]
  exact remaining_fillBuffer remaining.unpeeked good

/-- Moving on by one character passes over the newline behind it as well. -/
theorem Remaining.advance {lexer : Lexer} {c : Char} {text : List Char}
    (remaining : lexer.Remaining (c :: text)) :
    ∃ next, lexer.advance.Remaining next ∧ (text = next ∨ text = newline :: next) := by
  have here := remaining.here
  have moved : lexer.buf.drop (lexer.bufp + 1) = lexer.rest.tail := (List.tail_drop ..).symm
  by_cases atEnd : lexer.buf.length ≤ lexer.bufp + 1
  · have isLast : lexer.rest.tail = [] := by
      rw [← moved]
      exact List.drop_eq_nil_of_le atEnd
    have advanced : lexer.advance = ({ lexer with bufp := lexer.bufp + 1 } : Lexer).fillBuffer := by
      simp only [Lexer.advance, Lexer.eob, atEnd, decide_true, if_true]
    rw [advanced]
    cases good : lexer.infile.good with
    | false =>
        refine ⟨text, ?_, .inl rfl⟩
        rw [good] at here
        simp only [Bool.false_eq_true, if_false, List.append_nil] at here
        have inside := remaining.inside
        have length := congrArg List.length here
        rw [List.length_cons, rest, List.length_drop] at length
        have stays : ({ lexer with bufp := lexer.bufp + 1 } : Lexer).fillBuffer =
            { lexer with bufp := lexer.bufp + 1 } := if_neg (by simp [good])
        rw [stays]
        refine ⟨remaining.unpeeked, by simp only; omega, remaining.oneLine, ?_⟩
        simp only [rest, good, Bool.false_eq_true, if_false, List.append_nil]
        rw [moved, ← here, List.tail_cons]
    | true =>
        have filled : ({ lexer with bufp := lexer.bufp + 1 } : Lexer).fillBuffer.Remaining
            lexer.infile.content := remaining_fillBuffer remaining.unpeeked good
        rw [good, if_pos rfl] at here
        cases line : lexer.rest with
        | nil =>
            rw [line, List.nil_append] at here
            exact ⟨_, filled, .inl (List.cons.inj here).2⟩
        | cons d cs =>
            rw [line, List.tail_cons] at isLast
            rw [line, isLast] at here
            exact ⟨_, filled, .inr (List.cons.inj here).2⟩
  · refine ⟨text, ?_, .inl rfl⟩
    have advanced : lexer.advance = { lexer with bufp := lexer.bufp + 1 } := by
      simp only [Lexer.advance, Lexer.eob, atEnd, decide_false, Bool.false_eq_true, if_false]
    rw [advanced]
    refine ⟨remaining.unpeeked, by simp only; omega, remaining.oneLine, ?_⟩
    cases line : lexer.rest with
    | nil =>
        have past : lexer.buf.length ≤ lexer.bufp := by simpa [rest] using line
        omega
    | cons d cs =>
        rw [line] at here moved
        simp only [rest, moved, List.tail_cons]
        exact (List.cons.inj here).2

/-- Behind the end of the input there is nothing to move on to. -/
theorem Remaining.advance_nil {lexer : Lexer} (remaining : lexer.Remaining []) :
    lexer.advance.bc = .error .outside := by
  have stopped : lexer.infile.good = false := by
    cases good : lexer.infile.good with
    | false => rfl
    | true => exact absurd (remaining.good_iff.mp good) List.not_mem_nil
  have here := remaining.lineOf
  have atEnd : lexer.buf.length ≤ lexer.bufp := by simpa [Compiler.lineOf, rest] using here.symm
  have stays : lexer.advance = { lexer with bufp := lexer.bufp + 1 } := by
    simp only [Lexer.advance, Lexer.fillBuffer, stopped, Bool.false_eq_true, if_false, ite_self]
  rw [stays, Lexer.bc, charAt, if_neg (by simp only; omega), if_neg (by simp only; omega)]

theorem Remaining.bc_cons {lexer : Lexer} {c : Char} {text : List Char}
    (remaining : lexer.Remaining (c :: text)) (oneLine : c ≠ newline) : lexer.bc = .ok c := by
  rw [remaining.bc, lineOf_cons text oneLine, List.headD_cons]

/-- At the end of a line there is a NUL. -/
theorem Remaining.bc_newline {lexer : Lexer} {text : List Char}
    (remaining : lexer.Remaining (newline :: text)) : lexer.bc = .ok nul := by
  rw [remaining.bc]
  simp [Compiler.lineOf]

/-- The character read is the first one of the text, or a NUL. -/
theorem Remaining.bc_cases {lexer : Lexer} {c : Char} {text : List Char}
    (remaining : lexer.Remaining (c :: text)) : lexer.bc = .ok c ∨ lexer.bc = .ok nul := by
  by_cases isNewline : c = newline
  · exact .inr (isNewline ▸ remaining).bc_newline
  · exact .inl (remaining.bc_cons isNewline)

theorem skipToDoubleQuote_step {lexer : Lexer} {c : Char} (reads : lexer.advance.bc = .ok c) :
    lexer.skipToDoubleQuote =
      if c = doubleQuote then .ok lexer.advance else lexer.advance.skipToDoubleQuote := by
  rw [Lexer.skipToDoubleQuote]
  split
  · simp_all
  · next d alsoReads =>
      rw [reads] at alsoReads
      cases alsoReads
      rfl

/-- The loop passes over a character that is no quote. -/
theorem Remaining.skipToDoubleQuote_other {lexer : Lexer} {c : Char} {text : List Char}
    (remaining : lexer.advance.Remaining (c :: text)) (noQuote : c ≠ doubleQuote) :
    lexer.skipToDoubleQuote = lexer.advance.skipToDoubleQuote := by
  rcases remaining.bc_cases with reads | reads
  · rw [skipToDoubleQuote_step reads, if_neg noQuote]
  · rw [skipToDoubleQuote_step reads, if_neg (by decide)]

/-- Looking for the quote that closes a comment. -/
theorem Remaining.skipToDoubleQuote {inside text : List Char} (closed : doubleQuote ∉ inside)
    {lexer : Lexer} {c : Char} (remaining : lexer.Remaining (c :: (inside ++ doubleQuote :: text))) :
    ∃ closing, lexer.skipToDoubleQuote = .ok closing ∧
      closing.Remaining (doubleQuote :: text) := by
  induction length : inside.length using Nat.strong_induction_on generalizing inside lexer c with
  | _ size hypothesis =>
      obtain ⟨next, advanced, passed⟩ := remaining.advance
      have between : ∃ between, next = between ++ doubleQuote :: text ∧
          doubleQuote ∉ between ∧ between.length ≤ size := by
        rcases passed with same | same
        · exact ⟨inside, same.symm, closed, Nat.le_of_eq length⟩
        · cases inside with
          | nil => exact absurd (List.cons.inj same).1 (by decide)
          | cons d between =>
              refine ⟨between, (List.cons.inj same).2.symm, fun there => closed (.tail d there), ?_⟩
              simp only [List.length_cons] at length
              omega
      obtain ⟨between, rfl, stillClosed, shorter⟩ := between
      cases between with
      | nil =>
          refine ⟨lexer.advance, ?_, advanced⟩
          rw [skipToDoubleQuote_step (advanced.bc_cons (by decide)), if_pos rfl]
      | cons d between =>
          have noQuote : d ≠ doubleQuote := fun same => stillClosed (same ▸ List.mem_cons_self)
          rw [advanced.skipToDoubleQuote_other noQuote]
          exact hypothesis between.length shorter
            (fun there => stillClosed (.tail d there)) advanced rfl

/-- A comment that is not closed is left behind the end of the input only. -/
theorem Remaining.skipToDoubleQuote_unclosed {lexer : Lexer} {text : List Char}
    (remaining : lexer.Remaining text) (unclosed : doubleQuote ∉ text.tail) :
    lexer.skipToDoubleQuote = .error .outside := by
  induction length : text.length using Nat.strong_induction_on generalizing text lexer with
  | _ size hypothesis =>
      cases text with
      | nil =>
          have outside := remaining.advance_nil
          rw [Lexer.skipToDoubleQuote]
          split <;> simp_all
      | cons c text =>
          rw [List.tail_cons] at unclosed
          obtain ⟨next, advanced, passed⟩ := remaining.advance
          have shorter : next.length < size ∧ doubleQuote ∉ next := by
            rw [List.length_cons] at length
            rcases passed with rfl | rfl
            · exact ⟨by omega, unclosed⟩
            · rw [List.length_cons] at length
              exact ⟨by omega, fun there => unclosed (.tail _ there)⟩
          have again := hypothesis next.length shorter.1 advanced
            (fun there => shorter.2 (List.mem_of_mem_tail there)) rfl
          cases next with
          | nil =>
              have reads := advanced.bc
              rw [skipToDoubleQuote_step reads, if_neg (by decide), again]
          | cons d next =>
              have noQuote : d ≠ doubleQuote := fun same => shorter.2 (same ▸ List.mem_cons_self)
              rw [advanced.skipToDoubleQuote_other noQuote, again]

/-! ### The skipping loop -/

theorem Remaining.rest_cons {lexer : Lexer} {c : Char} {text : List Char}
    (remaining : lexer.Remaining (c :: text)) (oneLine : c ≠ newline) :
    lexer.rest = c :: Compiler.lineOf text := by
  rw [← remaining.lineOf, lineOf_cons text oneLine]

theorem isspace_newline : isspace newline = true := rfl

/-- White space is passed over up to the next character or an empty line. -/
theorem Remaining.skipWhiteSpace {lexer : Lexer} {text : List Char}
    (remaining : lexer.Remaining text) :
    ∃ after next, lexer.skipWhiteSpace = .ok after ∧ after.Remaining next ∧
      skipText next = skipText text ∧ ∀ c ∈ next.head?, c = newline ∨ isspace c = false := by
  induction length : text.length using Nat.strong_induction_on generalizing text lexer with
  | _ size hypothesis =>
      cases text with
      | nil =>
          refine ⟨lexer, [], skipWhiteSpace_of_other remaining.bc rfl, remaining, rfl, by simp⟩
      | cons c text =>
          by_cases isNewline : c = newline
          · subst isNewline
            exact ⟨lexer, _, skipWhiteSpace_of_other remaining.bc_newline rfl, remaining, rfl,
              by simp⟩
          have reads := remaining.bc_cons isNewline
          cases blank : isspace c with
          | false =>
              exact ⟨lexer, _, skipWhiteSpace_of_other reads blank, remaining, rfl,
                by simp [blank]⟩
          | true =>
              obtain ⟨next, advanced, passed⟩ := remaining.advance
              rw [List.length_cons] at length
              have shorter : next.length < size ∧ skipText next = skipText (c :: text) := by
                rw [skipText_blank text blank]
                rcases passed with rfl | rfl
                · exact ⟨by omega, rfl⟩
                · rw [skipText_blank next isspace_newline]
                  rw [List.length_cons] at length
                  exact ⟨by omega, rfl⟩
              obtain ⟨after, found, skipped, there, same, stops⟩ :=
                hypothesis next.length shorter.1 advanced rfl
              refine ⟨after, found, ?_, there, same.trans shorter.2, stops⟩
              rw [skipWhiteSpace_of_space reads blank, skipped]

theorem Remaining.skipsOn_last {lexer : Lexer} {text : List Char}
    (remaining : lexer.Remaining text) (last : newline ∉ text) : lexer.skipsOn = .ok false := by
  have stopped : lexer.infile.good = false := by
    cases good : lexer.infile.good with
    | false => rfl
    | true => exact absurd (remaining.good_iff.mp good) last
  rw [Lexer.skipsOn, stopped, remaining.bc]
  simp [bind, Except.bind, pure, Except.pure]

theorem Remaining.skipsOn_more {lexer : Lexer} {c : Char} {text : List Char}
    (remaining : lexer.Remaining (c :: text)) (more : newline ∈ c :: text)
    (skipped : startsToken c = false) : lexer.skipsOn = .ok true := by
  have good := remaining.good_iff.mpr more
  by_cases isNewline : c = newline
  · subst isNewline
    rw [Lexer.skipsOn, remaining.eob, good]
    simp [Compiler.lineOf]
  · have either : (isspace c || c == doubleQuote) = true := by
      simp only [startsToken, Bool.and_eq_false_iff, Bool.not_eq_false', bne_eq_false_iff_eq]
        at skipped
      simpa using skipped
    rw [Lexer.skipsOn, eob_of_cons (remaining.rest_cons isNewline), remaining.bc_cons isNewline,
      good]
    simp [bind, Except.bind, pure, Except.pure, either]

/-- The start of a round of the loop. -/
theorem Remaining.fill {lexer : Lexer} {text : List Char} (remaining : lexer.Remaining text) :
    ∃ next, (if lexer.eob then lexer.fillBuffer else lexer).Remaining next ∧
      skipText next = skipText text := by
  cases text with
  | nil =>
      have stays : lexer.fillBuffer = lexer := by
        rw [Lexer.fillBuffer, if_neg fun good => List.not_mem_nil (remaining.good_iff.mp good)]
      rw [stays, ite_self]
      exact ⟨[], remaining, rfl⟩
  | cons c text =>
      by_cases isNewline : c = newline
      · subst isNewline
        rw [if_pos (by simp [remaining.eob, Compiler.lineOf])]
        exact ⟨text, remaining.fillBuffer, (skipText_blank text isspace_newline).symm⟩
      · rw [if_neg (by simp [eob_of_cons (remaining.rest_cons isNewline)])]
        exact ⟨c :: text, remaining, rfl⟩

theorem skipComment_of_comment {lexer : Lexer} (reads : lexer.bc = .ok doubleQuote) :
    lexer.skipComment = do
      let closing ← lexer.skipToDoubleQuote
      return { closing with bufp := closing.bufp + 1 } := by
  simp only [skipComment, reads, bind, Except.bind, if_true]

theorem Remaining.next {lexer : Lexer} {c : Char} {text : List Char}
    (remaining : lexer.Remaining (c :: text)) (oneLine : c ≠ newline) :
    ({ lexer with bufp := lexer.bufp + 1 } : Lexer).Remaining text := by
  have line := remaining.rest_cons oneLine
  have here := remaining.here
  rw [line] at here
  have lengths := congrArg List.length line
  rw [rest, List.length_drop, List.length_cons] at lengths
  refine ⟨remaining.unpeeked, by simp only; omega, remaining.oneLine, ?_⟩
  have moved : lexer.buf.drop (lexer.bufp + 1) = Compiler.lineOf text := by
    rw [← List.tail_drop]
    exact congrArg List.tail line
  simp only [rest, moved]
  exact (List.cons.inj here).2

theorem skip_error {lexer spaced : Lexer} {reason : LexerStop}
    (spaces : (if lexer.eob then lexer.fillBuffer else lexer).skipWhiteSpace = .ok spaced)
    (comments : spaced.skipComment = .error reason) : lexer.skip = .error reason := by
  rw [skip]
  split
  · simp_all
  · next spaced' alsoSpaces =>
      rw [spaces] at alsoSpaces
      cases alsoSpaces
      split <;> simp_all

/-- The outcome of the skipping loop. -/
def Skips (lexer : Lexer) : Option (List Char) → Prop
  | none => lexer.skip = .error .outside
  | some text => ∃ after, lexer.skip = .ok after ∧ after.Remaining text

theorem Remaining.skips {lexer : Lexer} {text : List Char} (remaining : lexer.Remaining text) :
    lexer.Skips (skipText text) := by
  induction unread : lexer.unread using Nat.strong_induction_on generalizing text lexer with
  | _ size hypothesis =>
      obtain ⟨filled, fills, sameFilled⟩ := remaining.fill
      obtain ⟨spaced, next, spaces, there, sameSpaced, stops⟩ := fills.skipWhiteSpace
      rw [← sameFilled, ← sameSpaced]
      have again : ∀ {after : Lexer} {behind : List Char}, spaced.skipComment = .ok after →
          after.skipsOn = .ok true → after.Remaining behind → lexer.Skips (skipText behind) := by
        intro after behind comments condition found
        have less : after.unread < size := unread ▸ skip_progress spaces comments condition
        have skips := hypothesis after.unread less found rfl
        have same := skip_eq true spaces comments condition
        rw [if_pos rfl] at same
        unfold Skips at skips ⊢
        rwa [same]
      have ends : ∀ {after : Lexer} {behind : List Char}, spaced.skipComment = .ok after →
          after.skipsOn = .ok false → after.Remaining behind → lexer.Skips (some behind) :=
        fun comments condition found => ⟨_, skip_eq false spaces comments condition, found⟩
      induction next using text_cases with
      | exhausted =>
          rw [skipText]
          exact ends (skipComment_of_other there.bc (by decide)) (there.skipsOn_last (by simp)) there
      | blank c more blank =>
          have isNewline : c = newline := by simpa [blank] using stops c
          subst isNewline
          exact again (skipComment_of_other there.bc_newline (by decide))
            (there.skipsOn_more List.mem_cons_self (by decide)) there
      | comment inside more closed =>
          have reads := there.bc_cons (by decide)
          obtain ⟨closing, found, atClosing⟩ := there.skipToDoubleQuote closed
          have comments : spaced.skipComment = .ok { closing with bufp := closing.bufp + 1 } := by
            rw [skipComment_of_comment reads, found]
            rfl
          have behind := atClosing.next (by decide)
          rw [skipText_comment more closed]
          by_cases goesOn : newline ∈ more
          · rw [if_pos goesOn]
            cases more with
            | nil => exact absurd goesOn List.not_mem_nil
            | cons d more =>
                cases starts : startsToken d with
                | true =>
                    rw [skipText_token more starts]
                    have line := behind.rest_cons (startsToken_ne_newline starts)
                    exact ends comments (skipsOn_of_token line starts) behind
                | false => exact again comments (behind.skipsOn_more goesOn starts) behind
          · rw [if_neg goesOn]
            exact ends comments (behind.skipsOn_last goesOn) behind
      | unclosed more unclosed =>
          have reads := there.bc_cons (by decide)
          rw [skipText_unclosed unclosed]
          refine skip_error spaces ?_
          rw [skipComment_of_comment reads, there.skipToDoubleQuote_unclosed unclosed]
          rfl
      | starts c more starts =>
          have oneLine := startsToken_ne_newline starts
          have noQuote : c ≠ doubleQuote := by
            rintro rfl
            exact absurd starts (by decide)
          rw [skipText_token more starts]
          exact ends (skipComment_of_other (there.bc_cons oneLine) noQuote)
            (skipsOn_of_token (there.rest_cons oneLine) starts) there

/-! ### One call -/

/-- The outcome is that of recognising `token`; of `symc` nothing is said. -/
def Recognises (lexer : Lexer) (outcome : Except LexerStop Lexer) (token : Lexeme) : Prop :=
  ∃ symc, outcome = lexer.recognise token.sym symc token.chars token.width

theorem recognises_ite {lexer : Lexer} {condition : Prop} [Decidable condition]
    {yes no : Except LexerStop Lexer} {token other : Lexeme}
    (holds : condition → lexer.Recognises yes token)
    (fails : ¬ condition → lexer.Recognises no other) :
    lexer.Recognises (if condition then yes else no) (if condition then token else other) := by
  split
  · next isTrue => exact holds isTrue
  · next isFalse => exact fails isFalse

theorem wordLexeme_of_other {line : List Char}
    (other : ∀ more, line.dropWhile isWord ≠ ':' :: more) :
    wordLexeme line =
      ⟨.identifier, line.takeWhile isWord, (line.takeWhile isWord).length⟩ := by
  unfold wordLexeme
  dsimp only
  split
  · next more behind => exact absurd behind (other more)
  · rfl

theorem recognises_scanWord (lexer : Lexer) :
    lexer.Recognises lexer.scanWord (wordLexeme lexer.rest) := by
  by_cases isKeyword : ∃ more, lexer.rest.dropWhile isWord = ':' :: more
  · obtain ⟨more, behind⟩ := isKeyword
    unfold scanWord wordLexeme
    simp only [behind]
    exact recognises_ite (fun _ => ⟨nul, rfl⟩) fun _ => ⟨nul, rfl⟩
  · rw [wordLexeme_of_other (not_exists.mp isKeyword)]
    unfold scanWord
    dsimp only
    split
    · next more behind => exact absurd ⟨more, behind⟩ isKeyword
    · exact ⟨nul, rfl⟩

theorem scanToken_string {lexer : Lexer} (reads : lexer.bc = .ok quote) :
    lexer.scanToken = lexer.scanString := by
  simp only [scanToken, reads, bind, Except.bind, if_true]

theorem recognises_lexeme {lexer : Lexer} {c : Char} (reads : lexer.bc = .ok c)
    (first : lexer.rest.headD nul = c) (noString : c ≠ quote) :
    lexer.Recognises lexer.scanToken (lexeme lexer.rest) := by
  simp only [scanToken, lexeme, reads, first, bind, Except.bind, if_neg noString]
  cases listed : punctuation.lookup c with
  | some sym => exact ⟨c, rfl⟩
  | none =>
      refine recognises_ite (fun _ => ?_) fun _ => ?_
      · exact recognises_ite (fun _ => ⟨nul, rfl⟩) fun _ => ⟨':', rfl⟩
      refine recognises_ite (fun _ => ?_) fun _ => ?_
      · exact recognises_ite (fun _ => ⟨lexer.symc, rfl⟩) fun _ => ⟨'-', rfl⟩
      refine recognises_ite (fun operator => ?_) fun _ => ?_
      · refine recognises_ite (fun _ => ⟨nul, rfl⟩) fun _ => ⟨c, ?_⟩
        cases found : operators.lookup c with
        | some sym => rfl
        | none => exact absurd (by rw [found]; rfl) (getD_operators operator)
      refine recognises_ite (fun _ => ⟨nul, rfl⟩) fun _ => ?_
      refine recognises_ite (fun _ => recognises_scanWord lexer) fun _ => ?_
      exact recognises_ite (fun _ => ⟨nul, rfl⟩) fun _ => ⟨c, rfl⟩

/-- A token that fits into the text buffer is used up. -/
theorem Remaining.recognise {lexer : Lexer} {text : List Char} (remaining : lexer.Remaining text)
    {token : Lexeme} (symc : Char) (inside : token.width ≤ (Compiler.lineOf text).length)
    (fits : token.chars.length < bufsiz) :
    ∃ after, lexer.recognise token.sym symc token.chars token.width = .ok after ∧
      after.token = ⟨token.sym, String.ofList (cString token.chars)⟩ ∧
      after.Remaining (text.drop token.width) := by
  rw [remaining.lineOf] at inside
  have lengths := inside
  rw [rest, List.length_drop] at lengths
  have bound := remaining.inside
  refine ⟨_, if_pos fits, ?_, remaining.unpeeked, by simp only; omega, remaining.oneLine, ?_⟩
  · simp only [Lexer.token, getText, cString_terminated]
  · simp only [rest]
    rw [← List.drop_drop, remaining.here, List.drop_append_of_le_length inside]
    rfl

/-- The outcome of a call in terms of the text. -/
def Calls (outcome : Except LexerStop Lexer) : Except LexerStop (Token × List Char) → Prop
  | .error reason => outcome = .error reason
  | .ok (token, behind) => ∃ after, outcome = .ok after ∧ after.token = token ∧
      after.Remaining behind

theorem Remaining.reads_token {lexer : Lexer} {text : List Char} {found : Lexeme}
    (remaining : lexer.Remaining text) (scanned : tokenOf (Compiler.lineOf text) = .ok found)
    (inside : found.width ≤ (Compiler.lineOf text).length)
    (scans : lexer.Recognises lexer.scanToken found) : Calls lexer.scanToken (readToken text) := by
  obtain ⟨symc, scans⟩ := scans
  unfold readToken
  rw [scanned]
  simp only [bind, Except.bind, pure, Except.pure]
  by_cases fits : found.chars.length < bufsiz
  · rw [if_pos fits, scans]
    exact remaining.recognise symc inside fits
  · rw [if_neg fits, scans]
    exact if_neg fits

theorem Remaining.reads {lexer : Lexer} {text : List Char} (remaining : lexer.Remaining text) :
    Calls lexer.scanToken (readToken text) := by
  have line := remaining.lineOf
  have reads := remaining.bc
  rw [line] at reads
  by_cases isString : lexer.rest.headD nul = quote
  · have scans : lexer.scanToken = lexer.scanString := scanToken_string (isString ▸ reads)
    by_cases closed : (lexer.rest.tail.takeWhile (· ≠ quote)).length < lexer.rest.tail.length
    · have scanned : tokenOf lexer.rest = .ok ⟨.stString, lexer.rest.tail.takeWhile (· ≠ quote),
          (lexer.rest.tail.takeWhile (· ≠ quote)).length + 2⟩ := by
        simp only [tokenOf, isString, if_true, if_pos closed]
      have scansString : lexer.Recognises lexer.scanToken ⟨.stString,
          lexer.rest.tail.takeWhile (· ≠ quote),
          (lexer.rest.tail.takeWhile (· ≠ quote)).length + 2⟩ := by
        rw [scans]
        exact ⟨nul, if_pos closed⟩
      rw [← line] at scanned scansString
      refine remaining.reads_token scanned ?_ scansString
      rw [line]
      rw [List.length_tail] at closed
      simp only
      omega
    · have scanned : tokenOf lexer.rest = .error .outside := by
        simp only [tokenOf, isString, if_true, if_neg closed]
      rw [readToken, line, scanned, scans]
      exact if_neg closed
  · have scanned : tokenOf lexer.rest = .ok (lexeme lexer.rest) := if_neg isString
    have inside := lexeme_width_le isString
    rw [← line] at scanned inside
    exact remaining.reads_token scanned inside (line ▸ recognises_lexeme reads rfl isString)

theorem Remaining.getSym {lexer : Lexer} {text : List Char} (remaining : lexer.Remaining text) :
    Calls lexer.getSym (nextToken text) := by
  have skips := remaining.skips
  unfold nextToken Lexer.getSym
  rw [if_neg (by simp [remaining.unpeeked])]
  cases found : skipText text with
  | none =>
      rw [found] at skips
      unfold Skips at skips
      simp only [Calls, skips, bind, Except.bind]
  | some next =>
      rw [found] at skips
      obtain ⟨after, skipped, there⟩ := skips
      rw [skipped]
      exact there.reads

theorem Remaining.getSyms {lexer : Lexer} {text : List Char} (remaining : lexer.Remaining text)
    (count : Nat) : lexer.getSyms count = nextTokens count text := by
  induction count generalizing lexer text with
  | zero => rfl
  | succ count hypothesis =>
      have call := remaining.getSym
      rw [Lexer.getSyms, nextTokens]
      cases outcome : nextToken text with
      | error reason =>
          rw [outcome] at call
          rw [show lexer.getSym = .error reason from call]
          rfl
      | ok result =>
          obtain ⟨token, behind⟩ := result
          rw [outcome] at call
          obtain ⟨after, called, rfl, there⟩ := call
          rw [called]
          simp only [bind, Except.bind, hypothesis there]

end Lexer
end Somr.Compiler
