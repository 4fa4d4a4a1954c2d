import Somr.Compiler.LexerText
import Somr.Compiler.Nesting
import Somr.Compiler.ParserTermination

/-!
Owns the two ways in which the compiler counts the arguments of a method: the
names that a pattern or a block header declares, and the colons and the first
character of the signature made from the same tokens.

The counts agree because of how the lexer spells its tokens, so the first part is
about the lexer on any input.
-/

namespace Somr.Compiler

open Lexer (operators punctuation primitiveText separatorText)
open Somr.Foundation

/-! ### How the lexer spells tokens -/

/-- What the parser relies on when it makes a signature of the text of a token. -/
structure Token.Spelled (token : Token) : Prop where
  identifier : token.sym = .identifier →
    Signature.isBinary token.text = false ∧ token.text.toList.count ':' = 0
  keyword : token.sym = .keyword →
    Signature.isBinary token.text = false ∧ token.text.toList.count ':' = 1
  operator : token.sym.isBinaryOperator = true → Signature.isBinary token.text = true

/-- A call of `GetSym` that does not repeat a token of `Peek` returns the token. -/
def Token.Delivered (token : Token) : Prop :=
  ∃ lexer after : Lexer, lexer.peekDone = false ∧ lexer.getSym = .ok after ∧ after.token = token

/-- The token with the text that is read back from the buffer. -/
def Lexeme.token (lexeme : Lexeme) : Token :=
  ⟨lexeme.sym, String.ofList (cString lexeme.chars)⟩

theorem operatorChars_contains (c : Char) :
    operatorChars.contains c = (isOp c || c == '-') := by
  rw [Bool.eq_iff_iff]
  simp only [operatorChars, isOp, List.contains_eq_mem, List.mem_cons, List.not_mem_nil, or_false,
    Bool.or_eq_true, decide_eq_true_eq, beq_iff_eq]
  tauto

theorem isBinary_ofList (c : Char) (chars : List Char) :
    Signature.isBinary (String.ofList (c :: chars)) = (isOp c || c == '-') := by
  rw [Signature.isBinary, String.toList_ofList]
  exact operatorChars_contains c

/-- Kinds of tokens that name no message. -/
theorem spelled_of_other {token : Token} (noName : token.sym.startsMessage = false) :
    token.Spelled := by
  simp only [Symbol.startsMessage, Bool.or_eq_false_iff, beq_eq_false_iff_ne] at noName
  obtain ⟨⟨noIdentifier, noKeyword⟩, noOperator⟩ := noName
  constructor
  · exact fun isIdentifier => absurd isIdentifier noIdentifier
  · exact fun isKeyword => absurd isKeyword noKeyword
  · intro isOperator
    rw [noOperator] at isOperator
    exact Bool.noConfusion isOperator

/-- A binary selector begins with an operator character. -/
theorem spelled_of_operator {sym : Symbol} {c : Char} {chars : List Char}
    (isOperator : sym.isBinaryOperator = true) (first : (isOp c || c == '-') = true)
    (real : c ≠ nul) : Token.Spelled ⟨sym, String.ofList (cString (c :: chars))⟩ := by
  have starts : cString (c :: chars) = c :: cString chars := by
    simp [cString, real]
  constructor
  · intro isIdentifier
    rw [show sym = .identifier from isIdentifier] at isOperator
    exact absurd isOperator (by decide)
  · intro isKeyword
    rw [show sym = .keyword from isKeyword] at isOperator
    exact absurd isOperator (by decide)
  · intro _
    rw [starts]
    exact (isBinary_ofList c _).trans first

/-! ### Words -/

theorem isWord_colon_nul {c : Char} (word : isWord c = true) : c ≠ ':' ∧ c ≠ nul := by
  constructor
  · rintro rfl
    exact absurd word (by decide)
  · rintro rfl
    exact absurd word (by decide)

theorem count_colon_word {word : List Char} (areWord : ∀ c ∈ word, isWord c = true) :
    word.count ':' = 0 :=
  List.count_eq_zero.mpr fun there => (isWord_colon_nul (areWord _ there)).1 rfl

/-- The first letter of a word is no operator character. -/
theorem isBinary_word {c : Char} (letter : c.isAlpha = true) (chars : List Char) :
    Signature.isBinary (String.ofList (c :: chars)) = false := by
  obtain ⟨-, -, -, noDash, noOperator, -⟩ := Lexer.alpha_cases letter
  rw [isBinary_ofList, noOperator, beq_false_of_ne noDash]
  rfl

theorem spelled_wordLexeme {c : Char} (line : List Char) (letter : c.isAlpha = true) :
    (wordLexeme (c :: line)).token.Spelled := by
  have first : isWord c = true := Lexer.isWord_of_isAlpha letter
  have word : (c :: line).takeWhile isWord = c :: line.takeWhile isWord :=
    List.takeWhile_cons_of_pos first
  have areWord : ∀ d ∈ c :: line.takeWhile isWord, isWord d = true := by
    rw [← word]
    exact fun d there => (List.mem_takeWhile_imp there)
  have noNul : nul ∉ c :: line.takeWhile isWord :=
    fun there => (isWord_colon_nul (areWord _ there)).2 rfl
  unfold wordLexeme
  dsimp only
  rw [word]
  split
  · split
    · exact spelled_of_other rfl
    · have noNulHere : nul ∉ (c :: line.takeWhile isWord) ++ [':'] := by
        intro there
        rcases List.mem_append.mp there with there | there
        · exact noNul there
        · exact absurd (List.mem_singleton.mp there) (by decide)
      constructor
      · exact Symbol.noConfusion
      · intro _
        rw [Lexeme.token, cString_eq_self noNulHere]
        refine ⟨isBinary_word letter _, ?_⟩
        rw [String.toList_ofList, List.count_append, count_colon_word areWord]
        rfl
      · exact Bool.noConfusion
  · constructor
    · intro _
      rw [Lexeme.token, cString_eq_self noNul]
      refine ⟨isBinary_word letter _, ?_⟩
      rw [String.toList_ofList]
      exact count_colon_word areWord
    · exact Symbol.noConfusion
    · exact Bool.noConfusion

/-! ### Any token -/

theorem isOp_ne_nul {c : Char} (operator : isOp c = true) : c ≠ nul := by
  rintro rfl
  exact absurd operator (by decide)

theorem startsMessage_punctuation {c : Char} {sym : Symbol}
    (listed : punctuation.lookup c = some sym) : sym.startsMessage = false := by
  have all : ∀ entry ∈ punctuation, entry.2.startsMessage = false := by decide
  exact all _ (mem_of_lookup listed)

theorem isBinaryOperator_operators {c : Char} {sym : Symbol}
    (listed : operators.lookup c = some sym) : sym.isBinaryOperator = true := by
  have all : ∀ entry ∈ operators, entry.2.isBinaryOperator = true := by decide
  exact all _ (mem_of_lookup listed)

theorem spelled_lexeme (line : List Char) : (lexeme line).token.Spelled := by
  unfold lexeme
  dsimp only
  split
  · next sym listed => exact spelled_of_other (startsMessage_punctuation listed)
  split
  · split <;> exact spelled_of_other rfl
  split
  · split
    · exact spelled_of_other rfl
    · exact spelled_of_operator rfl rfl (by decide)
  split
  · next operator =>
      split
      · cases line with
        | nil => exact absurd operator (by decide)
        | cons c line =>
            rw [List.headD_cons] at operator
            rw [List.takeWhile_cons_of_pos operator]
            exact spelled_of_operator rfl (by rw [operator]; rfl) (isOp_ne_nul operator)
      · cases listed : operators.lookup (line.headD nul) with
        | some sym =>
            exact spelled_of_operator (isBinaryOperator_operators listed) (by rw [operator]; rfl)
              (isOp_ne_nul operator)
        | none => exact spelled_of_other rfl
  split
  · exact spelled_of_other rfl
  split
  · next letter =>
      cases line with
      | nil => exact absurd letter (by decide)
      | cons c line => exact spelled_wordLexeme line letter
  split <;> exact spelled_of_other rfl

theorem headD_rest {lexer : Lexer} {c : Char} (reads : lexer.bc = .ok c) :
    lexer.rest.headD nul = c := by
  unfold Lexer.bc Lexer.charAt at reads
  split at reads
  · next inside =>
      obtain rfl := Except.ok.inj reads
      rw [Lexer.rest, List.headD_eq_head?_getD, List.head?_drop, List.getD_eq_getElem?_getD]
  · split at reads
    · next atEnd =>
        obtain rfl := Except.ok.inj reads
        rw [Lexer.rest, atEnd, List.drop_length]
        rfl
    · cases reads

theorem token_of_recognise {lexer after : Lexer} {sym : Symbol} {symc : Char} {chars : List Char}
    {width : Nat} (recognised : lexer.recognise sym symc chars width = .ok after) :
    after.token = ⟨sym, String.ofList (cString chars)⟩ := by
  unfold Lexer.recognise Lexer.writeText at recognised
  split at recognised
  · obtain rfl := Except.ok.inj recognised
    rw [Lexer.token, Lexer.getText, cString_terminated]
  · cases recognised

/-- Every token is spelled as its kind says. -/
theorem Token.Delivered.spelled {token : Token} (delivered : token.Delivered) :
    token.Spelled := by
  obtain ⟨before, after, unpeeked, called, rfl⟩ := delivered
  rw [Lexer.getSym, if_neg (by rw [unpeeked]; exact Bool.false_ne_true)] at called
  cases skipped : before.skip with
  | error reason =>
      rw [skipped] at called
      cases called
  | ok lexer =>
      rw [skipped] at called
      have scanned : lexer.scanToken = .ok after := called
      cases reads : lexer.bc with
      | error reason =>
          unfold Lexer.scanToken at scanned
          rw [reads] at scanned
          cases scanned
      | ok c =>
          by_cases isString : c = quote
          · rw [isString] at reads
            rw [Lexer.scanToken_string reads, Lexer.scanString] at scanned
            split at scanned
            · rw [token_of_recognise scanned]
              exact spelled_of_other rfl
            · cases scanned
          · obtain ⟨symc, recognised⟩ :=
              Lexer.recognises_lexeme reads (headD_rest reads) isString
            rw [recognised] at scanned
            rw [token_of_recognise scanned]
            exact spelled_lexeme lexer.rest

/-! ### Runs without a message -/

namespace Parser

variable {parser after : Parser} {calls : Nat}

/-- The parser behind the current token. -/
def behind (parser : Parser) : Parser := { parser with tokens := parser.tokens.tail }

theorem accept_silent {s : Symbol} {accepted : Bool}
    (ran : (accept s).run parser = ⟨.ok accepted, after, []⟩) :
    (accepted = true ∧ parser.current.sym = s ∧ after = parser.behind) ∨
      (accepted = false ∧ parser.current.sym ≠ s ∧ after = parser) := by
  rw [accept_run] at ran
  split at ran
  · next same =>
      cases ran
      exact .inl ⟨rfl, same, rfl⟩
  · next other =>
      cases ran
      exact .inr ⟨rfl, other, rfl⟩

theorem expect_silent {s : Symbol} {accepted : Bool}
    (ran : (expect s).run parser = ⟨.ok accepted, after, []⟩) :
    parser.current.sym = s ∧ after = parser.behind := by
  obtain ⟨taken, middle, tested, rest⟩ := Process.bind_eq_silent ran
  rcases accept_silent tested with ⟨rfl, same, rfl⟩ | ⟨rfl, -, rfl⟩
  · cases rest
    exact ⟨same, rfl⟩
  · cases rest

theorem identifier_silent {name : String}
    (ran : identifier.run parser = ⟨.ok name, after, []⟩) :
    name = parser.current.text ∧ after = parser.behind := by
  obtain ⟨taken, middle, tested, rest⟩ := Process.bind_eq_silent ran
  obtain ⟨taken', middle', tested', rest⟩ := Process.bind_eq_silent rest
  cases tested
  rcases accept_silent tested' with ⟨rfl, -, rfl⟩ | ⟨rfl, -, rfl⟩
  · cases rest
    exact ⟨rfl, rfl⟩
  · obtain ⟨accepted, last, expected, rest⟩ := Process.bind_eq_silent rest
    obtain ⟨-, rfl⟩ := expect_silent expected
    cases rest
    exact ⟨rfl, rfl⟩

theorem keyword_silent {kw : String} (ran : keyword.run parser = ⟨.ok kw, after, []⟩) :
    parser.current.sym = .keyword ∧ kw = parser.current.text ∧ after = parser.behind := by
  obtain ⟨taken, middle, tested, rest⟩ := Process.bind_eq_silent ran
  obtain ⟨accepted, last, expected, rest⟩ := Process.bind_eq_silent rest
  cases tested
  obtain ⟨isKeyword, rfl⟩ := expect_silent expected
  cases rest
  exact ⟨isKeyword, rfl, rfl⟩

theorem binarySelector_silent {selector : String}
    (operator : parser.current.sym.isBinaryOperator = true)
    (ran : binarySelector.run parser = ⟨.ok selector, after, []⟩) :
    selector = parser.current.text ∧ after = parser.behind := by
  cases tokens : parser.tokens with
  | nil =>
      rw [current, tokens] at operator
      exact absurd operator (by decide)
  | cons token others =>
      have isCurrent : parser.current = token := by rw [current, tokens]; rfl
      have isReading : parser.reading (token :: others) = parser := by rw [reading, ← tokens]
      have applied := @binarySelector_apply parser token others (.inl (isCurrent ▸ operator))
      rw [isReading, ran, Outcome.mk.injEq] at applied
      rw [isCurrent, behind, tokens]
      exact ⟨Except.ok.inj applied.1, applied.2.1⟩

/-- The steps by which patterns and block headers declare an argument. -/
def declareArgument : ParserM Unit := do
  let name ← argument
  modifyMgenc (·.addArgumentIfAbsent name)

/-- Without locals every name is added, also one that is an argument already. -/
theorem declareArgument_silent (noLocals : parser.mgenc.locals = [])
    (ran : declareArgument.run parser = ⟨.ok (), after, []⟩) :
    after.tokens = parser.tokens.tail ∧ after.mgenc.locals = [] ∧
      after.mgenc.signature = parser.mgenc.signature ∧
      after.mgenc.arguments = parser.mgenc.arguments ++ [parser.current.text] := by
  obtain ⟨name, middle, named, added⟩ := Process.bind_eq_silent ran
  obtain ⟨rfl, rfl⟩ := identifier_silent named
  have absent : parser.mgenc.addArgumentIfAbsent parser.current.text =
      parser.mgenc.addArgument parser.current.text := by
    rw [MethodGenerationContext.addArgumentIfAbsent, noLocals, if_neg List.not_mem_nil]
  cases added
  have context : (updateMgenc (·.addArgumentIfAbsent parser.current.text) parser.behind).mgenc =
      parser.mgenc.addArgument parser.current.text := absent
  rw [context]
  exact ⟨rfl, noLocals, rfl, rfl⟩

/-! ### Method patterns -/

/-- Every token still to be read is one the lexer delivers. -/
def ReadsDelivered (parser : Parser) : Prop := ∀ token ∈ parser.tokens, token.Delivered

theorem ReadsDelivered.current (reads : parser.ReadsDelivered) : parser.current.Spelled := by
  cases tokens : parser.tokens with
  | nil =>
      rw [Parser.current, tokens]
      exact spelled_of_other rfl
  | cons token others =>
      rw [Parser.current, tokens]
      exact (reads token (tokens ▸ List.mem_cons_self)).spelled

theorem ReadsDelivered.tail (reads : parser.ReadsDelivered)
    (same : after.tokens = parser.tokens.tail) : after.ReadsDelivered :=
  fun token there => reads token (List.mem_of_mem_tail (same ▸ there))

/-- Each part of a keyword pattern adds one colon and one argument. -/
theorem keywordPatternArguments_silent {kw : String} (reads : parser.ReadsDelivered)
    (noLocals : parser.mgenc.locals = [])
    (ran : (keywordPatternArguments calls).run parser = ⟨.ok kw, after, []⟩) :
    Signature.isBinary kw = false ∧ 0 < kw.toList.count ':' ∧
      after.mgenc.arguments.length = parser.mgenc.arguments.length + kw.toList.count ':' := by
  induction calls generalizing parser kw with
  | zero => cases ran
  | succ calls inductionHypothesis =>
      obtain ⟨part, first, taken, rest⟩ := Process.bind_eq_silent ran
      obtain ⟨isKeyword, rfl, rfl⟩ := keyword_silent taken
      obtain ⟨noOperator, colon⟩ := reads.current.keyword isKeyword
      have declares : ∃ second, declareArgument.run parser.behind = ⟨.ok (), second, []⟩ ∧
          (do if (← sym) = .keyword then
                return parser.current.text ++ (← keywordPatternArguments calls)
              else return parser.current.text : ParserM String).run second =
            ⟨.ok kw, after, []⟩ := by
        obtain ⟨name, second, named, rest⟩ := Process.bind_eq_silent rest
        obtain ⟨nothing, third, added, rest⟩ := Process.bind_eq_silent rest
        refine ⟨third, ?_, rest⟩
        rw [declareArgument, Process.bind_of_silent named]
        exact added
      obtain ⟨second, declared, rest⟩ := declares
      have noLocalsThere : parser.behind.mgenc.locals = [] := noLocals
      obtain ⟨tokens, noLocalsLater, -, arguments⟩ :=
        declareArgument_silent noLocalsThere declared
      obtain ⟨s, third, seen, rest⟩ := Process.bind_eq_silent rest
      cases seen
      have oneMore : second.mgenc.arguments.length = parser.mgenc.arguments.length + 1 := by
        rw [arguments, List.length_append]
        rfl
      split at rest
      · obtain ⟨more, last, others, finished⟩ := Process.bind_eq_silent rest
        cases finished
        have readsThere : parser.behind.ReadsDelivered := reads.tail rfl
        have readsLater : second.ReadsDelivered := readsThere.tail tokens
        obtain ⟨-, -, counted⟩ := inductionHypothesis readsLater noLocalsLater others
        have colons : (parser.current.text ++ more).toList.count ':' = 1 + more.toList.count ':' := by
          rw [String.toList_append, List.count_append, colon]
        refine ⟨?_, by omega, by omega⟩
        rw [Signature.isBinary_append (by omega), noOperator]
      · cases rest
        exact ⟨noOperator, by omega, by omega⟩

/-- A method pattern that is accepted declares the arguments its signature counts. -/
theorem pattern_counts (reads : parser.ReadsDelivered)
    (starts : parser.current.sym.startsMessage = true)
    (isNew : parser.contexts = [{ toScope := { arguments := ["self"] } }])
    (ran : (pattern calls).run parser = ⟨.ok (), after, []⟩) :
    Signature.getNumberOfArguments after.mgenc.signature = after.mgenc.arguments.length := by
  have onlySelf : parser.mgenc.arguments = ["self"] := by rw [mgenc, isNew]; rfl
  have noLocals : parser.mgenc.locals = [] := by rw [mgenc, isNew]; rfl
  obtain ⟨s, first, seen, rest⟩ := Process.bind_eq_silent ran
  cases seen
  split at rest
  · next isIdentifier =>
      obtain ⟨noOperator, noColon⟩ := reads.current.identifier isIdentifier
      obtain ⟨selector, middle, selected, signed⟩ := Process.bind_eq_silent rest
      obtain ⟨name, last, named, returned⟩ := Process.bind_eq_silent selected
      obtain ⟨rfl, rfl⟩ := identifier_silent named
      cases returned
      cases signed
      change Signature.getNumberOfArguments parser.current.text = parser.mgenc.arguments.length
      rw [Signature.getNumberOfArguments, noOperator, noColon, onlySelf]
      rfl
  · next isKeyword =>
      obtain ⟨kw, middle, parts, signed⟩ := Process.bind_eq_silent rest
      obtain ⟨noOperator, -, counted⟩ := keywordPatternArguments_silent reads noLocals parts
      cases signed
      change Signature.getNumberOfArguments kw = middle.mgenc.arguments.length
      rw [Signature.getNumberOfArguments, noOperator, counted, onlySelf]
      exact Nat.add_comm _ _
  · next noIdentifier noKeyword =>
      have operator : parser.current.sym.isBinaryOperator = true := by
        have noIdentifier' : parser.current.sym ≠ .identifier := noIdentifier
        have noKeyword' : parser.current.sym ≠ .keyword := noKeyword
        simpa [Symbol.startsMessage, noIdentifier', noKeyword'] using starts
      have binary := reads.current.operator operator
      obtain ⟨selector, middle, selected, rest⟩ := Process.bind_eq_silent rest
      obtain ⟨rfl, rfl⟩ := binarySelector_silent operator selected
      obtain ⟨nothing, signed, isSigned, rest⟩ := Process.bind_eq_silent rest
      have noLocalsThere : signed.mgenc.locals = [] := by
        cases isSigned
        exact noLocals
      have signature : signed.mgenc.signature = parser.current.text := by
        cases isSigned
        rfl
      have arguments : signed.mgenc.arguments = ["self"] := by
        cases isSigned
        exact onlySelf
      obtain ⟨-, -, kept, declared⟩ := declareArgument_silent noLocalsThere rest
      rw [kept, declared, signature, arguments, Signature.getNumberOfArguments, binary]
      rfl

/-! ### Block headers -/

/-- The part of `nestedBlock` up to the signature. -/
def blockHeader (calls : Nat) : ParserM Unit := do
  modifyMgenc (·.addArgumentIfAbsent "$block self")
  let _ ← expect .newBlock
  if (← sym) = .colon then blockPattern calls
  let parser ← Process.read
  let signature := blockSignature parser.mgenc.arguments.length
  let _ ← symbolFor signature
  setSignature signature

/-- The part of `nestedBlock` behind the signature. -/
def blockCode (calls : Nat) : ParserM Unit := do
  blockContents calls
  let parser ← Process.read
  if !parser.mgenc.finished then
    modifyMgenc BytecodeGenerator.emitRETURNLOCAL
    modifyMgenc fun mgenc => { mgenc with finished := true }
  let _ ← expect .endBlock

theorem nestedBlock_eq (calls : Nat) :
    nestedBlock (calls + 1) = blockHeader calls >>= fun _ => blockCode calls := by
  rw [nestedBlock, blockHeader]
  simp only [Process.bind_assoc]
  congr
  funext _
  congr
  funext _
  congr
  funext s
  split
  · simp only [Process.bind_assoc]
    rfl
  · rfl

theorem blockArguments_silent (noLocals : parser.mgenc.locals = [])
    (ran : (blockArguments calls).run parser = ⟨.ok (), after, []⟩) :
    parser.mgenc.arguments <+: after.mgenc.arguments := by
  induction calls generalizing parser with
  | zero => cases ran
  | succ calls inductionHypothesis =>
      obtain ⟨accepted, first, expected, rest⟩ := Process.bind_eq_silent ran
      obtain ⟨-, rfl⟩ := expect_silent expected
      obtain ⟨name, middle, named, rest⟩ := Process.bind_eq_silent rest
      obtain ⟨nothing, second, added, rest⟩ := Process.bind_eq_silent rest
      have declared : declareArgument.run parser.behind = ⟨.ok (), second, []⟩ := by
        rw [declareArgument, Process.bind_of_silent named]
        exact added
      have noLocalsThere : parser.behind.mgenc.locals = [] := noLocals
      obtain ⟨-, noLocalsLater, -, arguments⟩ := declareArgument_silent noLocalsThere declared
      have longer : parser.mgenc.arguments <+: second.mgenc.arguments := by
        rw [arguments]
        exact List.prefix_append _ _
      obtain ⟨s, third, seen, rest⟩ := Process.bind_eq_silent rest
      cases seen
      split at rest
      · exact longer.trans (inductionHypothesis noLocalsLater rest)
      · cases rest
        exact longer

/-- A block header that is accepted declares the arguments its signature counts. -/
theorem blockHeader_counts {outer : List MethodGenerationContext}
    (isNew : parser.contexts = { blockMethod := true } :: outer)
    (ran : (blockHeader calls).run parser = ⟨.ok (), after, []⟩) :
    Signature.getNumberOfArguments after.mgenc.signature = after.mgenc.arguments.length := by
  obtain ⟨nothing, first, added, rest⟩ := Process.bind_eq_silent ran
  have isFirst : first.mgenc = { toScope := { arguments := ["$block self"] }, blockMethod := true } := by
    cases added
    change parser.mgenc.addArgumentIfAbsent "$block self" = _
    rw [mgenc, isNew]
    rfl
  obtain ⟨accepted, second, expected, rest⟩ := Process.bind_eq_silent rest
  obtain ⟨-, rfl⟩ := expect_silent expected
  obtain ⟨s, third, seen, rest⟩ := Process.bind_eq_silent rest
  cases seen
  have signs : ∀ parser : Parser, 1 ≤ parser.mgenc.arguments.length →
      (do let parser ← Process.read
          let signature := blockSignature parser.mgenc.arguments.length
          let _ ← symbolFor signature
          setSignature signature : ParserM Unit).run parser = ⟨.ok (), after, []⟩ →
      Signature.getNumberOfArguments after.mgenc.signature = after.mgenc.arguments.length := by
    intro parser some signed
    obtain ⟨count, isCount⟩ : ∃ count, parser.mgenc.arguments.length = count + 1 :=
      ⟨_, (Nat.sub_add_cancel some).symm⟩
    cases signed
    change Signature.getNumberOfArguments (blockSignature parser.mgenc.arguments.length) =
      parser.mgenc.arguments.length
    rw [isCount, getNumberOfArguments_blockSignature]
  have isSecond : first.behind.mgenc = first.mgenc := rfl
  split at rest
  · obtain ⟨nothing, fourth, pattern, rest⟩ := Process.bind_eq_silent rest
    obtain ⟨nothing, fifth, declared, bar⟩ := Process.bind_eq_silent pattern
    obtain ⟨accepted, sixth, expected, returned⟩ := Process.bind_eq_silent bar
    obtain ⟨-, rfl⟩ := expect_silent expected
    cases returned
    have noLocals : first.behind.mgenc.locals = [] := by rw [isSecond, isFirst]
    have longer := (blockArguments_silent noLocals declared).length_le
    rw [isSecond, isFirst] at longer
    exact signs fifth.behind longer rest
  · refine signs _ ?_ rest
    rw [isSecond, isFirst]
    exact Nat.le_refl 1

end Parser
end Somr.Compiler
