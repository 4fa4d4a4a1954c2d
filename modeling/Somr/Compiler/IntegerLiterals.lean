import Mathlib.Data.Nat.Digits.Defs
import Somr.Compiler.LexerCalls
import Somr.Compiler.ParserTermination
import Somr.Foundation.SignedWords

/-!
Owns integer literals: the value that the characters of a numeral denote, the calls of
the lexer that read them, and the Integer that `literalNumber` makes of them.

`strtoul` saturates at the largest 32-bit word and the casts keep a word's bits, so
a numeral that does not fit in 32 signed bits becomes an Integer of another value.
The parser peeks behind the first token of an expression, and the buffer in which
`Peek` keeps that token is the smaller one.
-/

namespace Somr.Compiler

open Somr.Foundation

/-! ### Values of numerals -/

/-- The value of decimal digits, most significant first. -/
def decimalValue (digits : List Char) : Nat :=
  Nat.ofDigits 10 (digits.reverse.map fun digit => digit.toNat - '0'.toNat)

/-- The value of a numeral with or without a minus. -/
def numeralValue (negative : Bool) (digits : List Char) : Int :=
  if negative then -(decimalValue digits : Int) else decimalValue digits

theorem foldl_digits (digits : List Char) (value : Nat) :
    digits.foldl (fun value digit => 10 * value + (digit.toNat - '0'.toNat)) value =
      10 ^ digits.length * value + decimalValue digits := by
  induction digits generalizing value with
  | nil => simp [decimalValue]
  | cons digit digits inductionHypothesis =>
      have first : decimalValue (digit :: digits) =
          decimalValue digits + 10 ^ digits.length * (digit.toNat - '0'.toNat) := by
        simp [decimalValue, Nat.ofDigits_append]
      rw [List.foldl_cons, inductionHypothesis, first, List.length_cons]
      ring

/-- `strtoul` reads the value of the digits, up to the largest word. -/
theorem strtoul_eq {digits : List Char} (areDigits : ∀ c ∈ digits, c.isDigit = true) :
    strtoul (String.ofList digits) = min (decimalValue digits) 4294967295 := by
  rw [strtoul, String.toList_ofList, List.takeWhile_eq_self_iff.mpr areDigits, foldl_digits,
    Nat.mul_zero, Nat.zero_add]

/-! ### The casts -/

theorem fits32_asInt32 (value : Int) : Fits32 (asInt32 value) := by
  unfold asInt32
  have width : (0 : Nat) < 4294967296 := by omega
  have low := Int.le_bmod (x := value) width
  have high := Int.bmod_lt (x := value) width
  exact ⟨by omega, by omega⟩

theorem asInt32_of_fits {value : Int} (fits : Fits32 value) : asInt32 value = value := by
  have low := fits.1
  have high := fits.2
  exact Int.bmod_eq_of_le (by omega) (by omega)

/-- The word negation of a cast is the cast of the negation. -/
theorem asInt32_neg (value : Int) : asInt32 (-asInt32 value) = asInt32 (-value) := by
  have moved : (0 - asInt32 value).bmod 4294967296 = (0 - value).bmod 4294967296 :=
    Int.sub_bmod_bmod
  rwa [Int.zero_sub, Int.zero_sub] at moved

/-- What `literalNumber` computes from the word that `strtoul` answers. -/
def literalValue (negative : Bool) (word : Nat) : Int :=
  if negative then asInt32 (-asInt32 word) else asInt32 word

theorem fits32_literalValue (negative : Bool) (word : Nat) :
    Fits32 (literalValue negative word) := by
  unfold literalValue
  split
  · exact fits32_asInt32 _
  · exact fits32_asInt32 _

/-- The value comes through saturation and casts exactly if it fits. -/
theorem literalValue_eq_iff (negative : Bool) (digits : List Char) :
    literalValue negative (min (decimalValue digits) 4294967295) =
        numeralValue negative digits ↔
      Fits32 (numeralValue negative digits) := by
  constructor
  · intro same
    exact same ▸ fits32_literalValue _ _
  · intro fits
    have low := fits.1
    have high := fits.2
    cases negative with
    | false =>
        simp only [numeralValue, literalValue, Bool.false_eq_true, if_false] at low high fits ⊢
        have unsaturated : min (decimalValue digits) 4294967295 = decimalValue digits := by omega
        rw [unsaturated]
        exact asInt32_of_fits fits
    | true =>
        simp only [numeralValue, literalValue, if_true] at low high fits ⊢
        have unsaturated : min (decimalValue digits) 4294967295 = decimalValue digits := by omega
        rw [unsaturated]
        exact (asInt32_neg _).trans (asInt32_of_fits fits)

/-! ### Reading a numeral -/

/-- A text goes on with a numeral, and `tail` is behind it. A minus is a token of its own. -/
structure NumeralAt (negative : Bool) (text digits tail : List Char) : Prop where
  nonempty : digits ≠ []
  areDigits : ∀ c ∈ digits, c.isDigit = true
  ends : (tail.headD nul).isDigit = false
  here : ∃ number, (if negative then nextToken text = .ok (Token.minus, number)
    else number = text) ∧ skipText number = some (digits ++ tail)

/-- `text` is left to read; its first token may have been peeked already. -/
def Lexer.StandsBefore (lexer : Lexer) (text : List Char) : Prop :=
  lexer.Remaining text ∨ ∃ earlier : Lexer, earlier.Remaining text ∧ earlier.peek = .ok lexer

/-- What the parser reads of a numeral, up to the token behind it. `expression` and
`assignments` call `Peek` when its first token is the current one; an operand is read
without. -/
def Lexer.readNumeral (lexer : Lexer) (peeks negative : Bool) :
    Except LexerStop (List Token) := do
  let first ← lexer.getSym
  let stays ← (if peeks then first.peek else .ok first)
  let number ← (if negative then stays.getSym else .ok stays)
  let behind ← number.getSym
  return (if negative then [first.token] else []) ++ [number.token, behind.token]

theorem digit_ne_newline {c : Char} (digit : c.isDigit = true) : c ≠ newline := by
  rintro rfl
  exact absurd digit (by decide)

theorem headD_lineOf {text : List Char} (ends : (text.headD nul).isDigit = false) :
    ((lineOf text).headD nul).isDigit = false := by
  cases text with
  | nil => exact ends
  | cons c text =>
      by_cases isNewline : c = newline
      · subst isNewline
        exact rfl
      · rw [lineOf_cons text isNewline]
        exact ends

theorem takeWhile_digits {digits tail : List Char} (areDigits : ∀ c ∈ digits, c.isDigit = true)
    (ends : (tail.headD nul).isDigit = false) :
    (digits ++ tail).takeWhile Char.isDigit = digits := by
  rw [List.takeWhile_append_of_pos areDigits]
  cases tail with
  | nil => exact List.append_nil digits
  | cons c others =>
      have noDigit : c.isDigit = false := ends
      rw [List.takeWhile_cons_of_neg (by simp [noDigit]), List.append_nil]

theorem lexeme_digits {digits line : List Char} (nonempty : digits ≠ [])
    (areDigits : ∀ c ∈ digits, c.isDigit = true) (ends : (line.headD nul).isDigit = false) :
    tokenOf (digits ++ line) = .ok ⟨.integer, digits, digits.length⟩ := by
  have taken := takeWhile_digits areDigits ends
  cases digits with
  | nil => exact absurd rfl nonempty
  | cons c others =>
      have digit := areDigits c List.mem_cons_self
      have noLetter : c.isAlpha = false := by
        by_contra alpha
        have letter := Lexer.large_of_isAlpha (by simpa using alpha)
        have number := Lexer.range_of_isDigit digit
        omega
      have noPrimitive : Lexer.primitiveText.isPrefixOf (c :: others ++ line) = false := by
        have other : 'p' ≠ c := by
          rintro rfl
          exact absurd digit (by decide)
        simp [Lexer.primitiveText, List.isPrefixOf, other]
      obtain ⟨noQuote, noPunctuation, noColon, noDash, noOp, -⟩ := Lexer.digit_cases digit
      rw [tokenOf, lexeme, noPrimitive, taken]
      simp only [List.cons_append, List.headD_cons, noQuote, noPunctuation, noColon, noDash, noOp,
        noLetter, digit, Bool.false_eq_true, if_false, if_true]

theorem cString_digits {digits : List Char} (areDigits : ∀ c ∈ digits, c.isDigit = true) :
    cString digits = digits := by
  apply List.takeWhile_eq_self_iff.mpr
  intro c there
  have number := Lexer.range_of_isDigit (areDigits c there)
  apply decide_eq_true
  rintro rfl
  exact absurd number.1 (by decide)

/-- `GetSym` reads the digits whole, or the text buffer is too small for them. -/
theorem nextToken_digits {text digits tail : List Char} (nonempty : digits ≠ [])
    (areDigits : ∀ c ∈ digits, c.isDigit = true) (ends : (tail.headD nul).isDigit = false)
    (skipped : skipText text = some (digits ++ tail)) :
    nextToken text = if digits.length < bufsiz then
      .ok (⟨.integer, String.ofList digits⟩, tail) else .error .overflow := by
  have line : lineOf (digits ++ tail) = digits ++ lineOf tail :=
    List.takeWhile_append_of_pos fun c there => decide_eq_true (digit_ne_newline (areDigits c there))
  have scanned := lexeme_digits nonempty areDigits (headD_lineOf ends)
  rw [nextToken, skipped]
  simp only [readToken, line, scanned, bind, Except.bind, pure, Except.pure, List.drop_left,
    cString_digits areDigits]

namespace Lexer

theorem StandsBefore.getSym {lexer : Lexer} {text : List Char} (stands : lexer.StandsBefore text) :
    Calls lexer.getSym (nextToken text) := by
  obtain remaining | ⟨earlier, remaining, peeked⟩ := stands
  · exact remaining.getSym
  · have call := remaining.getSym
    obtain ⟨ahead, called, short, -⟩ := peek_eq_ok peeked
    obtain ⟨after, alsoPeeked, -, -, next, replayed, sameToken, keeps⟩ := peek_spec called short
    obtain rfl : lexer = after := Except.ok.inj (peeked.symm.trans alsoPeeked)
    rw [called] at call
    cases outcome : nextToken text with
    | error reason =>
        rw [outcome] at call
        cases call
    | ok result =>
        rw [outcome] at call
        obtain ⟨other, same, isToken, there⟩ := call
        obtain rfl := Except.ok.inj same
        exact ⟨next, replayed, sameToken.trans isToken, keeps _ there⟩

/-- A call returns exactly if the text has a next token. -/
theorem StandsBefore.getSym_ok {lexer after : Lexer} {text : List Char} (stands : lexer.StandsBefore text)
    (called : lexer.getSym = .ok after) :
    ∃ behind, nextToken text = .ok (after.token, behind) ∧ after.Remaining behind := by
  have call := stands.getSym
  cases outcome : nextToken text with
  | error reason =>
      rw [outcome, called] at call
      cases call
  | ok result =>
      rw [outcome, called] at call
      obtain ⟨other, same, isToken, there⟩ := call
      obtain rfl := Except.ok.inj same
      exact ⟨result.2, by rw [isToken], there⟩

theorem StandsBefore.getSym_of_nextToken {lexer : Lexer} {text behind : List Char} {token : Token}
    (stands : lexer.StandsBefore text) (next : nextToken text = .ok (token, behind)) :
    ∃ after, lexer.getSym = .ok after ∧ after.token = token ∧ after.Remaining behind := by
  have call := stands.getSym
  rwa [next] at call

/-- `Peek` returns where the current text is short and there is a next token. -/
theorem Remaining.peek_ok {lexer after : Lexer} {text : List Char}
    (remaining : lexer.Remaining text) (peeked : lexer.peek = .ok after) :
    lexer.getText.length < 256 ∧ after.token = lexer.token ∧ after.StandsBefore text := by
  obtain ⟨ahead, called, short, -⟩ := peek_eq_ok peeked
  obtain ⟨other, alsoPeeked, -, sameToken, -⟩ := peek_spec called short
  obtain rfl := Except.ok.inj (peeked.symm.trans alsoPeeked)
  exact ⟨short, sameToken, .inr ⟨lexer, remaining, peeked⟩⟩

theorem Remaining.peek_of_nextToken {lexer : Lexer} {text behind : List Char} {token : Token}
    (remaining : lexer.Remaining text) (short : lexer.getText.length < 256)
    (next : nextToken text = .ok (token, behind)) :
    ∃ after, lexer.peek = .ok after ∧ after.token = lexer.token ∧ after.StandsBefore text := by
  obtain ⟨ahead, called, -⟩ := StandsBefore.getSym_of_nextToken (.inl remaining) next
  obtain ⟨after, peeked, -⟩ := peek_spec called short
  exact ⟨after, peeked, (remaining.peek_ok peeked).2⟩

end Lexer

/-! ### From the source to the constant -/

/-- The tokens of a numeral. -/
def numeralTokens (negative : Bool) (number : Token) : List Token :=
  if negative then [Token.minus, number] else [number]

theorem bind_ok {Stop First Value : Type} {first : Except Stop First}
    {rest : First → Except Stop Value} {value : Value} :
    (first >>= rest) = .ok value ↔ ∃ between, first = .ok between ∧ rest between = .ok value := by
  cases first with
  | error reason => exact ⟨nofun, fun ⟨_, isOk, _⟩ => nomatch isOk⟩
  | ok between =>
      constructor
      · exact fun ends => ⟨between, rfl, ends⟩
      · rintro ⟨_, same, ends⟩
        cases same
        exact ends

theorem getText_of_token {lexer : Lexer} {sym : Symbol} {chars : List Char}
    (isToken : lexer.token = ⟨sym, String.ofList chars⟩) : lexer.getText = chars := by
  have text : String.ofList lexer.getText = String.ofList chars := congrArg Token.text isToken
  simpa using congrArg String.toList text

/-- In front of its digits a numeral is read exactly if the text buffer is large enough. -/
theorem getSym_digits {lexer after : Lexer} {text digits tail : List Char}
    (stands : lexer.StandsBefore text) (called : lexer.getSym = .ok after)
    (next : nextToken text = if digits.length < bufsiz then
      .ok (⟨.integer, String.ofList digits⟩, tail) else .error .overflow) :
    digits.length < bufsiz ∧ after.token = ⟨.integer, String.ofList digits⟩ ∧
      after.Remaining tail := by
  obtain ⟨behind, found, there⟩ := stands.getSym_ok called
  rw [next] at found
  split at found
  · next short =>
      obtain ⟨isToken, rfl⟩ := Prod.mk.inj (Except.ok.inj found)
      exact ⟨short, isToken.symm, there⟩
  · cases found

/-- A numeral that is read comes with the token behind it. -/
theorem readNumeral_ok {lexer : Lexer} {text digits tail : List Char} {peeks negative : Bool}
    {tokens : List Token} (stands : lexer.StandsBefore text)
    (numeral : NumeralAt negative text digits tail)
    (read : lexer.readNumeral peeks negative = .ok tokens) :
    digits.length < bufsiz ∧ (peeks = true → negative = false → digits.length < 256) ∧
      ∃ token rest, nextToken tail = .ok (token, rest) ∧
        tokens = numeralTokens negative ⟨.integer, String.ofList digits⟩ ++ [token] := by
  obtain ⟨number, here, skipped⟩ := numeral.here
  have next := nextToken_digits numeral.nonempty numeral.areDigits numeral.ends skipped
  obtain ⟨first, calledFirst, read⟩ := bind_ok.mp read
  obtain ⟨stays, calledPeek, read⟩ := bind_ok.mp read
  obtain ⟨last, calledNumber, read⟩ := bind_ok.mp read
  obtain ⟨behind, calledBehind, read⟩ := bind_ok.mp read
  obtain rfl := Except.ok.inj read
  cases negative with
  | false =>
      obtain rfl : number = text := here
      obtain rfl := Except.ok.inj calledNumber
      obtain ⟨short, isNumber, there⟩ := getSym_digits stands calledFirst next
      have looked : (peeks = true → digits.length < 256) ∧ stays.token = first.token ∧
          stays.StandsBefore tail := by
        cases peeks with
        | false =>
            obtain rfl := Except.ok.inj calledPeek
            exact ⟨nofun, rfl, .inl there⟩
        | true =>
            obtain ⟨shortText, same, stands⟩ := there.peek_ok calledPeek
            rw [getText_of_token isNumber] at shortText
            exact ⟨fun _ => shortText, same, stands⟩
      obtain ⟨shortText, same, standsBehind⟩ := looked
      obtain ⟨rest, nextBehind, -⟩ := standsBehind.getSym_ok calledBehind
      refine ⟨short, fun isPeek _ => shortText isPeek, behind.token, rest, nextBehind, ?_⟩
      rw [same, isNumber]
      rfl
  | true =>
      have nextMinus : nextToken text = .ok (Token.minus, number) := here
      obtain ⟨_, alsoNext, there⟩ := stands.getSym_ok calledFirst
      obtain ⟨isMinus, rfl⟩ := Prod.mk.inj (Except.ok.inj (nextMinus.symm.trans alsoNext))
      have looked : stays.StandsBefore number := by
        cases peeks with
        | false => exact Except.ok.inj calledPeek ▸ .inl there
        | true => exact (there.peek_ok calledPeek).2.2
      obtain ⟨short, isNumber, thereBehind⟩ := getSym_digits looked calledNumber next
      obtain ⟨rest, nextBehind, -⟩ := Lexer.StandsBefore.getSym_ok (.inl thereBehind) calledBehind
      refine ⟨short, nofun, behind.token, rest, nextBehind, ?_⟩
      rw [← isMinus, isNumber]
      rfl

/-- A numeral that is short enough is read, if there is a token behind it. -/
theorem readNumeral_of_short {lexer : Lexer} {text digits tail rest : List Char}
    {peeks negative : Bool} {token : Token} (stands : lexer.StandsBefore text)
    (numeral : NumeralAt negative text digits tail) (short : digits.length < bufsiz)
    (shortText : peeks = true → negative = false → digits.length < 256)
    (nextBehind : nextToken tail = .ok (token, rest)) :
    lexer.readNumeral peeks negative =
      .ok (numeralTokens negative ⟨.integer, String.ofList digits⟩ ++ [token]) := by
  obtain ⟨number, here, skipped⟩ := numeral.here
  have next := nextToken_digits numeral.nonempty numeral.areDigits numeral.ends skipped
  rw [if_pos short] at next
  cases negative with
  | false =>
      obtain rfl : number = text := here
      obtain ⟨first, calledFirst, isNumber, there⟩ := stands.getSym_of_nextToken next
      have looks : ∃ stays, (if peeks then first.peek else .ok first) = .ok stays ∧
          stays.token = first.token ∧ stays.StandsBefore tail := by
        cases peeks with
        | false => exact ⟨first, rfl, rfl, .inl there⟩
        | true =>
            have shortFirst := shortText rfl rfl
            rw [← getText_of_token isNumber] at shortFirst
            exact there.peek_of_nextToken shortFirst nextBehind
      obtain ⟨stays, looked, same, standsBehind⟩ := looks
      obtain ⟨behind, calledBehind, isBehind, -⟩ := standsBehind.getSym_of_nextToken nextBehind
      refine bind_ok.mpr ⟨first, calledFirst, bind_ok.mpr ⟨stays, looked, bind_ok.mpr
        ⟨stays, rfl, bind_ok.mpr ⟨behind, calledBehind, ?_⟩⟩⟩⟩
      rw [same, isNumber, isBehind]
      rfl
  | true =>
      have nextMinus : nextToken text = .ok (Token.minus, number) := here
      obtain ⟨first, calledFirst, isMinus, there⟩ := stands.getSym_of_nextToken nextMinus
      have looks : ∃ stays, (if peeks then first.peek else .ok first) = .ok stays ∧
          stays.StandsBefore number := by
        cases peeks with
        | false => exact ⟨first, rfl, .inl there⟩
        | true =>
            have shortFirst : first.getText.length < 256 := by
              have isMinus : first.token = ⟨.minus, String.ofList ['-']⟩ := isMinus
              rw [getText_of_token isMinus]
              decide
            obtain ⟨stays, looked, -, stands⟩ := there.peek_of_nextToken shortFirst next
            exact ⟨stays, looked, stands⟩
      obtain ⟨stays, looked, standsNumber⟩ := looks
      obtain ⟨last, calledNumber, isNumber, thereBehind⟩ := standsNumber.getSym_of_nextToken next
      obtain ⟨behind, calledBehind, isBehind, -⟩ :=
        Lexer.StandsBefore.getSym_of_nextToken (.inl thereBehind) nextBehind
      refine bind_ok.mpr ⟨first, calledFirst, bind_ok.mpr ⟨stays, looked, bind_ok.mpr
        ⟨last, calledNumber, bind_ok.mpr ⟨behind, calledBehind, ?_⟩⟩⟩⟩
      rw [isMinus, isNumber, isBehind]
      rfl

/-- `literalNumber` allocates an Integer of that value and pushes it, or it reports an
error. It allocates no other number. -/
def Parser.Denotes (parser : Parser) (tokens : List Token) (value : Int) : Prop :=
  (∃ after, literalNumber.run { parser with tokens := tokens } = ⟨.ok (), after, []⟩ ∧
    after.objects = parser.objects ++ [.integer value] ∧
    after.mgenc = parser.mgenc.perform [.addLiteralIfAbsent (.object parser.objects.length),
      .emit (.pushConstant (.object parser.objects.length))]) ∨
  (literalNumber.run { parser with tokens := tokens }).events ≠ []

/-- What the compilation allocates for a numeral. -/
def numeralGenerator (negative : Bool) (digits : String) : Generator := fun base =>
  ⟨[.addLiteralIfAbsent (.object base), .emit (.pushConstant (.object base))],
    [.integer (literalValue negative (strtoul digits))], []⟩

theorem literalNumber_run (parser : Parser) (negative : Bool) (digits : String)
    (more : List Token) :
    Parser.literalNumber.run
        { parser with tokens := numeralTokens negative ⟨.integer, digits⟩ ++ more } =
      ⟨.ok (), (parser.extend (numeralGenerator negative digits)).reading more, []⟩ := by
  unfold numeralGenerator
  cases negative with
  | false =>
      simp only [literalValue, Bool.false_eq_true, if_false]
      rfl
  | true =>
      simp only [literalValue, if_true]
      rfl

theorem denotes_iff (parser : Parser) (negative : Bool) (digits : String) (more : List Token)
    (value : Int) :
    parser.Denotes (numeralTokens negative ⟨.integer, digits⟩ ++ more) value ↔
      literalValue negative (strtoul digits) = value := by
  have ran := literalNumber_run parser negative digits more
  constructor
  · rintro (⟨after, ends, allocated, _⟩ | reported)
    · rw [ran] at ends
      cases ends
      have last := List.append_cancel_left allocated
      simpa [numeralGenerator] using last
    · rw [ran] at reported
      exact absurd rfl reported
  · rintro rfl
    exact .inl ⟨_, ran, rfl, rfl⟩

/-- A numeral in literal position, read and compiled: its value is pushed, or an error
reported, exactly if the value fits in 32 bits, the text in the lexer's buffers, and
the token behind the numeral can be read. -/
theorem integer_literals_iff (parser : Parser) (lexer : Lexer) (peeks negative : Bool)
    (text digits tail : List Char) (more : List Token) (stands : lexer.StandsBefore text)
    (numeral : NumeralAt negative text digits tail) :
    (∃ tokens, lexer.readNumeral peeks negative = .ok tokens ∧
        parser.Denotes (tokens ++ more) (numeralValue negative digits)) ↔
      Fits32 (numeralValue negative digits) ∧ digits.length < 8192 ∧
        (peeks = true → negative = false → digits.length < 256) ∧
          ∃ token rest, nextToken tail = .ok (token, rest) := by
  have denotes : ∀ others, parser.Denotes
      (numeralTokens negative ⟨.integer, String.ofList digits⟩ ++ others)
      (numeralValue negative digits) ↔ Fits32 (numeralValue negative digits) := by
    intro others
    rw [denotes_iff, strtoul_eq numeral.areDigits, literalValue_eq_iff]
  constructor
  · rintro ⟨tokens, read, denoted⟩
    obtain ⟨short, shortText, token, rest, nextBehind, rfl⟩ := readNumeral_ok stands numeral read
    rw [List.append_assoc, denotes] at denoted
    exact ⟨denoted, short, shortText, token, rest, nextBehind⟩
  · rintro ⟨fits, short, shortText, token, rest, nextBehind⟩
    refine ⟨_, readNumeral_of_short stands numeral short shortText nextBehind, ?_⟩
    rw [List.append_assoc, denotes]
    exact fits

/-- A lexer in front of a line. -/
def lexerOn (line : List Char) : Lexer := { Lexer.zeroed with buf := line }

theorem lexerOn_standsBefore {line : List Char} (oneLine : newline ∉ line) :
    (lexerOn line).StandsBefore line :=
  .inl ⟨rfl, Nat.zero_le _, oneLine, (List.append_nil line).symm⟩

theorem smallest_numeral :
    NumeralAt true "-2147483648.".toList "2147483648".toList ['.'] := by
  refine ⟨by decide, List.all_eq_true.mp (by decide), by decide, "2147483648.".toList, ?_, ?_⟩
  · exact nextToken_token "2147483648.".toList (by decide)
  · exact skipText_token "147483648.".toList (by decide)

theorem nextToken_period : nextToken ['.'] = .ok (⟨.period, "."⟩, []) :=
  nextToken_token [] (by decide)

theorem integer_literals_smallest :
    ∃ tokens, (lexerOn "-2147483648.".toList).readNumeral true true = .ok tokens ∧
      Parser.Denotes { tokens := [] } (tokens ++ []) (numeralValue true "2147483648".toList) :=
  (integer_literals_iff { tokens := [] } (lexerOn "-2147483648.".toList) true true
    "-2147483648.".toList "2147483648".toList ['.'] [] (lexerOn_standsBefore (by decide))
    smallest_numeral).mpr ⟨by decide, by decide, nofun, _, _, nextToken_period⟩

theorem large_numeral : NumeralAt false "2147483648.".toList "2147483648".toList ['.'] := by
  refine ⟨by decide, List.all_eq_true.mp (by decide), by decide, "2147483648.".toList, rfl, ?_⟩
  exact skipText_token "147483648.".toList (by decide)

/-- `2147483648` becomes the Integer -2147483648, without an error. -/
theorem literal_too_large :
    Parser.literalNumber.run { tokens := [⟨.integer, "2147483648"⟩] } =
        ⟨.ok (), (Parser.extend { tokens := [] } fun base =>
          ⟨[.addLiteralIfAbsent (.object base), .emit (.pushConstant (.object base))],
            [.integer (-2147483648)], []⟩), []⟩ ∧
      numeralValue false "2147483648".toList = 2147483648 ∧
      ¬ ∃ tokens, (lexerOn "2147483648.".toList).readNumeral true false = .ok tokens ∧
        Parser.Denotes { tokens := [] } (tokens ++ [])
          (numeralValue false "2147483648".toList) := by
  have value : numeralValue false "2147483648".toList = 2147483648 := by decide
  refine ⟨by decide +kernel, value, ?_⟩
  rintro ⟨tokens, read, denoted⟩
  have stands : (lexerOn "2147483648.".toList).StandsBefore "2147483648.".toList :=
    lexerOn_standsBefore (by decide)
  obtain ⟨-, -, token, rest, -, rfl⟩ := readNumeral_ok stands large_numeral read
  rw [List.append_assoc, denotes_iff, strtoul_eq large_numeral.areDigits, literalValue_eq_iff,
    value] at denoted
  exact absurd denoted (by decide)

end Somr.Compiler
