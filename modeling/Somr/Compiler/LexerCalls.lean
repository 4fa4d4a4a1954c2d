import Somr.Compiler.LexerText

/-!
Owns the runs of the lexer on any input: which inputs every call stays inside,
what a missing final newline changes, and what `Peek` leaves as it was.

`Lexed` says how far a text can be read. It follows the text alone, so it says
for which inputs a run goes well without mentioning the lexer.
-/

namespace Somr.Compiler

open Lexer (startsToken)
open Somr.Foundation

/-! ### Texts that can be read -/

/-- Why nothing more is read: the text is used up, its next character begins no
token, or its next token does not fit into the text buffer. -/
inductive Ending where
  | exhausted
  | unknown
  | overflow
deriving DecidableEq, Repr

/-- Blanks, closed comments and tokens up to the ending. The text behind each
comment has the property `behind`. -/
inductive Lexed (behind : List Char → Prop) : List Char → Ending → Prop
  | exhausted : Lexed behind [] .exhausted
  | blank (c : Char) (text : List Char) (ending : Ending) (blank : isspace c = true)
      (others : Lexed behind text ending) : Lexed behind (c :: text) ending
  | comment (inside text : List Char) (ending : Ending) (closed : doubleQuote ∉ inside)
      (next : behind text) (others : Lexed behind text ending) :
      Lexed behind (doubleQuote :: (inside ++ doubleQuote :: text)) ending
  | token (text : List Char) (token : Lexeme) (ending : Ending) (begins : Begins text token)
      (fits : token.chars.length < bufsiz) (others : Lexed behind (text.drop token.width) ending) :
      Lexed behind text ending
  | unknown (c : Char) (text : List Char) (starts : startsToken c = true)
      (unknown : isKnown c = false) : Lexed behind (c :: text) .unknown
  | overflow (text : List Char) (token : Lexeme) (begins : Begins text token)
      (long : bufsiz ≤ token.chars.length) : Lexed behind text .overflow

/-- Every comment and every string that is reached is closed, a string on its
line. -/
def Closed (text : List Char) : Prop := ∃ ending, Lexed (fun _ => True) text ending

/-- A closed text whose tokens fit into the text buffer. -/
def Readable (text : List Char) : Prop :=
  ∃ ending, ending ≠ .overflow ∧ Lexed (fun _ => True) text ending

/-- The text goes on with another line, or at once with a token. -/
def Settled (text : List Char) : Prop := newline ∈ text ∨ ∀ c ∈ text.head?, startsToken c = true

/-! ### One call on a text -/

theorem nextToken_blank {c : Char} (text : List Char) (blank : isspace c = true) :
    nextToken (c :: text) = nextToken text := by
  rw [nextToken, skipText_blank text blank, ← nextToken]

theorem nextToken_token {c : Char} (text : List Char) (starts : startsToken c = true) :
    nextToken (c :: text) = readToken (c :: text) := by
  rw [nextToken, skipText_token text starts]

theorem nextToken_exhausted : nextToken [] = .ok (Token.endOfInput, []) := by
  rw [nextToken, skipText]
  rfl

theorem nextToken_comment {inside text : List Char} (closed : doubleQuote ∉ inside)
    (settled : Settled text) :
    nextToken (doubleQuote :: (inside ++ doubleQuote :: text)) = nextToken text := by
  rw [nextToken, skipText_comment text closed]
  by_cases goesOn : newline ∈ text
  · rw [if_pos goesOn, ← nextToken]
  · rw [if_neg goesOn]
    cases text with
    | nil => exact nextToken_exhausted.symm
    | cons c text =>
        have starts := (settled.resolve_left goesOn) c rfl
        exact (nextToken_token text starts).symm

theorem isKnown_of_skipped {c : Char} (skipped : startsToken c = false) : isKnown c = false := by
  cases known : isKnown c with
  | false => rfl
  | true => exact absurd (startsToken_of_known known) (by simp [skipped])

theorem readToken_unknown {c : Char} (text : List Char) (oneLine : c ≠ newline)
    (unknown : isKnown c = false) :
    readToken (c :: text) = .ok (⟨.none, String.ofList (cString [c])⟩, c :: text) := by
  have noString : c ≠ quote := by
    rintro rfl
    exact absurd unknown (by decide)
  have scanned : tokenOf (lineOf (c :: text)) = .ok ⟨.none, [c], 0⟩ := by
    rw [tokenOf, lineOf_cons text oneLine, List.headD_cons, if_neg noString,
      lexeme_of_unknown _ unknown]
  rw [readToken, scanned]
  rfl

/-- Behind a comment of the last line the loop stops where it stands. -/
theorem nextToken_unsettled {inside text : List Char} (closed : doubleQuote ∉ inside)
    (unsettled : ¬ Settled text) :
    ∃ c more, text = c :: more ∧ startsToken c = false ∧ isKnown c = false ∧
      nextToken (doubleQuote :: (inside ++ doubleQuote :: text)) =
        .ok (⟨.none, String.ofList (cString [c])⟩, text) := by
  simp only [Settled, not_or, not_forall] at unsettled
  obtain ⟨last, c, first, skipped⟩ := unsettled
  rw [Bool.not_eq_true] at skipped
  cases text with
  | nil => exact absurd first (by simp)
  | cons d more =>
      have same : d = c := by simpa using first
      subst same
      have oneLine : d ≠ newline := fun same => last (same ▸ List.mem_cons_self)
      refine ⟨d, more, rfl, skipped, isKnown_of_skipped skipped, ?_⟩
      rw [nextToken, skipText_comment _ closed, if_neg last]
      exact readToken_unknown more oneLine (isKnown_of_skipped skipped)

theorem nextToken_unclosed {text : List Char} (unclosed : doubleQuote ∉ text) :
    nextToken (doubleQuote :: text) = .error .outside := by
  rw [nextToken, skipText_unclosed unclosed]

theorem nextToken_begins {text : List Char} {token : Lexeme} (begins : Begins text token) :
    nextToken text = if token.chars.length < bufsiz then
      .ok (⟨token.sym, String.ofList (cString token.chars)⟩, text.drop token.width)
      else .error .overflow := by
  obtain ⟨scanned, _, c, more, rfl, starts⟩ := begins.tokenOf
  rw [nextToken_token more starts, readToken, scanned]
  rfl

theorem nextToken_unknown {c : Char} (text : List Char) (starts : startsToken c = true)
    (unknown : isKnown c = false) :
    nextToken (c :: text) = .ok (⟨.none, String.ofList (cString [c])⟩, c :: text) := by
  rw [nextToken_token text starts]
  exact readToken_unknown text (startsToken_ne_newline starts) unknown

theorem nextToken_open_string {c : Char} {text : List Char} (starts : startsToken c = true)
    (scanned : tokenOf (lineOf (c :: text)) = .error .outside) :
    nextToken (c :: text) = .error .outside := by
  rw [nextToken_token text starts, readToken, scanned]
  rfl

/-! ### Successive calls on a text -/

theorem nextTokens_congr {text other : List Char} (same : nextToken text = nextToken other)
    (count : Nat) : nextTokens count text = nextTokens count other := by
  cases count with
  | zero => rfl
  | succ count => rw [nextTokens, nextTokens, same]

theorem nextTokens_succ {text behind : List Char} {token : Token} (count : Nat)
    (called : nextToken text = .ok (token, behind)) :
    nextTokens (count + 1) text = (nextTokens count behind).map (token :: ·) := by
  simp only [nextTokens, called, bind, Except.bind, pure, Except.pure]
  cases nextTokens count behind <;> rfl

theorem nextTokens_error {text : List Char} {reason : LexerStop} (count : Nat)
    (called : nextToken text = .error reason) : nextTokens (count + 1) text = .error reason := by
  rw [nextTokens, called]
  rfl

/-- Every call on a readable text succeeds and leaves a readable text. -/
theorem Lexed.step {text : List Char} {ending : Ending} (lexed : Lexed (fun _ => True) text ending)
    (fits : ending ≠ .overflow) :
    ∃ token behind, nextToken text = .ok (token, behind) ∧ Lexed (fun _ => True) behind ending := by
  induction lexed with
  | exhausted => exact ⟨_, [], nextToken_exhausted, .exhausted⟩
  | blank c text ending blank others hypothesis =>
      rw [nextToken_blank text blank]
      exact hypothesis fits
  | comment inside text ending closed next others hypothesis =>
      by_cases settled : Settled text
      · rw [nextToken_comment closed settled]
        exact hypothesis fits
      · obtain ⟨c, more, _, _, _, called⟩ := nextToken_unsettled closed settled
        exact ⟨_, text, called, others⟩
  | token text token ending begins short others hypothesis =>
      exact ⟨_, _, by rw [nextToken_begins begins, if_pos short], others⟩
  | unknown c text starts unknown =>
      exact ⟨_, _, nextToken_unknown text starts unknown, .unknown c text starts unknown⟩
  | overflow text token begins long => exact absurd rfl fits

/-- A text on which every number of calls succeeds is readable. -/
theorem readable_of_nextTokens {text : List Char}
    (succeeds : ∀ count, ∃ tokens, nextTokens count text = .ok tokens) : Readable text := by
  induction length : text.length using Nat.strong_induction_on generalizing text with
  | _ size hypothesis =>
      have stops : ∀ {reason}, nextToken text ≠ .error reason := by
        intro reason stopped
        obtain ⟨tokens, ends⟩ := succeeds 1
        rw [nextTokens_error 0 stopped] at ends
        cases ends
      have goesOn : ∀ {token behind}, nextToken text = .ok (token, behind) →
          behind.length < size → Readable behind := by
        intro token behind called shorter
        refine hypothesis behind.length shorter (fun count => ?_) rfl
        obtain ⟨tokens, ends⟩ := succeeds (count + 1)
        rw [nextTokens_succ count called] at ends
        cases later : nextTokens count behind with
        | error reason => simp [later, Except.map] at ends
        | ok others => exact ⟨others, rfl⟩
      have same : ∀ {other}, nextToken text = nextToken other → other.length < size →
          Readable other := by
        intro other alike shorter
        refine hypothesis other.length shorter (fun count => ?_) rfl
        rw [← nextTokens_congr alike]
        exact succeeds count
      subst length
      induction text using text_cases with
      | exhausted => exact ⟨.exhausted, by decide, .exhausted⟩
      | blank c more blank =>
          obtain ⟨ending, fits, lexed⟩ := same (nextToken_blank more blank) (by simp)
          exact ⟨ending, fits, .blank c more ending blank lexed⟩
      | comment inside more closed =>
          have shorter : more.length < (doubleQuote :: (inside ++ doubleQuote :: more)).length := by
            simp only [List.length_cons, List.length_append]
            omega
          have readable : Readable more := by
            by_cases settled : Settled more
            · exact same (nextToken_comment closed settled) shorter
            · obtain ⟨c, others, _, _, _, called⟩ := nextToken_unsettled closed settled
              exact goesOn called shorter
          obtain ⟨ending, fits, lexed⟩ := readable
          exact ⟨ending, fits, .comment inside more ending closed trivial lexed⟩
      | unclosed more unclosed => exact absurd (nextToken_unclosed unclosed) stops
      | starts c more starts =>
          rcases begins_or c more starts with ⟨token, begins⟩ | ⟨rfl, scanned⟩ | ⟨unknown, _⟩
          · have called := nextToken_begins begins
            by_cases short : token.chars.length < bufsiz
            · rw [if_pos short] at called
              have width := begins.tokenOf.2.1.positive
              have shorter : ((c :: more).drop token.width).length < (c :: more).length := by
                simp only [List.length_drop, List.length_cons]
                omega
              obtain ⟨ending, fits, lexed⟩ := goesOn called shorter
              exact ⟨ending, fits, .token _ token ending begins short lexed⟩
            · rw [if_neg short] at called
              exact absurd called stops
          · exact absurd (nextToken_open_string starts scanned) stops
          · exact ⟨.unknown, by decide, .unknown c more starts unknown⟩

/-! ### Runs -/

/-- The calls the parser makes. -/
inductive Call where
  | getSym
  | peek
deriving DecidableEq, Repr

namespace Lexer

def call (lexer : Lexer) : Call → Except LexerStop Lexer
  | .getSym => lexer.getSym
  | .peek => lexer.peek

def calls : List Call → Lexer → Except LexerStop Lexer
  | [], lexer => .ok lexer
  | next :: others, lexer => do
      let after ← lexer.call next
      calls others after

/-- What every call keeps, every run of calls keeps. -/
theorem calls_keep {invariant : Lexer → Prop}
    (keeps : ∀ {lexer after : Lexer} (next : Call), invariant lexer →
      lexer.call next = .ok after → invariant after)
    {list : List Call} {lexer final : Lexer} (start : invariant lexer)
    (runs : lexer.calls list = .ok final) : invariant final := by
  induction list generalizing lexer with
  | nil => exact Except.ok.inj runs ▸ start
  | cons next others hypothesis =>
      rw [calls] at runs
      cases called : lexer.call next with
      | error reason => simp [called, bind, Except.bind] at runs
      | ok after =>
          rw [called] at runs
          exact hypothesis (keeps next start called) runs

/-- What `Peek` does to the text buffers does not matter to the text that is
left. -/
def unpeek (lexer : Lexer) : Lexer := { lexer with peekDone := false }

theorem peek_eq_ok {lexer after : Lexer} (peeked : lexer.peek = .ok after) :
    ∃ ahead, lexer.getSym = .ok ahead ∧ lexer.getText.length < 256 ∧
      after = { ahead with
        nextSym := ahead.sym, nextSymc := ahead.symc
        nextText := ahead.getText ++ nul :: ahead.nextText.drop (ahead.getText.length + 1)
        sym := lexer.sym, symc := lexer.symc, peekDone := true
        text := lexer.getText ++ nul :: ahead.text.drop (lexer.getText.length + 1) } := by
  unfold peek at peeked
  simp only at peeked
  split at peeked
  · next short =>
      cases called : lexer.getSym with
      | error reason => simp [called, bind, Except.bind] at peeked
      | ok ahead =>
          have fits : lexer.getText.length < bufsiz := Nat.lt_trans short (by decide)
          simp only [called, bind, Except.bind, writeText, if_pos fits, Except.ok.injEq] at peeked
          exact ⟨ahead, rfl, short, peeked.symm⟩
  · cases peeked

theorem getSym_of_peeked {lexer : Lexer} (peeked : lexer.peekDone = true) :
    lexer.getSym = .ok lexer.replay := by
  rw [getSym, if_pos peeked]

/-- What is left to read is readable, whether or not a token of it was peeked. -/
def Sound (lexer : Lexer) : Prop := ∃ text, lexer.unpeek.Remaining text ∧ Readable text

theorem Sound.getSym {lexer : Lexer} (sound : lexer.Sound) :
    ∃ after, lexer.getSym = .ok after ∧ after.Sound := by
  obtain ⟨text, remaining, ending, fits, lexed⟩ := sound
  cases peeked : lexer.peekDone with
  | true =>
      refine ⟨lexer.replay, getSym_of_peeked peeked, text, ?_, ending, fits, lexed⟩
      exact ⟨rfl, remaining.inside, remaining.oneLine, remaining.here⟩
  | false =>
      have same : lexer.unpeek = lexer := by
        rw [unpeek, ← peeked]
      rw [same] at remaining
      obtain ⟨token, behind, called, others⟩ := lexed.step fits
      have call := remaining.getSym
      rw [called] at call
      obtain ⟨after, got, _, there⟩ := call
      refine ⟨after, got, behind, ?_, ending, fits, others⟩
      exact ⟨rfl, there.inside, there.oneLine, there.here⟩

theorem Sound.call {lexer after : Lexer} (next : Call) (sound : lexer.Sound)
    (called : lexer.call next = .ok after) : after.Sound := by
  obtain ⟨ahead, got, there⟩ := sound.getSym
  cases next with
  | getSym =>
      rw [Lexer.call, got] at called
      exact Except.ok.inj called ▸ there
  | peek =>
      obtain ⟨ahead', got', _, rfl⟩ := peek_eq_ok called
      rw [got] at got'
      cases got'
      obtain ⟨text, remaining, readable⟩ := there
      exact ⟨text, ⟨rfl, remaining.inside, remaining.oneLine, remaining.here⟩, readable⟩

/-- The input is used up, and a token that was peeked is `NONE`. -/
structure Over (lexer : Lexer) : Prop where
  ended : lexer.unpeek.Ended
  peeked : lexer.peekDone = true → lexer.nextSym = .none ∧ lexer.getNextText = []

theorem Over.getSym {lexer : Lexer} (isOver : lexer.Over) :
    ∃ after, lexer.getSym = .ok after ∧ after.token = Token.endOfInput ∧ after.Over := by
  cases peeked : lexer.peekDone with
  | true =>
      obtain ⟨isNone, isEmpty⟩ := isOver.peeked peeked
      refine ⟨lexer.replay, getSym_of_peeked peeked, ?_, ⟨rfl, isOver.ended.stopped,
        isOver.ended.inside, isOver.ended.here⟩, nofun⟩
      simp only [token, replay, getText, isNone, isEmpty]
      rfl
  | false =>
      have same : lexer.unpeek = lexer := by
        rw [unpeek, ← peeked]
      have ended := same ▸ isOver.ended
      obtain ⟨after, scanned, isEnd, stays⟩ := ended.scanToken
      refine ⟨after, getSym_eq peeked ended.skip scanned, isEnd,
        ⟨rfl, stays.stopped, stays.inside, stays.here⟩, fun peekedAfter => ?_⟩
      rw [stays.unpeeked] at peekedAfter
      cases peekedAfter

theorem Over.call {lexer after : Lexer} (next : Call) (isOver : lexer.Over)
    (called : lexer.call next = .ok after) : after.Over := by
  obtain ⟨ahead, got, isEnd, there⟩ := isOver.getSym
  cases next with
  | getSym =>
      rw [Lexer.call, got] at called
      exact Except.ok.inj called ▸ there
  | peek =>
      obtain ⟨ahead', got', _, rfl⟩ := peek_eq_ok called
      rw [got] at got'
      cases got'
      have parts := isEnd
      simp only [token, Token.endOfInput, Token.mk.injEq] at parts
      have noText : ahead.getText = [] := by simpa using congrArg String.toList parts.2
      refine ⟨⟨rfl, there.ended.stopped, there.ended.inside, there.ended.here⟩, fun _ => ?_⟩
      refine ⟨parts.1, ?_⟩
      simp only [getNextText, noText, List.nil_append]
      rfl

theorem remaining_new (input : List Char) (memory : Lexer) :
    (Lexer.new ⟨input, true⟩ memory).Remaining (newline :: input) :=
  ⟨rfl, Nat.le_refl _, by simp [Lexer.new], rfl⟩

/-- If every call of a run finds the next token, the text is readable. -/
theorem nextTokens_of_calls {lexer : Lexer} {text : List Char} (remaining : lexer.Remaining text)
    (finds : ∀ list final, lexer.calls list = .ok final → ∃ after, final.getSym = .ok after)
    (count : Nat) : ∃ tokens, nextTokens count text = .ok tokens := by
  induction count generalizing lexer text with
  | zero => exact ⟨[], rfl⟩
  | succ count hypothesis =>
      obtain ⟨after, called⟩ := finds [] lexer rfl
      have call := remaining.getSym
      rw [called] at call
      cases outcome : nextToken text with
      | error reason =>
          rw [outcome] at call
          cases call
      | ok result =>
          obtain ⟨token, behind⟩ := result
          rw [outcome] at call
          obtain ⟨after', same, _, there⟩ := call
          cases same
          obtain ⟨tokens, ends⟩ := hypothesis there fun list final runs =>
            finds (.getSym :: list) final (by
              rw [calls, Lexer.call, called]
              exact runs)
          exact ⟨token :: tokens, by rw [nextTokens_succ count outcome, ends]; rfl⟩

end Lexer

/-- In every run every call of `GetSym` returns without reading behind the end
of its line, and once the input is used up it returns `NONE`. -/
def StaysInside (input : List Char) (memory : Lexer) : Prop :=
  ∀ list lexer, (Lexer.new ⟨input, true⟩ memory).calls list = .ok lexer →
    (∃ after, lexer.getSym = .ok after) ∧
      (lexer.Ended → ∀ later final, lexer.calls later = .ok final →
        ∃ after, final.getSym = .ok after ∧ after.token = Token.endOfInput)

/-- The lexer stays inside its buffers exactly on the readable inputs. -/
theorem staysInside_iff (input : List Char) (memory : Lexer) :
    StaysInside input memory ↔ Readable input := by
  have remaining := Lexer.remaining_new input memory
  constructor
  · intro returns
    refine readable_of_nextTokens fun count => ?_
    rw [← nextTokens_congr (nextToken_blank input Lexer.isspace_newline)]
    exact Lexer.nextTokens_of_calls remaining (fun list lexer runs => (returns list lexer runs).1)
      count
  · intro readable list lexer runs
    obtain ⟨ending, fits, lexed⟩ := readable
    have start : (Lexer.new ⟨input, true⟩ memory).Sound :=
      ⟨_, remaining, ending, fits, .blank newline input ending rfl lexed⟩
    have sound := Lexer.calls_keep (fun next => Lexer.Sound.call next) start runs
    obtain ⟨after, got, _⟩ := sound.getSym
    refine ⟨⟨after, got⟩, fun ended later final laterRuns => ?_⟩
    have isOver : lexer.Over := by
      refine ⟨⟨rfl, ended.stopped, ended.inside, ended.here⟩, fun peeked => ?_⟩
      rw [ended.unpeeked] at peeked
      cases peeked
    have stillOver := Lexer.calls_keep (fun next => Lexer.Over.call next) isOver laterRuns
    obtain ⟨last, gotLast, isEnd, _⟩ := stillOver.getSym
    exact ⟨last, gotLast, isEnd⟩

/-- A comment that is not closed is read behind the end of the last line. -/
theorem unclosed_comment_outside :
    ¬ StaysInside [doubleQuote, 'a'] Lexer.zeroed := by
  intro returns
  obtain ⟨⟨after, got⟩, _⟩ := returns [] _ rfl
  have call := (Lexer.remaining_new [doubleQuote, 'a'] Lexer.zeroed).getSym
  rw [nextToken_blank _ Lexer.isspace_newline, nextToken_unclosed (by decide), got] at call
  cases call

/-! ### The final newline -/

theorem nextToken_newline : nextToken [newline] = nextToken [] :=
  nextToken_blank [] Lexer.isspace_newline

theorem lineOf_append_newline (text more : List Char) :
    lineOf (text ++ newline :: more) = lineOf text := by
  induction text with
  | nil => simp [lineOf]
  | cons c text hypothesis =>
      unfold lineOf at hypothesis ⊢
      rw [List.cons_append, List.takeWhile_cons, List.takeWhile_cons, hypothesis]

theorem Begins.append {text : List Char} {token : Lexeme} (begins : Begins text token)
    (more : List Char) : Begins (text ++ newline :: more) token ∧
      (text ++ newline :: more).drop token.width =
        text.drop token.width ++ newline :: more := by
  have inside := begins.tokenOf.2.1.inside
  have shorter : (lineOf text).length ≤ text.length := (List.takeWhile_prefix _).length_le
  refine ⟨?_, List.drop_append_of_le_length (Nat.le_trans inside shorter)⟩
  cases begins with
  | string chars text closed oneLine =>
      rw [List.cons_append, List.append_assoc, List.cons_append]
      exact .string chars _ closed oneLine
  | other c text known noString =>
      rw [← lineOf_append_newline (c :: text) more]
      exact .other c _ known noString

theorem nextTokens_stuck {text : List Char} {token : Token}
    (stuck : nextToken text = .ok (token, text)) (count : Nat) :
    nextTokens count text = .ok (List.replicate count token) := by
  induction count with
  | zero => rfl
  | succ count hypothesis =>
      rw [nextTokens_succ count stuck, hypothesis]
      rfl

theorem settled_append (text : List Char) : Settled (text ++ [newline]) :=
  .inl (by simp)

theorem comment_append (inside text : List Char) :
    doubleQuote :: (inside ++ doubleQuote :: text) ++ [newline] =
      doubleQuote :: (inside ++ doubleQuote :: (text ++ [newline])) := by
  simp

/-- Behind settled comments a final newline makes no difference. -/
theorem Lexed.newline_same {text : List Char} {ending : Ending} (lexed : Lexed Settled text ending)
    (count : Nat) : nextTokens count text = nextTokens count (text ++ [newline]) := by
  induction lexed generalizing count with
  | exhausted => exact nextTokens_congr nextToken_newline.symm count
  | blank c text ending blank others hypothesis =>
      rw [nextTokens_congr (nextToken_blank text blank), hypothesis, List.cons_append,
        nextTokens_congr (nextToken_blank _ blank)]
  | comment inside text ending closed next others hypothesis =>
      rw [nextTokens_congr (nextToken_comment closed next), hypothesis, comment_append,
        nextTokens_congr (nextToken_comment closed (settled_append text))]
  | token text token ending begins fits others hypothesis =>
      obtain ⟨beginsToo, behind⟩ := begins.append []
      have called := nextToken_begins begins
      have calledToo := nextToken_begins beginsToo
      rw [if_pos fits] at called calledToo
      rw [behind] at calledToo
      cases count with
      | zero => rfl
      | succ count => rw [nextTokens_succ count called, nextTokens_succ count calledToo, hypothesis]
  | unknown c text starts unknown =>
      rw [nextTokens_stuck (nextToken_unknown text starts unknown), List.cons_append,
        nextTokens_stuck (nextToken_unknown _ starts unknown)]
  | overflow text token begins long =>
      obtain ⟨beginsToo, _⟩ := begins.append []
      have called := nextToken_begins begins
      have calledToo := nextToken_begins beginsToo
      rw [if_neg (Nat.not_lt.mpr long)] at called calledToo
      exact nextTokens_congr (called.trans calledToo.symm) count

/-- On a text with a final newline nothing is left that the loop skips. -/
theorem skipText_newline (text : List Char) :
    ∀ found ∈ skipText (text ++ [newline]), ∀ c ∈ found.head?, startsToken c = true := by
  induction length : text.length using Nat.strong_induction_on generalizing text with
  | _ size hypothesis =>
      subst length
      induction text using text_cases with
      | exhausted =>
          rw [List.nil_append, skipText_blank _ Lexer.isspace_newline, skipText]
          simp
      | blank c more blank =>
          rw [List.cons_append, skipText_blank _ blank]
          exact hypothesis more.length (by simp) more rfl
      | comment inside more closed =>
          rw [comment_append, skipText_comment _ closed, if_pos (by simp)]
          refine hypothesis more.length ?_ more rfl
          simp only [List.length_cons, List.length_append]
          omega
      | unclosed more unclosed =>
          have other : doubleQuote ≠ newline := by decide
          rw [List.cons_append, skipText_unclosed (by simp [unclosed, other])]
          simp
      | starts c more starts =>
          rw [List.cons_append, skipText_token _ starts]
          simp [starts]

theorem cString_skipped {c : Char} (skipped : startsToken c = false) : cString [c] = [c] := by
  have real : c ≠ nul := by
    rintro rfl
    exact absurd skipped (by decide)
  simp [cString, real]

theorem nextToken_ne_skipped {c : Char} (text : List Char) (skipped : startsToken c = false)
    (behind : List Char) :
    nextToken (text ++ [newline]) ≠ .ok (⟨.none, String.ofList (cString [c])⟩, behind) := by
  intro called
  have starts := skipText_newline text
  rw [cString_skipped skipped] at called
  have textOf : ∀ {sym chars}, (⟨sym, String.ofList chars⟩ : Token) =
      ⟨.none, String.ofList [c]⟩ → sym = .none ∧ chars = [c] := by
    intro sym chars same
    injection same with sameSym sameText
    exact ⟨sameSym, by simpa using congrArg String.toList sameText⟩
  unfold nextToken at called
  cases found : skipText (text ++ [newline]) with
  | none => simp [found] at called
  | some next =>
      simp only [found] at called starts
      cases next with
      | nil =>
          have isEnd : readToken [] = .ok (Token.endOfInput, []) := rfl
          rw [isEnd] at called
          injection called with same
          exact absurd (textOf (Prod.mk.inj same).1).2 (by simp)
      | cons d more =>
          have begin := starts _ rfl d rfl
          rw [← nextToken_token more begin] at called
          rcases begins_or d more begin with ⟨token, begins⟩ | ⟨rfl, scanned⟩ | ⟨unknown, _⟩
          · rw [nextToken_begins begins] at called
            split at called
            · injection called with same
              exact absurd (textOf (Prod.mk.inj same).1).1 begins.tokenOf.2.1.recognised
            · cases called
          · rw [nextToken_open_string begin scanned] at called
            cases called
          · rw [nextToken_unknown more begin unknown] at called
            injection called with same
            have chars := (textOf (Prod.mk.inj same).1).2
            have isFirst : d = c := by
              by_cases isNul : d = nul
              · rw [isNul] at chars
                exact absurd chars (by simp [cString])
              · simpa [cString, isNul] using chars
            rw [isFirst, skipped] at begin
            cases begin

theorem map_cons_inj {token : Token} {first second : Except LexerStop (List Token)}
    (same : first.map (token :: ·) = second.map (token :: ·)) : first = second := by
  cases first <;> cases second <;> simp_all [Except.map]

/-- Where a final newline makes no difference every comment is settled. -/
theorem Lexed.settled {text : List Char} {ending : Ending}
    (lexed : Lexed (fun _ => True) text ending)
    (same : ∀ count, nextTokens count text = nextTokens count (text ++ [newline])) :
    Lexed Settled text ending := by
  induction lexed with
  | exhausted => exact .exhausted
  | blank c text ending blank others hypothesis =>
      refine .blank c text ending blank (hypothesis fun count => ?_)
      rw [← nextTokens_congr (nextToken_blank text blank), same, List.cons_append,
        nextTokens_congr (nextToken_blank _ blank)]
  | comment inside text ending closed next others hypothesis =>
      have sameBehind : ∀ count, nextTokens count
          (doubleQuote :: (inside ++ doubleQuote :: text)) =
            nextTokens count (text ++ [newline]) := by
        intro count
        rw [same, comment_append, nextTokens_congr (nextToken_comment closed (settled_append text))]
      by_cases settled : Settled text
      · refine .comment inside text ending closed settled (hypothesis fun count => ?_)
        rw [← sameBehind, nextTokens_congr (nextToken_comment closed settled)]
      · obtain ⟨c, more, _, skipped, _, called⟩ := nextToken_unsettled closed settled
        have first := sameBehind 1
        rw [nextTokens_succ 0 called] at first
        cases calledToo : nextToken (text ++ [newline]) with
        | error reason =>
            rw [nextTokens_error 0 calledToo] at first
            cases first
        | ok result =>
            obtain ⟨token, behind⟩ := result
            rw [nextTokens_succ 0 calledToo] at first
            have isToken := (List.cons.inj (Except.ok.inj first)).1
            rw [← isToken] at calledToo
            exact absurd calledToo (nextToken_ne_skipped text skipped behind)
  | token text token ending begins fits others hypothesis =>
      obtain ⟨beginsToo, behind⟩ := begins.append []
      have called := nextToken_begins begins
      have calledToo := nextToken_begins beginsToo
      rw [if_pos fits] at called calledToo
      rw [behind] at calledToo
      refine .token text token ending begins fits (hypothesis fun count => ?_)
      have sameSucc := same (count + 1)
      rw [nextTokens_succ count called, nextTokens_succ count calledToo] at sameSucc
      exact map_cons_inj sameSucc
  | unknown c text starts unknown => exact .unknown c text starts unknown
  | overflow text token begins long => exact .overflow text token begins long

theorem getSyms_new (input : List Char) (memory : Lexer) (count : Nat) :
    (Lexer.new ⟨input, true⟩ memory).getSyms count = nextTokens count input := by
  rw [(Lexer.remaining_new input memory).getSyms,
    nextTokens_congr (nextToken_blank input Lexer.isspace_newline)]

/-- Without its final newline a closed text gives the same tokens exactly if on
the last line no comment is followed by white space or another comment. -/
theorem final_newline_iff {text : List Char} (closed : Closed text) (memory other : Lexer) :
    (∀ count, (Lexer.new ⟨text, true⟩ memory).getSyms count =
        (Lexer.new ⟨text ++ [newline], true⟩ other).getSyms count) ↔
      ∃ ending, Lexed Settled text ending := by
  simp only [getSyms_new]
  constructor
  · intro same
    obtain ⟨ending, lexed⟩ := closed
    exact ⟨ending, lexed.settled same⟩
  · rintro ⟨ending, lexed⟩ count
    exact lexed.newline_same count

theorem begins_letter (text : List Char) : Begins ('a' :: text) (lexeme (lineOf ('a' :: text))) :=
  .other 'a' text rfl (by decide)

theorem final_newline_a :
    (Lexer.new ⟨['a'], true⟩ Lexer.zeroed).getSyms 2 =
      (Lexer.new ⟨['a'] ++ [newline], true⟩ Lexer.zeroed).getSyms 2 := by
  have closed : Closed ['a'] :=
    ⟨.exhausted, .token _ _ _ (begins_letter []) (by decide) .exhausted⟩
  have settled : Lexed Settled ['a'] .exhausted :=
    .token _ _ _ (begins_letter []) (by decide) .exhausted
  exact (final_newline_iff closed Lexer.zeroed Lexer.zeroed).mpr ⟨_, settled⟩ 2

/-- A comment and a blank on a last line without newline give a token. -/
theorem blank_behind_comment :
    Closed [doubleQuote, 'c', doubleQuote, ' ', 'a'] ∧
      ¬ ∀ count, (Lexer.new ⟨[doubleQuote, 'c', doubleQuote, ' ', 'a'], true⟩
          Lexer.zeroed).getSyms count =
        (Lexer.new ⟨[doubleQuote, 'c', doubleQuote, ' ', 'a'] ++ [newline], true⟩
          Lexer.zeroed).getSyms count := by
  have inside : doubleQuote ∉ ['c'] := by decide
  constructor
  · refine ⟨.exhausted, .comment ['c'] [' ', 'a'] _ inside trivial (.blank ' ' ['a'] _ rfl ?_)⟩
    exact .token _ _ _ (begins_letter []) (by decide) .exhausted
  · intro same
    have called : nextToken (doubleQuote :: (['c'] ++ doubleQuote :: [' ', 'a'])) =
        .ok (⟨.none, " "⟩, [' ', 'a']) := by
      rw [nextToken, skipText_comment _ inside, if_neg (by decide)]
      rfl
    have calledToo : nextToken (doubleQuote :: (['c'] ++ doubleQuote :: [' ', 'a', newline])) =
        .ok (⟨.identifier, "a"⟩, [newline]) := by
      rw [nextToken_comment inside (.inl (by decide)), nextToken_blank _ rfl,
        nextToken_token _ rfl]
      rfl
    have first := same 1
    rw [getSyms_new, getSyms_new] at first
    have tokens := (nextTokens_succ 0 called).symm.trans
      (first.trans (nextTokens_succ 0 calledToo))
    cases tokens

/-! ### Looking ahead -/

/-- What a caller sees after a call: the kind and the text of the current token,
and of the next one after `Peek`. -/
structure Observation where
  current : Token
  ahead : Option Token
deriving DecidableEq, Repr

namespace Lexer

def observe (lexer : Lexer) : Call → Observation
  | .getSym => ⟨lexer.token, none⟩
  | .peek => ⟨lexer.token, some ⟨lexer.nextSym, String.ofList lexer.getNextText⟩⟩

def observations : List Call → Lexer → Except LexerStop (List Observation)
  | [], _ => .ok []
  | next :: others, lexer => do
      let after ← lexer.call next
      let later ← observations others after
      return after.observe next :: later

theorem cString_cString (memory : List Char) : cString (cString memory) = cString memory :=
  List.takeWhile_idem

theorem cString_written (memory more : List Char) :
    cString (cString memory ++ nul :: more) = cString memory := by
  rw [cString_terminated, cString_cString]

/-- `strncpy` copies 512 characters; the rest of a longer text is still there. -/
theorem cString_replayed (memory : List Char) :
    cString ((cString memory).take 512 ++
      List.replicate (512 - ((cString memory).take 512).length) nul ++ memory.drop 512) =
      cString memory := by
  by_cases short : (cString memory).length < 512
  · obtain ⟨count, filled⟩ : ∃ count, 512 - (cString memory).length = count + 1 :=
      ⟨511 - (cString memory).length, by omega⟩
    rw [List.take_of_length_le (Nat.le_of_lt short), filled, List.replicate_succ, List.append_assoc,
      List.cons_append, cString_written]
  · have isPrefix : cString memory <+: memory := List.takeWhile_prefix _
    have taken : (cString memory).take 512 = memory.take 512 := by
      obtain ⟨more, whole⟩ := isPrefix
      conv_rhs => rw [← whole]
      rw [List.take_append_of_le_length (by omega)]
    have full : 512 - ((cString memory).take 512).length = 0 := by
      rw [List.length_take]
      omega
    rw [full, List.replicate_zero, List.append_nil, taken, List.take_append_drop]

/-- `Peek` leaves the current token, reports the next one, and the next call of
`GetSym` returns it. -/
theorem peek_spec {lexer ahead : Lexer} (called : lexer.getSym = .ok ahead)
    (short : lexer.getText.length < 256) :
    ∃ after, lexer.peek = .ok after ∧ after.observe .peek = ⟨lexer.token, some ahead.token⟩ ∧
      after.token = lexer.token ∧ ∃ next, after.getSym = .ok next ∧ next.token = ahead.token ∧
        ∀ text, ahead.Remaining text → next.Remaining text := by
  have fits : lexer.getText.length < bufsiz := Nat.lt_trans short (by decide)
  have kept : (lexer.getText ++ nul :: ahead.text.drop (lexer.getText.length + 1)).drop 512 =
      ahead.text.drop 512 := by
    rw [List.drop_append, List.drop_eq_nil_of_le (by omega), List.nil_append]
    obtain ⟨count, more⟩ : ∃ count, 512 - lexer.getText.length = count + 1 :=
      ⟨511 - lexer.getText.length, by omega⟩
    rw [more, List.drop_succ_cons, List.drop_drop]
    congr 1
    omega
  let after : Lexer := { ahead with
    nextSym := ahead.sym, nextSymc := ahead.symc
    nextText := ahead.getText ++ nul :: ahead.nextText.drop (ahead.getText.length + 1)
    sym := lexer.sym, symc := lexer.symc, peekDone := true
    text := lexer.getText ++ nul :: ahead.text.drop (lexer.getText.length + 1) }
  have nextText : after.getNextText = ahead.getText := cString_written _ _
  have sameToken : after.token = lexer.token := by
    have sameText : after.getText = lexer.getText := cString_written _ _
    simp only [token, sameText]
    rfl
  refine ⟨after, ?_, ?_, sameToken, after.replay, getSym_of_peeked rfl, ?_, fun text there => ?_⟩
  · simp only [peek, if_pos short, called, bind, Except.bind, writeText, if_pos fits]
    rfl
  · simp only [observe, nextText, sameToken]
    rfl
  · have sameText : after.replay.getText = ahead.getText := by
      simp only [replay, getText, nextText]
      have kept' : after.text.drop 512 = ahead.text.drop 512 := kept
      rw [kept']
      exact cString_replayed ahead.text
    simp only [token, sameText]
    rfl
  · exact ⟨rfl, there.inside, there.oneLine, there.here⟩

theorem peek_overflow {lexer : Lexer} (long : ¬ lexer.getText.length < 256) :
    lexer.peek = .error .overflow := by
  simp only [peek, if_neg long]

/-- The lexer shows the token numbered `current`, and the calls to come return
the ones behind it. -/
structure Showing (lexer : Lexer) (tokens : Nat → Token) (current : Nat) : Prop where
  token : lexer.token = tokens current
  ahead : ∃ after behind, lexer.getSym = .ok after ∧ after.token = tokens (current + 1) ∧
    after.Remaining behind ∧
    ∀ count, nextTokens count behind = .ok ((List.range count).map fun index =>
      tokens (current + 2 + index))

/-- The first of the tokens to come, and the others. -/
theorem Remaining.first {lexer : Lexer} {text : List Char} {tokens : Nat → Token} {start : Nat}
    (remaining : lexer.Remaining text)
    (toCome : ∀ count, nextTokens count text =
      .ok ((List.range count).map fun index => tokens (start + index))) :
    ∃ after behind, lexer.getSym = .ok after ∧ after.token = tokens start ∧
      after.Remaining behind ∧ ∀ count, nextTokens count behind =
        .ok ((List.range count).map fun index => tokens (start + 1 + index)) := by
  have call := remaining.getSym
  have first := toCome 1
  cases outcome : nextToken text with
  | error reason =>
      rw [nextTokens_error 0 outcome] at first
      cases first
  | ok result =>
      obtain ⟨token, behind⟩ := result
      rw [outcome] at call
      obtain ⟨after, called, same, there⟩ := call
      rw [nextTokens_succ 0 outcome] at first
      have isNext : token = tokens start := (List.cons.inj (Except.ok.inj first)).1
      refine ⟨after, behind, called, same.trans isNext, there, fun count => ?_⟩
      have others := toCome (count + 1)
      have shift : ((fun index => tokens (start + index)) ∘ Nat.succ) =
          fun index => tokens (start + 1 + index) := by
        refine funext fun index => congrArg tokens ?_
        simp only [Nat.succ_eq_add_one]
        omega
      rw [nextTokens_succ count outcome, List.range_succ_eq_map, List.map_cons, List.map_map,
        shift, Nat.add_zero, ← isNext] at others
      have single : (Except.ok (token :: (List.range count).map
          fun index => tokens (start + 1 + index)) : Except LexerStop (List Token)) =
          (Except.ok ((List.range count).map fun index => tokens (start + 1 + index))).map
            (token :: ·) := rfl
      exact map_cons_inj (others.trans single)

theorem Remaining.showing {lexer : Lexer} {text : List Char} {tokens : Nat → Token}
    {current : Nat} (remaining : lexer.Remaining text) (shown : lexer.token = tokens current)
    (toCome : ∀ count, nextTokens count text = .ok ((List.range count).map fun index =>
      tokens (current + 1 + index))) : lexer.Showing tokens current :=
  ⟨shown, remaining.first toCome⟩

theorem Showing.getSym {lexer : Lexer} {tokens : Nat → Token} {current : Nat}
    (showing : lexer.Showing tokens current) :
    ∃ after, lexer.getSym = .ok after ∧ after.token = tokens (current + 1) ∧
      after.Showing tokens (current + 1) := by
  obtain ⟨after, behind, called, same, there, toCome⟩ := showing.ahead
  exact ⟨after, called, same, there.showing same toCome⟩

theorem Showing.peek {lexer : Lexer} {tokens : Nat → Token} {current : Nat}
    (showing : lexer.Showing tokens current) (short : lexer.getText.length < 256) :
    ∃ after, lexer.peek = .ok after ∧
      after.observe .peek = ⟨tokens current, some (tokens (current + 1))⟩ ∧
      after.Showing tokens current := by
  obtain ⟨ahead, behind, called, same, there, toCome⟩ := showing.ahead
  obtain ⟨after, peeked, seen, kept, next, again, sameNext, keeps⟩ := peek_spec called short
  rw [showing.token, same] at seen
  exact ⟨after, peeked, seen, kept.trans showing.token, next, behind, again, sameNext.trans same,
    keeps behind there, toCome⟩

end Lexer

/-- What the calls show of a token sequence when `Peek` does nothing but look
ahead. -/
def expected (tokens : Nat → Token) : Nat → List Call → List Observation
  | _, [] => []
  | current, .getSym :: others =>
      ⟨tokens (current + 1), none⟩ :: expected tokens (current + 1) others
  | current, .peek :: others =>
      ⟨tokens current, some (tokens (current + 1))⟩ :: expected tokens current others

/-- Wherever `Peek` is called, the text of the current token has fewer than 256
characters. -/
def ShortAtPeeks (tokens : Nat → Token) (current : Nat) (list : List Call) : Prop :=
  ∀ before behind, list = before ++ .peek :: behind →
    (tokens (current + before.count .getSym)).text.toList.length < 256

theorem shortAtPeeks_getSym (tokens : Nat → Token) (current : Nat) (others : List Call) :
    ShortAtPeeks tokens current (.getSym :: others) ↔ ShortAtPeeks tokens (current + 1) others := by
  constructor
  · rintro short before behind rfl
    have counted := short (.getSym :: before) behind rfl
    rw [List.count_cons_self] at counted
    rwa [Nat.add_assoc, Nat.add_comm 1]
  · intro short before behind split
    cases before with
    | nil => cases split
    | cons first before =>
        obtain ⟨rfl, rfl⟩ := List.cons.inj split
        rw [List.count_cons_self, Nat.add_comm _ 1, ← Nat.add_assoc]
        exact short before behind rfl

theorem shortAtPeeks_peek (tokens : Nat → Token) (current : Nat) (others : List Call) :
    ShortAtPeeks tokens current (.peek :: others) ↔
      (tokens current).text.toList.length < 256 ∧ ShortAtPeeks tokens current others := by
  constructor
  · intro short
    refine ⟨short [] others rfl, ?_⟩
    rintro before behind rfl
    have counted := short (.peek :: before) behind rfl
    rwa [List.count_cons_of_ne (by decide)] at counted
  · rintro ⟨first, short⟩ before behind split
    cases before with
    | nil => exact first
    | cons next before =>
        obtain ⟨rfl, rfl⟩ := List.cons.inj split
        rw [List.count_cons_of_ne (by decide)]
        exact short before behind rfl

namespace Lexer

theorem observations_cons {lexer after : Lexer} {next : Call} (others : List Call)
    (called : lexer.call next = .ok after) :
    lexer.observations (next :: others) =
      (after.observations others).map (after.observe next :: ·) := by
  simp only [observations, called, bind, Except.bind, pure, Except.pure]
  cases after.observations others <;> rfl

theorem Showing.observations_iff {lexer : Lexer} {tokens : Nat → Token} {current : Nat}
    (showing : lexer.Showing tokens current) (list : List Call) :
    lexer.observations list = .ok (expected tokens current list) ↔
      ShortAtPeeks tokens current list := by
  have map_eq : ∀ {seen : Observation} {outcome : Except LexerStop (List Observation)} {others},
      outcome.map (seen :: ·) = .ok (seen :: others) ↔ outcome = .ok others := by
    intro seen outcome others
    cases outcome <;> simp [Except.map]
  induction list generalizing lexer current with
  | nil => simp [observations, expected, ShortAtPeeks]
  | cons next others hypothesis =>
      cases next with
      | getSym =>
          obtain ⟨after, called, same, there⟩ := showing.getSym
          have seen : after.observe .getSym = ⟨tokens (current + 1), none⟩ := by
            rw [observe, same]
          have asCall : lexer.call .getSym = .ok after := called
          rw [observations_cons others asCall, seen, expected, map_eq, shortAtPeeks_getSym]
          exact hypothesis there
      | peek =>
          have sameText : (tokens current).text.toList = lexer.getText := by
            rw [← showing.token]
            simp [Lexer.token]
          rw [shortAtPeeks_peek, sameText]
          by_cases short : lexer.getText.length < 256
          · obtain ⟨after, peeked, seen, there⟩ := showing.peek short
            have asCall : lexer.call .peek = .ok after := peeked
            rw [observations_cons others asCall, seen, expected, map_eq]
            exact (hypothesis there).trans (by simp [short])
          · simp [observations, Lexer.call, peek_overflow short, bind, Except.bind, short]

end Lexer

/-- After the first call the lexer shows the first token. -/
theorem showing_new {input : List Char} {memory : Lexer} {tokens : Nat → Token}
    (tokenised : ∀ count, (Lexer.new ⟨input, true⟩ memory).getSyms count =
      .ok ((List.range count).map tokens)) :
    ∃ first, (Lexer.new ⟨input, true⟩ memory).call .getSym = .ok first ∧
      first.observe .getSym = ⟨tokens 0, none⟩ ∧ first.Showing tokens 0 := by
  have remaining := Lexer.remaining_new input memory
  have toCome : ∀ count, nextTokens count (newline :: input) =
      .ok ((List.range count).map fun index => tokens (0 + index)) := by
    intro count
    rw [← remaining.getSyms, tokenised]
    simp
  obtain ⟨first, behind, called, shown, there, others⟩ := remaining.first toCome
  refine ⟨first, called, ?_, there.showing shown others⟩
  rw [Lexer.observe, shown]

/-- Behind the first token `Peek` is invisible exactly as long as it is called at
tokens of fewer than 256 characters. -/
theorem peek_invisible_iff {input : List Char} {memory : Lexer} {tokens : Nat → Token}
    (tokenised : ∀ count, (Lexer.new ⟨input, true⟩ memory).getSyms count =
      .ok ((List.range count).map tokens)) (list : List Call) :
    (Lexer.new ⟨input, true⟩ memory).observations (.getSym :: list) =
        .ok (⟨tokens 0, none⟩ :: expected tokens 0 list) ↔
      ShortAtPeeks tokens 0 list := by
  obtain ⟨first, called, seen, showing⟩ := showing_new tokenised
  rw [← showing.observations_iff, Lexer.observations_cons list called, seen]
  cases first.observations list <;> simp [Except.map]

/-- One name, and then `NONE`. -/
def nameTokens (name : List Char) : Nat → Token
  | 0 => ⟨.identifier, String.ofList name⟩
  | _ => Token.endOfInput

theorem getSyms_name {name : List Char}
    (called : nextToken name = .ok (⟨.identifier, String.ofList name⟩, [])) (memory : Lexer)
    (count : Nat) : (Lexer.new ⟨name, true⟩ memory).getSyms count =
      .ok ((List.range count).map (nameTokens name)) := by
  rw [getSyms_new]
  cases count with
  | zero => rfl
  | succ count =>
      rw [nextTokens_succ count called, nextTokens_stuck nextToken_exhausted,
        List.range_succ_eq_map, List.map_cons, List.map_map]
      have others : (nameTokens name ∘ Nat.succ) = fun _ => Token.endOfInput := rfl
      rw [others, List.map_const', List.length_range]
      rfl

theorem nextToken_a : nextToken ['a'] = .ok (⟨.identifier, String.ofList ['a']⟩, []) :=
  nextToken_begins (begins_letter [])

theorem peek_invisible_a :
    (Lexer.new ⟨['a'], true⟩ Lexer.zeroed).observations [.getSym, .peek, .peek, .getSym] =
      .ok (⟨nameTokens ['a'] 0, none⟩ :: expected (nameTokens ['a']) 0 [.peek, .peek, .getSym]) := by
  refine (peek_invisible_iff (getSyms_name nextToken_a Lexer.zeroed) _).mpr ?_
  rw [shortAtPeeks_peek, shortAtPeeks_peek, shortAtPeeks_getSym]
  exact ⟨by decide, by decide, by simp [ShortAtPeeks]⟩

def longName : List Char := List.replicate 256 'a'

theorem nextToken_longName :
    nextToken longName = .ok (⟨.identifier, String.ofList longName⟩, []) := by
  have whole : 'a' :: List.replicate 255 'a' = longName := List.replicate_succ.symm
  have found : lexeme (lineOf longName) = ⟨.identifier, longName, 256⟩ := by decide +kernel
  have noNul : cString longName = longName := by decide +kernel
  have used : longName.drop 256 = [] := by decide +kernel
  have called := nextToken_begins (begins_letter (List.replicate 255 'a'))
  rw [whole, found, if_pos (by decide +kernel), noNul, used] at called
  exact called

/-- A `Peek` at a name of 256 characters writes behind the end of `saveText`. -/
theorem peek_at_long_name :
    (∀ count, (Lexer.new ⟨longName, true⟩ Lexer.zeroed).getSyms count =
      .ok ((List.range count).map (nameTokens longName))) ∧
      ¬ ∀ list, (Lexer.new ⟨longName, true⟩ Lexer.zeroed).observations (.getSym :: list) =
        .ok (⟨nameTokens longName 0, none⟩ :: expected (nameTokens longName) 0 list) := by
  have tokenised := getSyms_name nextToken_longName Lexer.zeroed
  refine ⟨tokenised, fun invisible => ?_⟩
  obtain ⟨first, called, seen, showing⟩ := showing_new tokenised
  have peeks := invisible [.peek]
  rw [Lexer.observations_cons _ called, seen] at peeks
  have long : ¬ first.getText.length < 256 := by
    have text := congrArg (List.length ∘ String.toList ∘ Token.text) showing.token
    simp only [Function.comp, Lexer.token, nameTokens, String.toList_ofList] at text
    rw [text, longName, List.length_replicate]
    exact Nat.lt_irrefl 256
  have stops : first.observations [.peek] = .error .overflow := by
    simp only [Lexer.observations, Lexer.call, Lexer.peek_overflow long, bind, Except.bind]
  rw [stops, Except.map] at peeks
  cases peeks

end Somr.Compiler
