import Somr.Compiler.ExpressionCode

/-!
Owns the messages of an expression, each with the receiver expression the grammar
gives it, and the comparison with the `SEND` and `SUPER_SEND` instructions the
parser emits for them.

A message goes to super when its receiver is written as the one word `super`.
Nothing here follows the flag the parser hands from one procedure to the next.
-/

namespace Somr.Compiler

open Somr.Foundation

/-! ### Messages and their receivers -/

/-- A message with the expression in front of it that receives it. -/
structure Message where
  receiver : Expression
  selector : String

/-- The receiver is exactly the variable `super`. -/
def Message.toSuper (message : Message) : Prop :=
  message.receiver.tokens = [⟨.identifier, "super"⟩]

instance (message : Message) : Decidable message.toSuper :=
  inferInstanceAs (Decidable (_ = _))

/-- The instruction a message should be sent with. -/
def Message.instruction (message : Message) : Instruction :=
  if message.toSuper then .superSend (.symbol message.selector)
  else .send (.symbol message.selector)

def Binaries.snoc (operator : Operator) (operand : Primary) (unaries : List Identifier) :
    Binaries → Binaries
  | .done => .message operator operand unaries .done
  | .message first primary selectors rest =>
      .message first primary selectors (rest.snoc operator operand unaries)

/-- An operand and the unary messages it has received. -/
def operandExpression (primary : Primary) (unaries : List Identifier) : Expression :=
  .mk [] primary unaries .done .done

/-- Unary messages behind the ones an operand has received. -/
def unaryMessages (primary : Primary) (received : List Identifier) : List Identifier → List Message
  | [] => []
  | selector :: rest =>
      ⟨operandExpression primary received, selector.text⟩ ::
        unaryMessages primary (received ++ [selector]) rest

mutual

/-- The messages sent to evaluate a primary, in the order they are sent. A block
sends its messages when it is evaluated. -/
def Primary.messages : Primary → List Message
  | .term expression => expression.messages
  | _ => []

def Expression.messages : Expression → List Message
  | .mk _ primary unaries binaries keywords =>
      primary.messages ++ unaryMessages primary [] unaries ++
        binaries.messages primary unaries .done ++ keywords.messages ++
          (if keywords.isDone then []
            else [⟨.mk [] primary unaries binaries .done, keywords.selector⟩])

/-- The binary messages behind an operand and the binary messages it has
received. -/
def Binaries.messages : Binaries → (first : Primary) → (unaries : List Identifier) →
    (received : Binaries) → List Message
  | .done, _, _, _ => []
  | .message operator primary selectors rest, first, unaries, received =>
      primary.messages ++ unaryMessages primary [] selectors ++
        ⟨.mk [] first unaries received .done, operator.token.text⟩ ::
          rest.messages first unaries (received.snoc operator primary selectors)

/-- The messages in the arguments of a keyword message. -/
def Keywords.messages : Keywords → List Message
  | .done => []
  | .message _ primary unaries binaries rest =>
      primary.messages ++ unaryMessages primary [] unaries ++
        binaries.messages primary unaries .done ++ rest.messages

end

def Body.messages : Body → List Message
  | .empty => []
  | .result value _ => value.messages
  | .last value => value.messages
  | .statement value rest => value.messages ++ rest.messages

/-! ### Receivers that are the word `super` -/

theorem Primary.tokens_ne_nil (primary : Primary) : primary.tokens ≠ [] := by
  cases primary with
  | name | term | block => simp [Primary.tokens]
  | literal source => cases source <;> simp [Primary.tokens, LiteralSource.tokens]

theorem Primary.tokens_eq_super (primary : Primary) :
    primary.tokens = [⟨.identifier, "super"⟩] ↔ primary.isSuper = true := by
  cases primary with
  | name identifier => simp [Primary.tokens, Primary.isSuper, Identifier.token]
  | term expression => simp [Primary.tokens, Primary.isSuper, Token.newTerm]
  | block parameters locals body => simp [Primary.tokens, Primary.isSuper, Token.newBlock]
  | literal source =>
      cases source <;>
        simp [Primary.tokens, LiteralSource.tokens, Primary.isSuper, Token.minus, Token.pound]

theorem Binaries.tokens_eq_nil (binaries : Binaries) :
    binaries.tokens = [] ↔ binaries.isDone = true := by
  cases binaries <;> simp [Binaries.tokens, Binaries.isDone]

theorem Binaries.isDone_snoc (binaries : Binaries) (operator : Operator) (operand : Primary)
    (unaries : List Identifier) : (binaries.snoc operator operand unaries).isDone = false := by
  cases binaries <;> rfl

/-- A receiver with its messages is the variable `super` when it is that variable
and has received none. -/
theorem toSuper_iff (primary : Primary) (unaries : List Identifier) (binaries : Binaries)
    (selector : String) :
    (Message.mk (.mk [] primary unaries binaries .done) selector).toSuper ↔
      (primary.isSuper && unaries.isEmpty && binaries.isDone) = true := by
  have written : (Expression.mk [] primary unaries binaries .done).tokens =
      primary.tokens ++ (unaries.map Identifier.token ++ binaries.tokens) := by
    simp [Expression.tokens, targetTokens, Keywords.tokens]
  rw [Message.toSuper, written, List.append_eq_singleton_iff, Primary.tokens_eq_super,
    List.append_eq_nil_iff, List.map_eq_nil_iff, Binaries.tokens_eq_nil]
  simp [Primary.tokens_ne_nil, and_assoc]

theorem instruction_eq (primary : Primary) (unaries : List Identifier) (binaries : Binaries)
    (selector : String) :
    (Message.mk (.mk [] primary unaries binaries .done) selector).instruction =
      sendInstruction (primary.isSuper && unaries.isEmpty && binaries.isDone) selector := by
  rw [Message.instruction, sendInstruction]
  exact if_congr (toSuper_iff primary unaries binaries selector) rfl rfl

/-! ### The sends of some code -/

def sends (code : List Instruction) : List Instruction := code.filter Instruction.isSend

theorem sends_append (early late : List Instruction) :
    sends (early ++ late) = sends early ++ sends late :=
  List.filter_append ..

theorem sends_sendInstruction (super : Bool) (selector : String) :
    sends [sendInstruction super selector] = [sendInstruction super selector] := by
  cases super <;> rfl

theorem sends_eq_nil {code : List Instruction}
    (silent : ∀ instruction ∈ code, instruction.isSend = false) : sends code = [] :=
  List.filter_eq_nil_iff.mpr fun instruction member => by
    rw [silent instruction member]
    exact Bool.false_ne_true

theorem isSend_readInstruction (environment : Environment) (var : String) :
    (readInstruction environment var).isSend = false := by
  rw [readInstruction]
  rcases findVar var environment.scopes 0 with _ | ⟨index, context, _ | _⟩
  · dsimp only
    split <;> rfl
  · rfl
  · rfl

theorem isSend_writeInstruction (environment : Environment) (var : String) :
    (writeInstruction environment var).isSend = false := by
  rw [writeInstruction]
  rcases findVar var environment.scopes 0 with _ | ⟨index, context, _ | _⟩ <;> rfl

theorem sends_leaf (environment : Environment) (leaf : Leaf) :
    sends (treeCode environment (.leaf leaf)) = [] := by
  apply sends_eq_nil
  intro instruction member
  obtain rfl := List.mem_singleton.mp member
  cases leaf with
  | name text => exact isSend_readInstruction environment _
  | literal | block => rfl

theorem treeCode_node (environment : Environment) (operation : Operation)
    (operands : List ParseTree) :
    treeCode environment (.node operation operands) =
      forestCode environment operands ++ operation.instructions environment := rfl

theorem forestCode_cons (environment : Environment) (tree : ParseTree) (rest : List ParseTree) :
    forestCode environment (tree :: rest) =
      treeCode environment tree ++ forestCode environment rest := rfl

theorem sends_send (environment : Environment) (toSuper : Bool) (selector : String)
    (operands : List ParseTree) :
    sends (treeCode environment (.node (.send toSuper selector) operands)) =
      sends (forestCode environment operands) ++ [sendInstruction toSuper selector] := by
  rw [treeCode_node, sends_append, Operation.instructions, sends_sendInstruction]

theorem sends_forest_cons (environment : Environment) (tree : ParseTree)
    (rest : List ParseTree) :
    sends (forestCode environment (tree :: rest)) =
      sends (treeCode environment tree) ++ sends (forestCode environment rest) := by
  rw [forestCode_cons, sends_append]

theorem sends_forest_nil (environment : Environment) : sends (forestCode environment []) = [] :=
  rfl

theorem sends_assignTree (environment : Environment) (value : ParseTree)
    (targets : List Identifier) :
    sends (treeCode environment (assignTree value targets)) =
      sends (treeCode environment value) := by
  rw [assignTree]
  split
  · rfl
  · have silent : sends ((Operation.assign (targets.map Identifier.text)).instructions
        environment) = [] := by
      apply sends_eq_nil
      intro instruction member
      rw [Operation.instructions, List.mem_append, List.mem_map, List.mem_map] at member
      rcases member with ⟨target, -, rfl⟩ | ⟨target, -, rfl⟩
      · rfl
      · exact isSend_writeInstruction environment target
    rw [treeCode_node, sends_append, silent, sends_forest_cons, sends_forest_nil,
      List.append_nil, List.append_nil]

/-! ### The messages of a parse tree -/

/-- The instructions some messages should be sent with. -/
def messageCode (messages : List Message) : List Instruction :=
  messages.map Message.instruction

theorem messageCode_append (early late : List Message) :
    messageCode (early ++ late) = messageCode early ++ messageCode late :=
  List.map_append

theorem messageCode_cons (message : Message) (rest : List Message) :
    messageCode (message :: rest) = message.instruction :: messageCode rest := rfl

theorem sends_unaryTree (environment : Environment) (primary : Primary)
    (received unaries : List Identifier) (receiver : ParseTree) :
    sends (treeCode environment (unaryTree (primary.isSuper && received.isEmpty) receiver unaries)) =
      sends (treeCode environment receiver) ++
        messageCode (unaryMessages primary received unaries) := by
  induction unaries generalizing received receiver with
  | nil => exact (List.append_nil _).symm
  | cons selector rest inductionHypothesis =>
      have later := inductionHypothesis (received ++ [selector])
        (.node (.send (primary.isSuper && received.isEmpty) selector.text) [receiver])
      have another : (primary.isSuper && (received ++ [selector]).isEmpty) = false := by simp
      rw [another] at later
      rw [unaryTree, later, unaryMessages, messageCode_cons, operandExpression, instruction_eq,
        sends_send, sends_forest_cons, sends_forest_nil, List.append_nil, List.append_assoc]
      simp [Binaries.isDone]

/-- An operand sends its own messages and then its unary ones. -/
theorem sends_operand {environment : Environment} {primary : Primary} {tree : ParseTree}
    (own : sends (treeCode environment tree) = messageCode primary.messages)
    (unaries : List Identifier) :
    sends (treeCode environment (unaryTree primary.isSuper tree unaries)) =
      messageCode (primary.messages ++ unaryMessages primary [] unaries) := by
  have sent := sends_unaryTree environment primary [] unaries tree
  rw [List.isEmpty_nil, Bool.and_true] at sent
  rw [sent, own, messageCode_append]

theorem sends_keywordTree (environment : Environment) (toSuper : Bool) (receiver : ParseTree)
    (arguments : List ParseTree) (keywords : Keywords)
    (none : keywords.isDone = true → arguments = []) :
    sends (treeCode environment (keywordTree toSuper receiver arguments keywords)) =
      sends (treeCode environment receiver) ++ (sends (forestCode environment arguments) ++
        (if keywords.isDone then [] else [sendInstruction toSuper keywords.selector])) := by
  cases keywords with
  | done =>
      rw [none rfl, sends_forest_nil]
      exact (List.append_nil _).symm
  | message keyword primary unaries binaries rest =>
      rw [keywordTree, sends_send, sends_forest_cons, List.append_assoc]
      · rfl
      · exact fun done => Keywords.noConfusion done

mutual

theorem sends_primary (environment : Environment) : (primary : Primary) → (base : Nat) →
    sends (treeCode environment (primary.tree environment base)) = messageCode primary.messages
  | .name _, _ => sends_leaf environment _
  | .term expression, base => sends_expression environment expression base
  | .block .., _ => sends_leaf environment _
  | .literal _, _ => sends_leaf environment _

theorem sends_expression (environment : Environment) : (expression : Expression) →
    (base : Nat) → sends (treeCode environment (expression.tree environment base)) =
      messageCode expression.messages
  | .mk targets primary unaries binaries keywords, base => by
      have operand := sends_operand (sends_primary environment primary base) unaries
      have formula := sends_binaries environment binaries primary unaries .done
        (base + (primary.generate environment base).objects.length)
        (unaryTree primary.isSuper (primary.tree environment base) unaries)
      rw [show (Binaries.isDone .done) = true from rfl, Bool.and_true] at formula
      have empty : ∀ base, keywords.isDone = true → keywords.trees environment base = [] := by
        intro base done
        cases keywords with
        | done => rfl
        | message => exact Bool.noConfusion done
      rw [Expression.tree, sends_assignTree, sends_keywordTree _ _ _ _ _ (empty _), formula,
        operand, sends_keywords environment keywords, Expression.messages]
      simp only [messageCode_append, List.append_assoc]
      congr 4
      cases keywords with
      | done => rfl
      | message keyword argument selectors operators rest =>
          exact congrArg (fun instruction => [instruction])
            (instruction_eq primary unaries binaries _).symm

theorem sends_binaries (environment : Environment) : (binaries : Binaries) → (first : Primary) →
    (unaries : List Identifier) → (received : Binaries) → (base : Nat) → (receiver : ParseTree) →
    sends (treeCode environment (binaries.tree environment base
        (first.isSuper && unaries.isEmpty && received.isDone) receiver)) =
      sends (treeCode environment receiver) ++
        messageCode (binaries.messages first unaries received)
  | .done, first, unaries, received, base, receiver => (List.append_nil _).symm
  | .message operator primary selectors rest, first, unaries, received, base, receiver => by
      have operand := sends_operand (sends_primary environment primary base) selectors
      have later := sends_binaries environment rest first unaries
        (received.snoc operator primary selectors)
        (base + (primary.generate environment base).objects.length)
        (.node (.send (first.isSuper && unaries.isEmpty && received.isDone) operator.token.text)
          [receiver, unaryTree primary.isSuper (primary.tree environment base) selectors])
      rw [Binaries.isDone_snoc, Bool.and_false] at later
      rw [Binaries.tree, later, sends_send, sends_forest_cons, sends_forest_cons,
        sends_forest_nil, operand, Binaries.messages]
      simp only [messageCode_append, messageCode_cons, instruction_eq, List.append_assoc,
        List.append_nil, List.cons_append, List.nil_append]

theorem sends_keywords (environment : Environment) : (keywords : Keywords) → (base : Nat) →
    sends (forestCode environment (keywords.trees environment base)) =
      messageCode keywords.messages
  | .done, _ => rfl
  | .message keyword primary unaries binaries rest, base => by
      have operand := sends_operand (sends_primary environment primary base) unaries
      have argument := sends_binaries environment binaries primary unaries .done
        (base + (primary.generate environment base).objects.length)
        (unaryTree primary.isSuper (primary.tree environment base) unaries)
      rw [show (Binaries.isDone .done) = true from rfl, Bool.and_true] at argument
      rw [Keywords.trees, sends_forest_cons, argument, operand,
        sends_keywords environment rest, Keywords.messages]
      simp only [messageCode_append, List.append_assoc]

end

theorem sends_body (environment : Environment) (block : Bool) : (body : Body) → (base : Nat) →
    sends (body.code environment block base) = messageCode body.messages
  | .empty, base => by cases block <;> rfl
  | .result value period, base => by
      rw [Body.code, sends_append, sends_expression, Body.messages]
      cases block <;> exact List.append_nil _
  | .last value, base => by
      rw [Body.code, sends_append, sends_expression, Body.messages]
      cases block <;> exact List.append_nil _
  | .statement value rest, base => by
      have popped : sends (if block && rest.isEmpty then [] else [.pop]) = [] := by
        split <;> rfl
      rw [Body.code, sends_append, sends_append, sends_expression, popped, List.nil_append,
        sends_body environment block rest, Body.messages, messageCode_append]

/-! ### Emitted sends and messages -/

theorem isSend_plain (instruction : Instruction) :
    instruction.plain.isSend = instruction.isSend := by
  cases instruction <;> rfl

theorem plain_of_not_send {instruction : Instruction} (silent : instruction.isSend = false) :
    instruction.plain = instruction := by
  cases instruction with
  | superSend msg => exact Bool.noConfusion silent
  | _ => rfl

/-- Code is determined by its sends and by what it is without super sends. -/
theorem eq_of_sends {early late : List Instruction}
    (samePlain : early.map Instruction.plain = late.map Instruction.plain)
    (sameSends : sends early = sends late) : early = late := by
  induction early generalizing late with
  | nil => exact (List.map_eq_nil_iff.mp samePlain.symm).symm
  | cons first rest inductionHypothesis =>
      cases late with
      | nil => exact absurd samePlain (List.cons_ne_nil _ _)
      | cons other more =>
          obtain ⟨sameFirst, sameRest⟩ := List.cons.inj samePlain
          have sameKind : first.isSend = other.isSend := by
            rw [← isSend_plain, sameFirst, isSend_plain]
          rw [sends, sends, List.filter_cons, List.filter_cons, ← sameKind] at sameSends
          cases sent : first.isSend with
          | true =>
              rw [sent, if_pos rfl, if_pos rfl] at sameSends
              obtain ⟨rfl, sameLater⟩ := List.cons.inj sameSends
              rw [inductionHypothesis sameRest sameLater]
          | false =>
              rw [sent, if_neg Bool.false_ne_true, if_neg Bool.false_ne_true] at sameSends
              rw [plain_of_not_send sent, plain_of_not_send (sameKind.symm.trans sent)] at sameFirst
              rw [sameFirst, inductionHypothesis sameRest sameSends]

/-- Emitted code has the prescribed sends exactly under the condition under which
it is the prescribed code. -/
theorem SameCode.sends_iff {emitted prescribed : List Instruction} {once : Prop}
    (code : SameCode emitted prescribed once) : sends emitted = sends prescribed ↔ once := by
  constructor
  · intro sameSends
    apply code.ofOpcodes
    rw [eq_of_sends code.samePlain sameSends]
  · intro holds
    rw [code.same holds]

theorem sends_map_plain (code : List Instruction) :
    (sends code).map Instruction.plain = sends (code.map Instruction.plain) := by
  rw [sends, sends, List.filter_map]
  congr 1
  exact List.filter_congr fun instruction _ => (isSend_plain instruction).symm

/-- The code has one send for each message, in this order and with its selector. -/
def SendsEach (code : List Instruction) (messages : List Message) : Prop :=
  (sends code).map Instruction.plain =
    messages.map fun message => .send (.symbol message.selector)

theorem plain_instruction (message : Message) :
    message.instruction.plain = .send (.symbol message.selector) := by
  rw [Message.instruction]
  split <;> rfl

theorem SameCode.sendsEach {emitted prescribed : List Instruction} {once : Prop}
    {messages : List Message} (code : SameCode emitted prescribed once)
    (sent : sends prescribed = messageCode messages) : SendsEach emitted messages := by
  rw [SendsEach, sends_map_plain, code.samePlain, ← sends_map_plain, sent, messageCode,
    List.map_map]
  exact List.map_congr_left fun message _ => plain_instruction message

/-! ### Expressions and the blocks in them -/

/-- The instructions emitted for a unit. -/
def CodeUnit.emitted (unit : CodeUnit) : List Instruction := instructions unit.generated.actions

theorem CodeUnit.sends_code (unit : CodeUnit) :
    sends unit.code = messageCode unit.body.messages :=
  sends_body (unit.environment.enter unit.scope) unit.block unit.body unit.base

/-- The bytes of the method object of a unit are those of the emitted instructions. -/
def CodeUnit.Holds (objects : List CompiledObject) (unit : CodeUnit) : Prop :=
  ∃ method, objects[unit.address]? = some (.method method) ∧
    method.bytecode = unit.emitted.flatMap (Instruction.encode method.literals)

/-- The parser accepts every expression and emits one send for each message of the
expression and of the blocks in it. These are super sends for exactly the messages
whose receiver is the variable `super` if and only if no operand of a binary or
keyword message is `super` followed by more than one message of its own. -/
theorem super_sends_iff (expression : Expression) (parser : Parser)
    (wellFormed : parser.WellFormed) (calls : Nat) (tokens : List Token)
    (enough : 8 * expression.tokens.length + 3 ≤ calls) (ends : Parser.EndsExpression tokens) :
    let generated := expression.generate parser.environment parser.objects.length
    let code := instructions generated.actions
    ∃ final : Parser,
      (Parser.expression calls).run (parser.reading (expression.tokens ++ tokens)) =
        ⟨.ok (), final.reading tokens, []⟩ ∧
      final.mgenc.bytecode = parser.mgenc.bytecode ++
        code.flatMap (Instruction.encode final.mgenc.literals) ∧
      (∀ unit ∈ generated.blocks, unit.Holds final.objects) ∧
      SendsEach code expression.messages ∧
      (∀ unit ∈ generated.blocks, SendsEach unit.emitted unit.body.messages) ∧
      ((sends code = messageCode expression.messages ∧
          ∀ unit ∈ generated.blocks, sends unit.emitted = messageCode unit.body.messages) ↔
        expression.superOnce = true ∧
          ∀ unit ∈ generated.blocks, unit.body.superOnce = true) := by
  intro generated code
  have agrees := (compiles_expression parser.environment expression).treeCode parser.objects.length
  have sent := sends_expression parser.environment expression parser.objects.length
  obtain ⟨admissible, -⟩ := keepsTable_expression parser.environment expression []
    parser.objects.length parser.mgenc wellFormed.allocated
    (fun _ member => absurd member List.not_mem_nil)
  refine ⟨parser.extend (expression.generate parser.environment),
    Parser.expression_recognized expression parser calls tokens wellFormed.opened enough ends,
    bytecode_perform admissible, fun unit member => ?_, agrees.sendsEach sent,
    fun unit _ => unit.sameCode.sendsEach unit.sends_code, and_congr ?_ ?_⟩
  · have placed := (locatesBlocks_rule.holds_expression parser.environment expression
      parser.objects unit member).placed
    exact ⟨unit.mgenc.compiled, placed, bytecode_perform unit.admissible⟩
  · rw [← sent]
    exact agrees.sends_iff
  · refine forall₂_congr fun unit _ => ?_
    rw [← unit.sends_code]
    exact unit.sameCode.sends_iff

theorem lexical_x : Signature.isBinary "x" = false ∧ "x".toList.count ':' = 0 := by decide

theorem lexical_bar : Signature.isBinary "bar" = false ∧ "bar".toList.count ':' = 0 := by
  decide

/-- `x := super foo: (super bar) baz`. -/
def superReceiver : Expression :=
  .mk [⟨"x", lexical_x⟩] (.name ⟨"super", Identifier.lexical_super⟩) [] .done
    (.message ⟨"foo:", by decide⟩
      (.term (.mk [] (.name ⟨"super", Identifier.lexical_super⟩) [⟨"bar", lexical_bar⟩] .done
        .done))
      [⟨"baz", by decide⟩] .done .done)

theorem superReceiver_sends : ∃ final : Parser,
    (Parser.expression 100).run (startParser.reading (superReceiver.tokens ++ [Token.period])) =
      ⟨.ok (), final.reading [Token.period], []⟩ ∧
    sends (instructions (superReceiver.generate startParser.environment 0).actions) =
      [.superSend (.symbol "bar"), .send (.symbol "baz"), .superSend (.symbol "foo:")] := by
  obtain ⟨final, runs, -, -, -, -, same⟩ := super_sends_iff superReceiver startParser
    startParser_wellFormed 100 [Token.period] (by decide) ⟨rfl, Symbol.noConfusion⟩
  exact ⟨final, runs, (same.mpr ⟨rfl, fun _ member => absurd member List.not_mem_nil⟩).1⟩

/-- `1 max: super size + 2`. -/
def superArgument : Expression :=
  .mk [] (.literal (.integer "1")) [] .done
    (.message ⟨"max:", by decide⟩ (.name ⟨"super", Identifier.lexical_super⟩)
      [⟨"size", by decide⟩]
      (.message .plus (.literal (.integer "2")) [] .done) .done)

/-- The message `+` to the value of `super size` is sent to super. -/
theorem sum_sent_to_super : ¬ ∀ (expression : Expression) (parser : Parser), parser.WellFormed →
    ∀ (calls : Nat) (tokens : List Token), 8 * expression.tokens.length + 3 ≤ calls →
      Parser.EndsExpression tokens →
      ∃ final : Parser,
        (Parser.expression calls).run (parser.reading (expression.tokens ++ tokens)) =
          ⟨.ok (), final.reading tokens, []⟩ ∧
        sends (instructions
            (expression.generate parser.environment parser.objects.length).actions) =
          messageCode expression.messages := by
  intro onlySuper
  obtain ⟨-, -, same⟩ := onlySuper superArgument startParser startParser_wellFormed 100
    [Token.period] (by decide) ⟨rfl, Symbol.noConfusion⟩
  exact absurd same (by decide)

end Somr.Compiler
