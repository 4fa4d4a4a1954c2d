import Somr.Compiler.Recognition

/-!
Owns the proof that the parser accepts every class definition of the grammar and
compiles each of its methods as the grammar prescribes.
-/

namespace Somr.Compiler

open Somr.Foundation

namespace Parser

/-! ### Method patterns -/

theorem keywordPatternArguments_apply (rest : List (Keyword × Parameter))
    {tokens : List Token} (stops : headSym tokens ≠ .keyword) :
    ∀ (first : Keyword × Parameter) (parser : Parser) (calls : Nat), rest.length < calls →
      (keywordPatternArguments calls).run (parser.reading
          ((first :: rest).flatMap (fun part => [part.1.token, part.2.token]) ++ tokens)) =
        ⟨.ok (keywordSignature first rest), (parser.updateMgenc fun mgenc =>
          ((first :: rest).map (·.2)).foldl
            (fun mgenc parameter => mgenc.addArgumentIfAbsent parameter.token.text)
            mgenc).reading tokens, []⟩ := by
  induction rest with
  | nil =>
      intro first parser calls enough
      obtain ⟨calls, rfl⟩ : ∃ more, calls = more + 1 := ⟨calls - 1, by omega⟩
      rw [show [first].flatMap (fun part => [part.1.token, part.2.token]) ++ tokens =
          first.1.token :: first.2.token :: tokens from rfl,
        keywordPatternArguments, Process.bind_of_silent (keyword_apply _ first.1.sym_token),
        argument, variableName, Process.bind_of_silent (identifier_apply _ first.2.named),
        modifyMgenc_bind, reading_updateMgenc, sym_bind, if_neg stops]
      rfl
  | cons next rest inductionHypothesis =>
      intro first parser calls enough
      rw [List.length_cons] at enough
      obtain ⟨calls, rfl⟩ : ∃ more, calls = more + 1 := ⟨calls - 1, by omega⟩
      have again : headSym ((next :: rest).flatMap
          (fun part => [part.1.token, part.2.token]) ++ tokens) = .keyword := rfl
      rw [show (first :: next :: rest).flatMap (fun part => [part.1.token, part.2.token]) ++
          tokens = first.1.token :: first.2.token :: ((next :: rest).flatMap
            (fun part => [part.1.token, part.2.token]) ++ tokens) from rfl,
        keywordPatternArguments, Process.bind_of_silent (keyword_apply _ first.1.sym_token),
        argument, variableName, Process.bind_of_silent (identifier_apply _ first.2.named),
        modifyMgenc_bind, reading_updateMgenc, sym_bind, if_pos again,
        Process.bind_of_silent (inductionHypothesis next _ _ (by omega))]
      rfl

/-- A method context once its pattern has been read. -/
def patternContext (pattern : MethodPattern) : MethodGenerationContext :=
  .opened false pattern.signature ⟨"self" :: pattern.arguments, []⟩

theorem pattern_apply (pattern : MethodPattern) (parser : Parser) {calls : Nat}
    {tokens : List Token} (enough : pattern.tokens.length ≤ calls)
    (stops : headSym tokens ≠ .keyword) :
    (Parser.pattern calls).run ((parser.enterContext
        { toScope := { arguments := ["self"] } }).reading (pattern.tokens ++ tokens)) =
      ⟨.ok (), (parser.enterContext (patternContext pattern)).reading tokens, []⟩ := by
  cases pattern with
  | unary selector =>
      rw [show (MethodPattern.unary selector).tokens ++ tokens = selector.token :: tokens from rfl,
        Parser.pattern, sym_bind, headSym_cons, selector.sym_token]
      exact Process.bind_of_silent (unarySelector_apply _ (Or.inl selector.sym_token))
  | binary operator parameter =>
      rw [show (MethodPattern.binary operator parameter).tokens ++ tokens =
          operator.token :: parameter.token :: tokens from rfl,
        Parser.pattern, sym_bind, headSym_cons]
      have run : binaryPattern.run ((parser.enterContext
          { toScope := { arguments := ["self"] } }).reading
            (operator.token :: parameter.token :: tokens)) =
          ⟨.ok (), (parser.enterContext (patternContext (.binary operator parameter))).reading
            tokens, []⟩ := by
        rw [binaryPattern,
          Process.bind_of_silent (binarySelector_apply _ (Or.inl operator.operator)), setSignature,
          modifyMgenc_bind, reading_updateMgenc, argument, variableName,
          Process.bind_of_silent (identifier_apply _ parameter.named)]
        rfl
      have noIdentifier := Operator.ne_identifier operator
      have noKeyword : operator.token.sym ≠ .keyword := by
        intro named
        have impossible := operator.operator
        rw [named] at impossible
        exact absurd impossible (by decide)
      cases head : operator.token.sym with
      | identifier => exact absurd head noIdentifier
      | keyword => exact absurd head noKeyword
      | _ => exact run
  | keyword first rest =>
      have size : (MethodPattern.keyword first rest).tokens.length = 2 * rest.length + 2 := by
        simp [MethodPattern.tokens]
        omega
      have head : headSym ((MethodPattern.keyword first rest).tokens ++ tokens) = .keyword := rfl
      rw [Parser.pattern, sym_bind, head]
      show (keywordPattern calls).run _ = _
      rw [keywordPattern, MethodPattern.tokens, Process.bind_of_silent
        (keywordPatternArguments_apply rest stops first _ _ (by omega)), symbolFor_bind,
        setSignature, updateMgenc, foldl_addArgumentIfAbsent _ _ rfl]
      simp [modifyMgenc, updateMgenc, enterContext, patternContext, MethodPattern.arguments,
        MethodPattern.signature, MethodGenerationContext.opened, Parser.mgenc, reading]

/-! ### Methods -/

/-- The compilation inside a method and outside of every block. -/
def inMethod (parser : Parser) (mgenc : MethodGenerationContext) : Parser :=
  { parser with contexts := [mgenc] }

theorem inMethod_opened (parser : Parser) (mgenc : MethodGenerationContext) :
    (parser.inMethod mgenc).Opened := List.cons_ne_nil _ _

/-- The compilation after the body of a unit. -/
def afterUnit (parser : Parser) (unit : CodeUnit) : Parser :=
  { parser with
    objects := parser.objects ++ unit.generated.objects
    contexts := [{ unit.mgenc with finished := true }] }

theorem updateMgenc_updateMgenc (parser : Parser)
    (first second : MethodGenerationContext → MethodGenerationContext) :
    (parser.updateMgenc first).updateMgenc second =
      parser.updateMgenc fun mgenc => second (first mgenc) := rfl

/-- The end of a method body whose statements have been read. -/
theorem methodEnd_apply (body : Body) (parser : Parser) (opened : parser.Opened)
    (tokens : List Token) :
    (do
      let parser ← Process.read
      if !parser.mgenc.finished then
        modifyMgenc BytecodeGenerator.emitPOP
        modifyMgenc (BytecodeGenerator.emitPUSHARGUMENT · 0 0)
        modifyMgenc BytecodeGenerator.emitRETURNLOCAL
        modifyMgenc fun mgenc => { mgenc with finished := true }
      let _ ← expect .endTerm : ParserM Unit).run
        ((parser.finish (!body.endsOpen)).reading (Token.endTerm :: tokens)) =
      ⟨.ok (), ((parser.perform (body.closing false)).finish true).reading tokens, []⟩ := by
  have finished : ((parser.finish (!body.endsOpen)).reading
      (Token.endTerm :: tokens)).mgenc.finished = !body.endsOpen := rfl
  rw [read_bind, finished, Body.closing]
  cases body.endsOpen with
  | true =>
      rw [if_pos (by decide), if_pos rfl, modifyMgenc_bind, modifyMgenc_bind, modifyMgenc_bind,
        modifyMgenc_bind]
      simp only [reading_updateMgenc]
      rw [Process.bind_of_silent (expect_same .endTerm Token.endTerm tokens rfl), Process.run_pure,
        if_neg Bool.false_ne_true]
      simp only [finish, perform, updateMgenc_updateMgenc]
      rfl
  | false =>
      rw [if_neg (by decide), if_neg Bool.false_ne_true, perform_nil opened]
      rfl

theorem methodBlock_apply (pattern : MethodPattern) (locals : Option (List Identifier))
    (body : Body) {parser : Parser} {calls : Nat} {tokens : List Token}
    (enough : 8 * ((barredTokens locals).length + body.tokens.length) + 6 ≤ calls) :
    (methodBlock calls).run ((parser.inMethod (patternContext pattern)).reading
        (Token.newTerm :: (barredTokens locals ++ (body.tokens ++ (Token.endTerm :: tokens))))) =
      ⟨.ok (), (parser.afterUnit ⟨false, ⟨[], parser.classContext⟩,
        ⟨"self" :: pattern.arguments, declaredLocals locals⟩, pattern.signature,
        parser.objects.length, body⟩).reading tokens, []⟩ := by
  have contents := blockContents_apply locals (body_recognized body) false
    (inMethod_opened parser (patternContext pattern)) rfl rfl rfl enough
    (rfl : headSym (Token.endTerm :: tokens) = closingSym false)
  have declared : (parser.inMethod (patternContext pattern)).declare locals =
      parser.inMethod (.opened false pattern.signature
        ⟨"self" :: pattern.arguments, declaredLocals locals⟩) := rfl
  have unitState : ∀ g : Generator,
      g = (body.generate ⟨[⟨"self" :: pattern.arguments, declaredLocals locals⟩],
        parser.classContext⟩ false).andThen (.actions (body.closing false)) →
      ((parser.inMethod (.opened false pattern.signature
        ⟨"self" :: pattern.arguments, declaredLocals locals⟩)).extend g).finish true =
      parser.afterUnit ⟨false, ⟨[], parser.classContext⟩,
        ⟨"self" :: pattern.arguments, declaredLocals locals⟩, pattern.signature,
        parser.objects.length, body⟩ := by
    rintro g rfl
    rfl
  rw [declared] at contents
  rw [methodBlock, Process.bind_of_silent (expect_same .newTerm Token.newTerm _ rfl),
    Process.bind_of_silent contents, ← unitState _ rfl, extend_andThen, extend_actions]
  exact methodEnd_apply body _ (extend_opened _ _) tokens

theorem method_tokens_code (pattern : MethodPattern) (locals : Option (List Identifier))
    (body : Body) (tokens : List Token) :
    (MethodDefinition.code pattern locals body).tokens ++ tokens =
      pattern.tokens ++ (Token.equal :: Token.newTerm :: (barredTokens locals ++
        (body.tokens ++ (Token.endTerm :: tokens)))) := by
  simp [MethodDefinition.tokens]

theorem pattern_head (pattern : MethodPattern) (tokens : List Token) :
    headSym (pattern.tokens ++ tokens) = pattern.head.sym := by
  cases pattern <;> rfl

theorem pattern_startsMessage (pattern : MethodPattern) :
    pattern.head.sym.startsMessage = true := by
  cases pattern with
  | unary selector => rfl
  | binary operator parameter =>
      show operator.token.sym.startsMessage = true
      rw [Symbol.startsMessage, operator.operator, Bool.or_true]
  | keyword first rest => rfl

theorem method_code_apply (pattern : MethodPattern) (locals : Option (List Identifier))
    (body : Body) {parser : Parser} {calls : Nat} {tokens : List Token}
    (enough : 8 * (MethodDefinition.code pattern locals body).tokens.length ≤ calls) :
    (method calls).run ((parser.inMethod { toScope := { arguments := ["self"] } }).reading
        ((MethodDefinition.code pattern locals body).tokens ++ tokens)) =
      ⟨.ok (), (parser.afterUnit ⟨false, ⟨[], parser.classContext⟩,
        ⟨"self" :: pattern.arguments, declaredLocals locals⟩, pattern.signature,
        parser.objects.length, body⟩).reading tokens, []⟩ := by
  have size : (MethodDefinition.code pattern locals body).tokens.length =
      pattern.tokens.length + (barredTokens locals).length + body.tokens.length + 3 := by
    simp [MethodDefinition.tokens]
    omega
  have patternRun : (Parser.pattern calls).run
      ((parser.inMethod { toScope := { arguments := ["self"] } }).reading
        (pattern.tokens ++ (Token.equal :: Token.newTerm :: (barredTokens locals ++
          (body.tokens ++ (Token.endTerm :: tokens)))))) =
      ⟨.ok (), (parser.inMethod (patternContext pattern)).reading _, []⟩ :=
    pattern_apply pattern { parser with contexts := [] } (show _ ≤ calls by omega)
      Symbol.noConfusion
  rw [method_tokens_code, method, Process.bind_of_silent patternRun,
    Process.bind_of_silent (expect_same .equal Token.equal _ rfl), sym_bind,
    if_neg (show headSym (Token.newTerm :: _) ≠ .primitive from Symbol.noConfusion),
    methodBlock_apply pattern locals body (by omega)]

theorem method_primitive_apply (pattern : MethodPattern) {parser : Parser} {calls : Nat}
    {tokens : List Token} (enough : (MethodDefinition.primitive pattern).tokens.length ≤ calls) :
    (method calls).run ((parser.inMethod { toScope := { arguments := ["self"] } }).reading
        ((MethodDefinition.primitive pattern).tokens ++ tokens)) =
      ⟨.ok (), (parser.inMethod { patternContext pattern with primitive := true }).reading
        tokens, []⟩ := by
  have size : (MethodDefinition.primitive pattern).tokens.length =
      pattern.tokens.length + 2 := by
    simp [MethodDefinition.tokens]
  have written : (MethodDefinition.primitive pattern).tokens ++ tokens =
      pattern.tokens ++ (Token.equal :: Token.primitive :: tokens) := by
    simp [MethodDefinition.tokens]
  have patternRun : (Parser.pattern calls).run
      ((parser.inMethod { toScope := { arguments := ["self"] } }).reading
        (pattern.tokens ++ (Token.equal :: Token.primitive :: tokens))) =
      ⟨.ok (), (parser.inMethod (patternContext pattern)).reading _, []⟩ :=
    pattern_apply pattern { parser with contexts := [] } (show _ ≤ calls by omega)
      Symbol.noConfusion
  rw [written, method, Process.bind_of_silent patternRun,
    Process.bind_of_silent (expect_same .equal Token.equal _ rfl), sym_bind,
    if_pos (show headSym (Token.primitive :: tokens) = .primitive from rfl), modifyMgenc_bind,
    reading_updateMgenc, primitiveBlock,
    Process.bind_of_silent (expect_same .primitive Token.primitive _ rfl)]
  rfl

/-- One round of the method loops. -/
theorem method_round (definition : MethodDefinition)
    (add : Literal → ClassGenerationContext → ClassGenerationContext) {parser : Parser}
    {calls : Nat} {tokens : List Token} (enough : 8 * definition.tokens.length ≤ calls) :
    (methods add (calls + 1)).run (parser.reading (definition.tokens ++ tokens)) =
      let added := definition.generate add parser.objects.length parser.classContext
      (methods add calls).run ⟨tokens, parser.objects ++ added.objects, [],
        added.classContext⟩ := by
  have starts : (headSym (definition.tokens ++ tokens)).startsMessage = true := by
    cases definition with
    | primitive pattern =>
        rw [MethodDefinition.tokens, List.append_assoc, pattern_head, pattern_startsMessage]
    | code pattern locals body =>
        rw [method_tokens_code, pattern_head, pattern_startsMessage]
  rw [methods, sym_bind, if_pos starts]
  refine (Process.bind_of_silent (Process.run_modify _ _)).trans ?_
  cases definition with
  | primitive pattern =>
      refine (Process.bind_of_silent (method_primitive_apply pattern (by omega))).trans ?_
      rfl
  | code pattern locals body =>
      let unit : CodeUnit := ⟨false, ⟨[], parser.classContext⟩,
        ⟨"self" :: pattern.arguments, declaredLocals locals⟩, pattern.signature,
        parser.objects.length, body⟩
      refine (Process.bind_of_silent (method_code_apply pattern locals body enough)).trans ?_
      have coded : ((parser.afterUnit unit).reading tokens).mgenc.primitive = false :=
        MethodGenerationContext.primitive_perform _ _
      refine (read_bind _ _).trans ?_
      rw [if_neg (by rw [coded]; exact Bool.false_ne_true)]
      show (methods add calls).run ⟨tokens,
        (parser.objects ++ unit.generated.objects) ++ [.method unit.mgenc.compiled], [],
        add (.object (parser.objects ++ unit.generated.objects).length) parser.classContext⟩ = _
      rw [List.append_assoc, List.length_append]
      rfl

theorem methods_apply (add : Literal → ClassGenerationContext → ClassGenerationContext)
    {tokens : List Token} (stops : (headSym tokens).startsMessage = false)
    (definitions : List MethodDefinition) :
    ∀ (parser : Parser) (calls : Nat), parser.contexts = [] →
      8 * (definitions.flatMap MethodDefinition.tokens).length < calls →
      (methods add calls).run
          (parser.reading (definitions.flatMap MethodDefinition.tokens ++ tokens)) =
        let added := generateMethods add parser.objects.length parser.classContext definitions
        ⟨.ok (), (⟨[], parser.objects ++ added.objects, [], added.classContext⟩
          : Parser).reading tokens, []⟩ := by
  induction definitions with
  | nil =>
      intro parser calls outside enough
      obtain ⟨calls, rfl⟩ : ∃ more, calls = more + 1 := ⟨calls - 1, by omega⟩
      rw [methods, List.flatMap_nil, List.nil_append, sym_bind, stops]
      simp [generateMethods, reading, outside]
  | cons definition rest inductionHypothesis =>
      intro parser calls outside enough
      obtain ⟨calls, rfl⟩ : ∃ more, calls = more + 1 := ⟨calls - 1, by omega⟩
      rw [List.flatMap_cons, List.length_append] at enough
      have positive : 0 < definition.tokens.length := by
        cases definition with
        | primitive pattern => simp [MethodDefinition.tokens]
        | code pattern locals body =>
            simp only [MethodDefinition.tokens, List.length_append, List.length_cons]
            omega
      rw [List.flatMap_cons, List.append_assoc, method_round definition add (by omega)]
      have later := inductionHypothesis
        ⟨[], parser.objects ++ (definition.generate add parser.objects.length
          parser.classContext).objects, [], (definition.generate add parser.objects.length
          parser.classContext).classContext⟩ calls rfl (by omega)
      refine later.trans ?_
      simp [generateMethods]

/-! ### Classes -/

theorem fieldNames_apply (add : String → ClassGenerationContext → ClassGenerationContext)
    (names : List Identifier) {tokens : List Token} (stops : headSym tokens ≠ .identifier) :
    ∀ (parser : Parser) (calls : Nat), names.length < calls →
      (fieldNames add calls).run (parser.reading (names.map Identifier.token ++ tokens)) =
        ⟨.ok (), ({ parser with
          classContext := names.foldl (fun cgenc name => add name.text cgenc)
            parser.classContext } : Parser).reading tokens, []⟩ := by
  induction names with
  | nil =>
      intro parser calls enough
      obtain ⟨calls, rfl⟩ : ∃ more, calls = more + 1 := ⟨calls - 1, by omega⟩
      rw [fieldNames, List.map_nil, List.nil_append, sym_bind, if_neg stops]
      rfl
  | cons name rest inductionHypothesis =>
      intro parser calls enough
      rw [List.length_cons] at enough
      obtain ⟨calls, rfl⟩ : ∃ more, calls = more + 1 := ⟨calls - 1, by omega⟩
      rw [fieldNames, List.map_cons, List.cons_append, sym_bind, headSym_cons,
        if_pos name.sym_token, variableName,
        Process.bind_of_silent (identifier_apply _ (Or.inl name.sym_token)), symbolFor_bind]
      refine (Process.bind_of_silent (Process.run_modify _ _)).trans ?_
      exact inductionHypothesis
        { parser with classContext := add name.text parser.classContext } calls (by omega)

theorem fields_apply (add : String → ClassGenerationContext → ClassGenerationContext)
    (side : ClassSide) (parser : Parser) {calls : Nat} {tokens : List Token}
    (noBar : headSym tokens ≠ .or) (enough : (barredTokens side.fields).length ≤ calls) :
    (fields add calls).run (parser.reading (side.tokens ++ tokens)) =
      ⟨.ok (), ({ parser with
          classContext := (side.fields.getD []).foldl (fun cgenc name => add name.text cgenc)
            parser.classContext } : Parser).reading
              (side.methods.flatMap MethodDefinition.tokens ++ tokens), []⟩ := by
  obtain ⟨declared, definitions, unambiguous⟩ := side
  cases declared with
  | none =>
      have noField : headSym ((definitions.flatMap MethodDefinition.tokens) ++ tokens) ≠ .or := by
        cases definitions with
        | nil => exact noBar
        | cons definition rest =>
            have first := unambiguous rfl definition rfl
            cases definition with
            | primitive pattern =>
                rw [List.flatMap_cons, MethodDefinition.tokens, List.append_assoc,
                  List.append_assoc, pattern_head]
                exact first
            | code pattern locals body =>
                rw [List.flatMap_cons, List.append_assoc, method_tokens_code, pattern_head]
                exact first
      rw [fields, show (ClassSide.mk none definitions unambiguous).tokens =
          definitions.flatMap MethodDefinition.tokens from rfl,
        Process.bind_of_silent (accept_other noField)]
      rfl
  | some names =>
      have size : (barredTokens (some names)).length = names.length + 2 := by
        simp [barredTokens]
      have enough : (barredTokens (some names)).length ≤ calls := enough
      rw [fields, show (ClassSide.mk (some names) definitions unambiguous).tokens ++ tokens =
          Token.or :: (names.map Identifier.token ++ (Token.or ::
            (definitions.flatMap MethodDefinition.tokens ++ tokens))) by
              simp [ClassSide.tokens, barredTokens],
        Process.bind_of_silent (accept_same .or Token.or _ rfl), if_pos rfl,
        Process.bind_of_silent (fieldNames_apply add names Symbol.noConfusion _ _ (by omega)),
        Process.bind_of_silent (expect_same .or Token.or _ rfl)]
      rfl

theorem instanceFields_foldl (names : List Identifier) (cgenc : ClassGenerationContext) :
    names.foldl (fun cgenc name =>
        { cgenc with instanceFields := cgenc.instanceFields ++ [name.text] }) cgenc =
      { cgenc with instanceFields := cgenc.instanceFields ++ names.map Identifier.text } := by
  induction names generalizing cgenc with
  | nil => simp
  | cons name rest inductionHypothesis => simp [inductionHypothesis]

theorem classFields_foldl (names : List Identifier) (cgenc : ClassGenerationContext) :
    names.foldl (fun cgenc name =>
        { cgenc with classFields := cgenc.classFields ++ [name.text] }) cgenc =
      { cgenc with classFields := cgenc.classFields ++ names.map Identifier.text } := by
  induction names generalizing cgenc with
  | nil => simp
  | cons name rest inductionHypothesis => simp [inductionHypothesis]

theorem modifyClass_bind {Value : Type} (parser : Parser)
    (change : ClassGenerationContext → ClassGenerationContext) (rest : Unit → ParserM Value) :
    (modifyClass change >>= rest).run parser =
      (rest ()).run (parser.updateClass change) := rfl

theorem reading_updateClass (parser : Parser) (tokens : List Token)
    (change : ClassGenerationContext → ClassGenerationContext) :
    (parser.reading tokens).updateClass change = (parser.updateClass change).reading tokens := rfl

/-- The part of `Classdef` behind the instance side. -/
def classEnd (calls : Nat) : ParserM Unit := do
  if ← accept .separator then
    modifyClass fun cgenc => { cgenc with classSide := true }
    classFields calls
    methods (fun invokable cgenc =>
      { cgenc with classMethods := cgenc.classMethods ++ [invokable] }) calls
  let _ ← expect .endTerm

theorem classEnd_apply (classSide : Option ClassSide) (parser : Parser) {calls : Nat}
    (outside : parser.contexts = [])
    (enough : 8 * (classSideTokens classSide).length ≤ calls) :
    (classEnd calls).run (parser.reading (classSideTokens classSide ++ [Token.endTerm])) =
      let added := generateClassSide parser.objects.length parser.classContext classSide
      ⟨.ok (), ⟨[], parser.objects ++ added.objects, [], added.classContext⟩, []⟩ := by
  rw [classEnd]
  cases classSide with
  | none =>
      have noSeparator : headSym (classSideTokens none ++ [Token.endTerm]) ≠ .separator :=
        Symbol.noConfusion
      rw [Process.bind_of_silent (accept_other noSeparator)]
      simp only [Bool.false_eq_true, if_false]
      refine (Process.bind_of_silent (expect_same .endTerm Token.endTerm [] rfl)).trans ?_
      simp [generateClassSide, reading, outside]
  | some side =>
      have size : (classSideTokens (some side)).length = (barredTokens side.fields).length +
          (side.methods.flatMap MethodDefinition.tokens).length + 1 := by
        simp [classSideTokens, ClassSide.tokens]
      have written : classSideTokens (some side) ++ [Token.endTerm] =
          Token.separator :: (side.tokens ++ [Token.endTerm]) := rfl
      have fieldsRun := fields_apply (fun var cgenc =>
          { cgenc with classFields := cgenc.classFields ++ [var] }) side
        { parser with classContext := { parser.classContext with classSide := true } }
        (show headSym [Token.endTerm] ≠ .or from Symbol.noConfusion)
        (show (barredTokens side.fields).length ≤ calls by omega)
      rw [classFields_foldl] at fieldsRun
      have methodsRun := methods_apply (fun invokable cgenc =>
          { cgenc with classMethods := cgenc.classMethods ++ [invokable] })
        (rfl : (headSym [Token.endTerm]).startsMessage = false) side.methods
        { parser with classContext := { parser.classContext with
            classSide := true
            classFields := parser.classContext.classFields ++ fieldTexts side.fields } }
        calls outside (by omega)
      rw [written, Process.bind_of_silent (accept_same .separator Token.separator _ rfl),
        if_pos rfl, modifyClass_bind]
      refine (Process.bind_of_silent fieldsRun).trans ?_
      refine (Process.bind_of_silent methodsRun).trans ?_
      refine (Process.bind_of_silent (expect_same .endTerm Token.endTerm [] rfl)).trans ?_
      rfl

/-- The part of `Classdef` behind the name and the superclass. -/
def classBody (calls : Nat) : ParserM Unit := do
  let _ ← expect .newTerm
  instanceFields calls
  methods (fun invokable cgenc =>
    { cgenc with instanceMethods := cgenc.instanceMethods ++ [invokable] }) calls
  classEnd calls

theorem classBody_apply (definition : ClassDefinition) {calls : Nat}
    (enough : 8 * definition.tokens.length ≤ calls) (parser : Parser)
    (outside : parser.contexts = []) (fresh : parser.objects = [])
    (named : { parser.classContext with
      instanceFields := parser.classContext.instanceFields ++
        fieldTexts definition.instanceSide.fields } = definition.instanceContext) :
    (classBody calls).run (parser.reading (Token.newTerm :: (definition.instanceSide.tokens ++
        (classSideTokens definition.classSide ++ [Token.endTerm])))) =
      ⟨.ok (), ⟨[], definition.generate.objects, [], definition.generate.classContext⟩, []⟩ := by
  have size : definition.tokens.length =
      definition.superName.toList.length +
        (barredTokens definition.instanceSide.fields).length +
        (definition.instanceSide.methods.flatMap MethodDefinition.tokens).length +
        (classSideTokens definition.classSide).length + 4 := by
    simp [ClassDefinition.tokens, ClassSide.tokens]
    omega
  have noBar : headSym (classSideTokens definition.classSide ++ [Token.endTerm]) ≠ .or := by
    cases definition.classSide <;> exact Symbol.noConfusion
  have stops : (headSym (classSideTokens definition.classSide ++
      [Token.endTerm])).startsMessage = false := by
    cases definition.classSide <;> rfl
  have fieldsRun := fields_apply (fun var cgenc =>
      { cgenc with instanceFields := cgenc.instanceFields ++ [var] }) definition.instanceSide
    parser noBar (show _ ≤ calls by omega)
  rw [instanceFields_foldl, ← fieldTexts, named] at fieldsRun
  have methodsRun := methods_apply (fun invokable cgenc =>
      { cgenc with instanceMethods := cgenc.instanceMethods ++ [invokable] }) stops
    definition.instanceSide.methods { parser with classContext := definition.instanceContext }
    calls outside (by omega)
  rw [classBody, Process.bind_of_silent (expect_same .newTerm Token.newTerm _ rfl)]
  refine (Process.bind_of_silent fieldsRun).trans ?_
  refine (Process.bind_of_silent methodsRun).trans ?_
  refine (classEnd_apply definition.classSide _ rfl (by omega)).trans ?_
  simp [fresh, ClassDefinition.generate]

/-- The parser accepts a class definition of the grammar and compiles it as the
grammar prescribes. -/
theorem classdef_apply (definition : ClassDefinition) {calls : Nat}
    (enough : 8 * definition.tokens.length ≤ calls) :
    (classdef calls).run { tokens := definition.tokens } =
      ⟨.ok (), ⟨[], definition.generate.objects, [], definition.generate.classContext⟩, []⟩ := by
  have starts : headSym (Token.newTerm :: (definition.instanceSide.tokens ++
      (classSideTokens definition.classSide ++ [Token.endTerm]))) = .newTerm := rfl
  have body := classBody_apply definition enough
    { tokens := [], classContext :=
        { name := definition.name.text
          superName := (definition.superName.map Identifier.text).getD "Object" } } rfl rfl rfl
  rw [← body, show ({ tokens := definition.tokens } : Parser) =
      ({ tokens := [] } : Parser).reading definition.tokens from rfl, ClassDefinition.tokens]
  generalize Token.newTerm :: (definition.instanceSide.tokens ++
    (classSideTokens definition.classSide ++ [Token.endTerm])) = behind at starts ⊢
  rw [classdef, text_bind, symbolFor_bind, modifyClass_bind, reading_updateClass,
    Process.bind_of_silent (expect_same .identifier definition.name.token _ rfl),
    Process.bind_of_silent (expect_same .equal Token.equal _ rfl), sym_bind]
  cases definition.superName with
  | none =>
      have noName : headSym behind ≠ .identifier := by
        rw [starts]
        exact Symbol.noConfusion
      rw [show Option.none.toList.map Identifier.token ++ behind = behind from rfl,
        if_neg noName]
      refine (Process.bind_of_silent (Process.run_pure _ _)).trans ?_
      rw [symbolFor_bind, modifyClass_bind, reading_updateClass,
        Process.bind_of_silent (accept_other noName)]
      rfl
  | some superName =>
      rw [show (some superName).toList.map Identifier.token ++ behind =
          superName.token :: behind from rfl,
        if_pos (show headSym (superName.token :: behind) = .identifier from rfl), text_bind,
        symbolFor_bind, modifyClass_bind, reading_updateClass,
        Process.bind_of_silent (accept_same .identifier superName.token _ rfl)]
      rfl

/-- The number of calls `parse` allows is enough. -/
theorem parse_tokens (definition : ClassDefinition) :
    parse definition.tokens =
      ⟨.ok (), ⟨[], definition.generate.objects, [], definition.generate.classContext⟩, []⟩ :=
  classdef_apply definition (by omega)

end Parser

end Somr.Compiler
