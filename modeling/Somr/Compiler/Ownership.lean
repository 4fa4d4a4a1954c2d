import Somr.Compiler.ParserTermination
import Mathlib.Data.List.Nodup
import Mathlib.Data.List.Perm.Subperm

/-!
Owns the fact that the parser gives every object it allocates to one owner: a
literal table, or the methods of the class. It holds on every token stream, with
or without syntax errors.

So the methods of the two sides of a class are different objects, a block belongs
to one method or block around it, and no method of the class is a block.
-/

namespace Somr.Compiler.Parser

open Somr.Foundation

/-- The objects that have an owner, as often as they are referred to. -/
def owned (parser : Parser) : List Nat :=
  references (parser.objects.flatMap objectLiterals) ++ contextReferences parser.contexts ++
    references (methodLiterals parser.classContext)

/-- Every object has at most one owner. -/
structure Owned (parser : Parser) : Prop where
  nodup : parser.owned.Nodup
  allocated : ∀ address ∈ parser.owned, address < parser.objects.length

/-- The computation keeps ownership. -/
def KeepsOwned {Value : Type} (process : ParserM Value) : Prop :=
  Process.Triple (.any SyntaxError Parser) Owned process fun _ => Owned

variable {parser after : Parser}

/-- No object gets another owner. -/
theorem Owned.of_subperm (isOwned : Owned parser) (fewer : after.owned.Subperm parser.owned)
    (grows : parser.objects.length ≤ after.objects.length) : Owned after where
  nodup := by
    obtain ⟨list, perm, sublist⟩ := fewer
    exact perm.nodup_iff.mp (isOwned.nodup.sublist sublist)
  allocated address member :=
    Nat.lt_of_lt_of_le (isOwned.allocated address (fewer.subset member)) grows

/-- A new object gets an owner. -/
theorem Owned.of_new (isOwned : Owned parser)
    (fewer : after.owned.Subperm (parser.objects.length :: parser.owned))
    (grows : parser.objects.length < after.objects.length) : Owned after := by
  have fresh : parser.objects.length ∉ parser.owned := fun member =>
    Nat.lt_irrefl _ (isOwned.allocated _ member)
  constructor
  · obtain ⟨list, perm, sublist⟩ := fewer
    exact perm.nodup_iff.mp ((List.nodup_cons.mpr ⟨fresh, isOwned.nodup⟩).sublist sublist)
  · intro address member
    rcases List.mem_cons.mp (fewer.subset member) with rfl | isOld
    · exact grows
    · exact Nat.lt_trans (isOwned.allocated address isOld) grows

/-! ### Steps -/

theorem keepsOwned_modify {change : Parser → Parser}
    (keeps : ∀ parser, Owned parser → Owned (change parser)) :
    KeepsOwned (Process.modify change) :=
  Process.triple_modify (fun _ _ => trivial) keeps

theorem keepsOwned_silent {Value : Type} {process : ParserM Value}
    (silent : ∀ parser, (process.run parser).state = parser) : KeepsOwned process := by
  intro parser isOwned _
  rw [silent parser]
  exact ⟨trivial, fun _ _ => isOwned⟩

/-- The references of the innermost context and of those around it. -/
theorem contextReferences_mgenc (parser : Parser) :
    contextReferences parser.contexts =
      references parser.mgenc.literals ++ contextReferences parser.contexts.tail := by
  rw [mgenc, contextReferences, contextReferences]
  cases parser.contexts with
  | nil => rfl
  | cons mgenc outer => rfl

theorem owned_mgenc (parser : Parser) :
    parser.owned = references (parser.objects.flatMap objectLiterals) ++
      (references parser.mgenc.literals ++ contextReferences parser.contexts.tail) ++
        references (methodLiterals parser.classContext) := by
  rw [owned, contextReferences_mgenc]

theorem references_objects (objects : List CompiledObject) (object : CompiledObject) :
    references ((objects ++ [object]).flatMap objectLiterals) =
      references (objects.flatMap objectLiterals) ++ references (objectLiterals object) := by
  rw [List.flatMap_append, references_append, List.flatMap_singleton]

/-- A constant is referred to once at most. -/
theorem references_addLiteralIfAbsent (mgenc : MethodGenerationContext) (address : Nat) :
    (references (mgenc.addLiteralIfAbsent (.object address)).literals).Subperm
      (address :: references mgenc.literals) := by
  unfold MethodGenerationContext.addLiteralIfAbsent
  split
  · exact (List.sublist_cons_self _ _).subperm
  · rw [MethodGenerationContext.addLiteral, references_append]
    exact (List.perm_append_singleton _ _).subperm

theorem finishConstant_run {Value : Type} (object : CompiledObject)
    (rest : Literal → ParserM Value) (parser : Parser) :
    (finishConstant object rest).run parser = (rest (.object parser.objects.length)).run
      (updateMgenc (·.addLiteralIfAbsent (.object parser.objects.length))
        { parser with objects := parser.objects ++ [object] }) := rfl

theorem finishBlock_run {Value : Type} (rest : Literal → ParserM Value) (parser : Parser) :
    (finishBlock rest).run parser = (rest (.object parser.objects.length)).run
      (updateMgenc (·.addLiteral (.object parser.objects.length))
        { parser with
          contexts := parser.contexts.tail
          objects := parser.objects ++ [CompiledObject.method parser.mgenc.compiled] }) := rfl

/-- The object that a method ends in. -/
def finishedMethod (mgenc : MethodGenerationContext) : CompiledObject :=
  if mgenc.primitive then .primitive mgenc.signature else .method mgenc.compiled

theorem references_finishedMethod (mgenc : MethodGenerationContext) :
    (references (objectLiterals (finishedMethod mgenc))).Sublist (references mgenc.literals) := by
  unfold finishedMethod
  split
  · exact List.nil_sublist _
  · exact List.Sublist.refl _

theorem references_perm {literals others : List Literal} (perm : literals.Perm others) :
    (references literals).Perm (references others) := perm.filterMap _

theorem finishMethod_run {Value : Type}
    (add : Literal → ClassGenerationContext → ClassGenerationContext) (rest : ParserM Value)
    (parser : Parser) : (finishMethod add rest).run parser = rest.run
      { parser with
        objects := parser.objects ++ [finishedMethod parser.mgenc]
        contexts := []
        classContext := add (.object parser.objects.length) parser.classContext } := by
  rw [finishedMethod, finishMethod, Process.bind_of_silent (Process.run_read parser)]
  cases parser.mgenc.primitive <;> rfl

/-- A run that goes on from a state in which every object has at most one owner. -/
theorem KeepsOwned.of_run {Value : Type} {process rest : ParserM Value} {parser after : Parser}
    (same : process.run parser = rest.run after) (holds : KeepsOwned rest) (isOwned : Owned after)
    (allowed : ∀ event ∈ (process.run parser).events, True) :
    True ∧ ∀ value, (process.run parser).result = .ok value → Owned (process.run parser).state := by
  rw [same] at allowed ⊢
  exact holds after isOwned allowed

theorem length_lt_concat (objects : List CompiledObject) (object : CompiledObject) :
    objects.length < (objects ++ [object]).length := by
  rw [List.length_append]
  exact Nat.lt_succ_self _

theorem ownedRules : LoopRules fun _ => KeepsOwned where
  pure value := Process.triple_pure fun _ holds => holds
  bind early late := Process.Triple.bind _ early late
  sym := keepsOwned_silent fun _ => rfl
  text := keepsOwned_silent fun _ => rfl
  peek := keepsOwned_silent fun _ => rfl
  read := keepsOwned_silent fun _ => rfl
  getSym := keepsOwned_modify fun parser isOwned => ⟨isOwned.nodup, isOwned.allocated⟩
  report error := keepsOwned_silent fun _ => rfl
  contexts change fewer := by
    refine keepsOwned_modify fun parser isOwned => isOwned.of_subperm ?_ (Nat.le_refl _)
    apply List.Sublist.subperm
    exact ((List.Sublist.refl _).append (fewer parser)).append (List.Sublist.refl _)
  ofConstant := by
    intro Value object rest noLiterals holds parser isOwned allowed
    refine KeepsOwned.of_run (finishConstant_run object rest parser) (holds _) ?_ allowed
    refine isOwned.of_new (List.subperm_iff_count.mpr fun address => ?_) ?_
    · have added := (references_addLiteralIfAbsent parser.mgenc parser.objects.length).count_le
        address
      have after : (updateMgenc (·.addLiteralIfAbsent (.object parser.objects.length))
          { parser with objects := parser.objects ++ [object] }).owned =
          references ((parser.objects ++ [object]).flatMap objectLiterals) ++
            (references (parser.mgenc.addLiteralIfAbsent
              (.object parser.objects.length)).literals ++
              contextReferences parser.contexts.tail) ++
            references (methodLiterals parser.classContext) := rfl
      rw [after, owned_mgenc, references_objects, noLiterals]
      simp only [List.count_append, List.count_cons, references, List.filterMap_nil,
        List.count_nil] at added ⊢
      omega
    · exact length_lt_concat _ object
  ofBlock := by
    intro Value rest holds parser isOwned allowed
    refine KeepsOwned.of_run (finishBlock_run rest parser) (holds _) ?_ allowed
    refine isOwned.of_new (List.subperm_iff_count.mpr fun address => ?_) ?_
    · have outside := contextReferences_mgenc { parser with contexts := parser.contexts.tail }
      have after : (updateMgenc (·.addLiteral (.object parser.objects.length))
          { parser with
            contexts := parser.contexts.tail
            objects := parser.objects ++ [CompiledObject.method parser.mgenc.compiled] }).owned =
          references ((parser.objects ++ [CompiledObject.method parser.mgenc.compiled]).flatMap
              objectLiterals) ++
            (references ((parser.contexts.tail.headD {}).literals ++
              [.object parser.objects.length]) ++ contextReferences parser.contexts.tail.tail) ++
            references (methodLiterals parser.classContext) := rfl
      have inner : references (objectLiterals (CompiledObject.method parser.mgenc.compiled)) =
          references parser.mgenc.literals := rfl
      have last : references [Literal.object parser.objects.length] = [parser.objects.length] := rfl
      rw [after, owned_mgenc, references_objects, inner, references_append, last,
        show contextReferences parser.contexts.tail = _ from outside]
      simp only [List.count_append, List.count_cons, List.count_nil, mgenc]
      omega
    · exact length_lt_concat _ _
  ofMethod := by
    intro Value add rest adds holds parser isOwned allowed
    refine KeepsOwned.of_run (finishMethod_run add rest parser) holds ?_ allowed
    refine isOwned.of_new (List.subperm_iff_count.mpr fun address => ?_) ?_
    · have added := (references_perm
        (adds (.object parser.objects.length) parser.classContext).2).count_eq address
      have after : owned { parser with
          objects := parser.objects ++ [finishedMethod parser.mgenc]
          contexts := []
          classContext := add (.object parser.objects.length) parser.classContext } =
          references ((parser.objects ++ [finishedMethod parser.mgenc]).flatMap objectLiterals) ++
            [] ++ references (methodLiterals
              (add (.object parser.objects.length) parser.classContext)) := rfl
      have first : references (.object parser.objects.length ::
          methodLiterals parser.classContext) = parser.objects.length ::
            references (methodLiterals parser.classContext) := rfl
      have inner := (references_finishedMethod parser.mgenc).count_le address
      rw [first] at added
      rw [after, owned_mgenc, references_objects]
      simp only [List.count_append, List.count_cons, List.count_nil] at added ⊢
      omega
    · exact length_lt_concat _ _
  classContext change keeps := by
    refine keepsOwned_modify fun parser isOwned => isOwned.of_subperm ?_ (Nat.le_refl _)
    obtain ⟨-, instanceMethods, classMethods⟩ := keeps parser.classContext
    apply List.Sublist.subperm
    rw [owned, owned, updateClass, methodLiterals, methodLiterals]
    simp only [instanceMethods, classMethods]
    exact List.Sublist.refl _
  stop := Process.triple_stop _

/-! ### Whole token streams -/

theorem owned_parse (tokens : List Token) : Owned (parse tokens).state := by
  have behind := @holds_behindName _ ownedRules.toStepRules (16 * (tokens.length + 1))
    (fun _ keepsMethods => ownedRules.fieldNames keepsMethods _)
    (fun _ adds => ownedRules.methods adds _)
  have named : ∀ name : String, KeepsOwned (modifyClass fun cgenc => { cgenc with name := name }) :=
    fun name => keepsOwned_modify fun parser isOwned => ⟨isOwned.nodup, isOwned.allocated⟩
  have keeps : KeepsOwned (classdef (16 * (tokens.length + 1))) := by
    rw [classdef_eq]
    apply ownedRules.bind ownedRules.text fun name => ?_
    apply ownedRules.bind (ownedRules.symbolFor name) fun _ => ?_
    exact ownedRules.bind (named name) fun _ => behind
  have start : Owned { tokens := tokens } := ⟨List.nodup_nil, fun _ absent => nomatch absent⟩
  obtain ⟨⟨⟩, final, errors, ran⟩ := finishes_parse tokens
  obtain ⟨-, ends⟩ := keeps { tokens := tokens } start fun _ _ => trivial
  exact ends () (by rw [ran])

theorem mem_references {literals : List Literal} {address : Nat} :
    address ∈ references literals ↔ .object address ∈ literals := by
  rw [references, List.mem_filterMap]
  constructor
  · rintro ⟨literal, member, found⟩
    cases literal with
    | symbol text => exact nomatch found
    | object other => exact Option.some.inj found ▸ member
  · exact fun member => ⟨_, member, rfl⟩

/-- The owners of the objects of a compilation are different: two literal tables share
no object, and none with the methods of the class. -/
structure Separated (objects : List CompiledObject) (cgenc : ClassGenerationContext) : Prop where
  methods : (references (methodLiterals cgenc)).Nodup
  tables : ∀ {first second : Nat} {early late : CompiledMethod} {address : Nat},
    objects[first]? = some (.method early) → objects[second]? = some (.method late) →
    .object address ∈ early.literals → .object address ∈ late.literals → first = second
  installed : ∀ {index : Nat} {method : CompiledMethod} {address : Nat},
    objects[index]? = some (.method method) → .object address ∈ method.literals →
    .object address ∉ methodLiterals cgenc

theorem references_flatMap (objects : List CompiledObject) :
    references (objects.flatMap objectLiterals) =
      objects.flatMap fun object => references (objectLiterals object) := by
  induction objects with
  | nil => rfl
  | cons object objects inductionHypothesis =>
      rw [List.flatMap_cons, references_append, inductionHypothesis, List.flatMap_cons]

theorem Owned.separated (isOwned : Owned parser) :
    Separated parser.objects parser.classContext := by
  obtain ⟨tables, methods, apart⟩ := List.nodup_append.mp isOwned.nodup
  have objects := (List.nodup_append.mp tables).1
  refine ⟨methods, ?_, ?_⟩
  · intro first second early late address isFirst isSecond inEarly inLate
    rw [references_flatMap, List.nodup_flatMap] at objects
    have disjoint := List.pairwise_iff_getElem.mp objects.2
    obtain ⟨belowFirst, first_eq⟩ := List.getElem?_eq_some_iff.mp isFirst
    obtain ⟨belowSecond, second_eq⟩ := List.getElem?_eq_some_iff.mp isSecond
    have inFirst : address ∈ references (objectLiterals parser.objects[first]) := by
      rw [first_eq]
      exact mem_references.mpr inEarly
    have inSecond : address ∈ references (objectLiterals parser.objects[second]) := by
      rw [second_eq]
      exact mem_references.mpr inLate
    rcases Nat.lt_trichotomy first second with less | same | less
    · exact absurd inSecond (disjoint first second belowFirst belowSecond less inFirst)
    · exact same
    · exact absurd inFirst (disjoint second first belowSecond belowFirst less inSecond)
  · intro index method address found inTable inMethods
    refine apart address ?_ address (mem_references.mpr inMethods) rfl
    apply List.mem_append_left
    rw [references_flatMap]
    exact List.mem_flatMap.mpr ⟨_, List.mem_of_getElem? found, mem_references.mpr inTable⟩

/-- On every token stream, what the parser leaves has different owners. -/
theorem separated_parse (tokens : List Token) :
    Separated (parse tokens).state.objects (parse tokens).state.classContext :=
  (owned_parse tokens).separated

end Somr.Compiler.Parser
