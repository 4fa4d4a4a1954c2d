import Somr.Classes.Holders

/-!
Owns the signatures of invokables: every invokable of a class is a method, a primitive
or an evaluation primitive that has a signature.

The signature of a compiled invokable is found in its compilation. Compilations are only
added, so the invariant carries those that there were at the beginning of a load.
-/

namespace Somr.Classes

open Foundation Compiler Interpreter Process

/-- Every invokable of a class has a signature, and these compilations are there. -/
structure Signed (before : List Compilation) (image : Image) : Prop where
  compiled : before <+: image.compilations
  signed : ∀ clazz ∈ image.classes, ∀ invokable ∈ clazz.instanceInvokables,
    (image.signature? invokable).isSome = true

/-- The invokable has a signature because of these compilations. -/
def SignedBy (before : List Compilation) (invokable : InvokableAddress) : Prop :=
  (Image.signature? { compilations := before } invokable).isSome = true

abbrev KeepsSigned (pre : Image → Prop) {Value : Type} (process : ClassM Value)
    (post : Value → Image → Prop) : Prop :=
  Triple (keepsKnown anyClass) pre process post

theorem getElem?_of_prefix {Element : Type} {early late : List Element} (isPrefix : early <+: late)
    {index : Nat} {element : Element} (found : early[index]? = some element) :
    late[index]? = some element := by
  obtain ⟨more, rfl⟩ := isPrefix
  rw [List.getElem?_append_left (List.getElem?_eq_some_iff.mp found).1, found]

/-- More compilations and evaluation primitives leave signatures as they are. -/
theorem signature?_isSome {image other : Image}
    (compilations : image.compilations <+: other.compilations)
    (evaluations : image.evaluations <+: other.evaluations) {invokable : InvokableAddress}
    (signed : (image.signature? invokable).isSome = true) :
    (other.signature? invokable).isSome = true := by
  cases invokable with
  | code method =>
      cases method with
      | bootstrap => rfl
      | compiled compilation address =>
          cases found : image.compilations[compilation]? with
          | none => simp [Image.signature?, Image.object?, found] at signed
          | some source =>
              have still : other.compilations[compilation]? = some source :=
                getElem?_of_prefix compilations found
              simpa [Image.signature?, Image.object?, found, still] using signed
  | evaluation number =>
      cases found : image.evaluations[number]? with
      | none => simp [Image.signature?, found] at signed
      | some argc =>
          have still : other.evaluations[number]? = some argc :=
            getElem?_of_prefix evaluations found
          simp [Image.signature?, still]

section

variable {before : List Compilation} {image : Image}

theorem Signed.by (signed : Signed before image) {invokable : InvokableAddress}
    (isSigned : SignedBy before invokable) : (image.signature? invokable).isSome = true :=
  signature?_isSome signed.compiled (List.nil_prefix) isSigned

/-! ### Steps of a load -/

theorem Signed.of_same {other : Image} (signed : Signed before image)
    (classes : other.classes = image.classes)
    (compilations : other.compilations = image.compilations)
    (evaluations : other.evaluations = image.evaluations) : Signed before other := by
  refine ⟨compilations ▸ signed.compiled, fun clazz there invokable isIn => ?_⟩
  have isSigned := signed.signed clazz (classes ▸ there) invokable isIn
  exact signature?_isSome (compilations ▸ List.prefix_rfl) (evaluations ▸ List.prefix_rfl) isSigned

theorem setGlobal_signed (name : String) (val : Option Global) :
    KeepsSigned (Signed before) (setGlobal name val) fun _ => Signed before :=
  triple_modify (fun _ _ _ known => known) fun _ signed => signed.of_same rfl rfl rfl

theorem setHolder_signed (holder : ClassAddress) (invokable : InvokableAddress) :
    KeepsSigned (Signed before) (setHolder holder invokable) fun _ => Signed before :=
  triple_modify (fun _ _ _ known => known) fun _ signed => signed.of_same rfl rfl rfl

/-- The invokables of the changed class are old ones, or good ones that have signatures. -/
theorem changeInvokables_signed {Good : InvokableAddress → Prop} (address : ClassAddress)
    (change : VMClass → VMClass)
    (signs : ∀ clazz, ∀ invokable ∈ (change clazz).instanceInvokables,
      invokable ∈ clazz.instanceInvokables ∨ Good invokable) :
    KeepsSigned
      (fun image => Signed before image ∧
        ∀ invokable, Good invokable → (image.signature? invokable).isSome = true)
      (changeClass address change) fun _ => Signed before := by
  refine triple_modify (fun _ _ _ known => known) fun image ⟨signed, good⟩ =>
    ⟨signed.compiled, ?_⟩
  intro clazz there invokable isIn
  change (image.signature? invokable).isSome = true
  obtain ⟨index, below, found⟩ := List.mem_iff_getElem.mp there
  rw [List.getElem_modify] at found
  rw [List.length_modify] at below
  have old := List.getElem_mem below
  split at found
  · subst found
    obtain wasIn | isGood := signs _ invokable isIn
    · exact signed.signed _ old invokable wasIn
    · exact good invokable isGood
  · exact signed.signed clazz (found ▸ old) invokable isIn

theorem changeClass_signed (address : ClassAddress) (change : VMClass → VMClass)
    (signs : ∀ clazz, ∀ invokable ∈ (change clazz).instanceInvokables,
      invokable ∈ clazz.instanceInvokables ∨ SignedBy before invokable) :
    KeepsSigned (Signed before) (changeClass address change) fun _ => Signed before :=
  (changeInvokables_signed address change signs).weaken
    (fun _ signed => ⟨signed, fun _ isSigned => signed.by isSigned⟩) fun _ _ signed => signed

theorem newClass_signed (classOfClass : ClassAddress) :
    KeepsSigned (Signed before) (newClass classOfClass) fun _ => Signed before := by
  have appended : KeepsSigned (Signed before) (Process.modify fun image =>
      { image with classes := image.classes ++ [{ clazz := classOfClass }] } : ClassM Unit)
      fun _ => Signed before := by
    refine triple_modify (fun _ _ _ known => known) fun image signed => ⟨signed.compiled, ?_⟩
    intro clazz there invokable isIn
    change (image.signature? invokable).isSome = true
    rcases List.mem_append.mp there with isOld | isNew
    · exact signed.signed clazz isOld invokable isIn
    · obtain rfl := List.mem_singleton.mp isNew
      exact absurd isIn List.not_mem_nil
  apply Triple.bind _ (readsOnly_read.keeps _) fun image => ?_
  apply Triple.bind _ appended fun _ => ?_
  apply Triple.bind _ (setGlobal_signed _ _) fun _ => ?_
  exact triple_pure fun _ signed => signed

theorem setInstanceInvokables_signed (address : ClassAddress)
    (invokables : List InvokableAddress)
    (areSigned : ∀ invokable ∈ invokables, SignedBy before invokable) :
    KeepsSigned (Signed before) (setInstanceInvokables address invokables)
      fun _ => Signed before := by
  have attached := changeClass_signed address
    (fun clazz => { clazz with instanceInvokables := invokables })
    fun _ invokable isIn => .inr (areSigned invokable isIn)
  apply Triple.bind _ attached fun _ => ?_
  clear attached areSigned
  induction invokables with
  | nil => exact triple_pure fun _ signed => signed
  | cons invokable others inductionHypothesis =>
      exact Triple.bind _ (setHolder_signed address invokable) fun _ => inductionHypothesis

theorem setInstanceFields_signed (address : ClassAddress) (fields : List String) :
    KeepsSigned (Signed before) (setInstanceFields address fields) fun _ => Signed before :=
  changeClass_signed address (fun clazz => { clazz with instanceFields := fields })
    fun _ _ isIn => .inl isIn

theorem setName_signed (address : ClassAddress) (name : String) :
    KeepsSigned (Signed before) (setName address name) fun _ => Signed before :=
  changeClass_signed address (fun clazz => { clazz with name := name }) fun _ _ isIn => .inl isIn

theorem setSuperClass_signed (address superClass : ClassAddress) :
    KeepsSigned (Signed before) (setSuperClass address superClass) fun _ => Signed before :=
  changeClass_signed address (fun clazz => { clazz with superClass := some superClass })
    fun _ _ isIn => .inl isIn

theorem storeMethods_signed (compilation address : Nat) (objects : List CompiledObject) :
    KeepsSigned (Signed before) (storeMethods compilation address objects)
      fun _ => Signed before := by
  induction objects generalizing address with
  | nil => exact triple_pure fun _ signed => signed
  | cons object objects inductionHypothesis =>
      cases object with
      | method method =>
          exact Triple.bind _ (setGlobal_signed _ _) fun _ => inductionHypothesis (address + 1)
      | integer value => exact inductionHypothesis (address + 1)
      | string chars => exact inductionHypothesis (address + 1)
      | primitive signature => exact inductionHypothesis (address + 1)

/-! ### The methods of one source -/

/-- The invokables of a new array have signatures. -/
theorem signedBy_newArrayList {compilation : Nat} {source : Compilation}
    (isSource : before[compilation]? = some source) {list : List Literal}
    {invokables : List InvokableAddress}
    (made : list.mapM (invokable? compilation source.objects) = some invokables) :
    ∀ invokable ∈ invokables, SignedBy before invokable := by
  intro invokable isIn
  obtain ⟨literal, -, same⟩ := literal_of_newArrayList made isIn
  cases literal with
  | symbol text => cases same
  | object address =>
      rw [invokable?] at same
      split at same
      · next found =>
          obtain rfl := Option.some.inj same
          simp [SignedBy, Image.signature?, Image.object?, isSource, found]
      · next found =>
          obtain rfl := Option.some.inj same
          simp [SignedBy, Image.signature?, Image.object?, isSource, found]
      · cases same

theorem assemble_signed {loadClass : String → ClassM (Option ClassAddress)}
    (loads : Loads (Signed before) anyClass loadClass) {compilation : Nat} {source : Compilation}
    (isSource : before[compilation]? = some source) :
    KeepsSigned (Signed before) (assemble loadClass compilation source) fun _ => Signed before := by
  have load := (loads source.classContext.superName).weaken (fun _ signed => signed)
    fun _ _ found => found.1
  apply Triple.bind _ load fun found => ?_
  apply Triple.bind _ (readsOnly_read.keeps _) fun image => ?_
  apply Triple.bind _ (newClass_signed _) fun resultClass => ?_
  apply Triple.bind _ (setInstanceFields_signed _ _) fun _ => ?_
  apply Triple.demand fun classMethods made => ?_
  apply Triple.bind _ (setInstanceInvokables_signed _ _ (signedBy_newArrayList isSource made))
    fun _ => ?_
  apply Triple.bind _ (setName_signed _ _) fun _ => ?_
  apply Triple.demand fun superClass _ => ?_
  apply Triple.bind _ ((readsOnly_readClass superClass).keeps _) fun clazz => ?_
  apply Triple.bind _ (setSuperClass_signed _ _) fun _ => ?_
  apply Triple.bind _ (newClass_signed _) fun result => ?_
  apply Triple.bind _ (setInstanceFields_signed _ _) fun _ => ?_
  apply Triple.demand fun instanceMethods madeToo => ?_
  apply Triple.bind _ (setInstanceInvokables_signed _ _ (signedBy_newArrayList isSource madeToo))
    fun _ => ?_
  apply Triple.bind _ (setName_signed _ _) fun _ => ?_
  apply Triple.bind _ (setSuperClass_signed _ _) fun _ => ?_
  exact triple_pure fun _ signed => signed

theorem assembleSystemClass_signed {compilation : Nat} {source : Compilation}
    (isSource : before[compilation]? = some source) (systemClass : ClassAddress) :
    KeepsSigned (Signed before) (assembleSystemClass systemClass compilation source)
      fun _ => Signed before := by
  apply Triple.demand fun instanceMethods made => ?_
  apply Triple.bind _ (setInstanceInvokables_signed _ _ (signedBy_newArrayList isSource made))
    fun _ => ?_
  apply Triple.bind _ (setInstanceFields_signed _ _) fun _ => ?_
  apply Triple.bind _ ((readsOnly_readClass systemClass).keeps _) fun clazz => ?_
  apply Triple.demand fun classMethods madeToo => ?_
  apply Triple.bind _ (setInstanceInvokables_signed _ _ (signedBy_newArrayList isSource madeToo))
    fun _ => ?_
  exact setInstanceFields_signed _ _

/-! ### Every load -/

theorem Signed.weaken {after : List Compilation} (signed : Signed after image)
    (fewer : before <+: after) : Signed before image :=
  ⟨fewer.trans signed.compiled, signed.signed⟩

theorem compile_signed {loadClass : String → ClassM (Option ClassAddress)}
    (loads : ∀ before, Loads (Signed before) anyClass loadClass) (before : List Compilation)
    (systemClass : Option ClassAddress) (source : Source) :
    KeepsSigned (Signed before) (compile loadClass systemClass source) fun result image =>
      Signed before image ∧ (systemClass = none → anyClass image result) := by
  apply Triple.of_states fun image signed => ?_
  apply Triple.read
  have compiles : KeepsSigned (fun other => other = image) (Process.modify fun image =>
      { image with compilations := image.compilations ++ [parseSource source] })
      fun _ => Signed (image.compilations ++ [parseSource source]) := by
    refine triple_modify (fun _ _ _ known => known) fun other same => ?_
    subst same
    refine ⟨List.prefix_rfl, fun clazz there invokable isIn => ?_⟩
    have isSigned := signed.signed clazz there invokable isIn
    refine signature?_isSome ?_ ?_ isSigned
    · exact List.prefix_append _ _
    · exact List.prefix_rfl
  have isSource : (image.compilations ++ [parseSource source])[image.compilations.length]? =
      some (parseSource source) := List.getElem?_concat_length
  have fewer : before <+: image.compilations ++ [parseSource source] :=
    signed.compiled.trans (List.prefix_append _ _)
  apply Triple.bind _ compiles fun _ => ?_
  apply Triple.bind _ (storeMethods_signed _ _ _) fun _ => ?_
  cases systemClass with
  | none =>
      exact (assemble_signed (loads _) isSource).weaken (fun _ signed => signed)
        fun _ _ signed => ⟨signed.weaken fewer, fun _ => trivial⟩
  | some systemClass =>
      apply Triple.bind _ (assembleSystemClass_signed isSource systemClass) fun _ => ?_
      exact triple_pure fun _ signed => ⟨signed.weaken fewer, fun _ => trivial⟩

/-- A new evaluation primitive has a signature. -/
theorem addEvaluation_signed (result : ClassAddress) (argc : Nat) :
    KeepsSigned (Signed before) (do
      let image ← Process.read
      Process.modify fun image => { image with evaluations := image.evaluations ++ [argc] }
      let _ ← addInstanceInvokable result (.evaluation image.evaluations.length) : ClassM Unit)
      fun _ => Signed before := by
  apply Triple.of_states fun image signed => ?_
  apply Triple.read
  generalize isNew : InvokableAddress.evaluation image.evaluations.length = newInvokable
  have evaluations : KeepsSigned (fun other => other = image) (Process.modify fun image =>
      { image with evaluations := image.evaluations ++ [argc] }) fun _ other =>
        Signed before other ∧ ∀ invokable, invokable = newInvokable →
          (other.signature? invokable).isSome = true := by
    refine triple_modify (fun _ _ _ known => known) fun other same => ?_
    subst same
    refine ⟨⟨signed.compiled, fun clazz there invokable isIn => ?_⟩, fun invokable same => ?_⟩
    · have isSigned := signed.signed clazz there invokable isIn
      refine signature?_isSome ?_ ?_ isSigned
      · exact List.prefix_rfl
      · exact List.prefix_append _ _
    · rw [same, ← isNew]
      simp [Image.signature?]
  apply Triple.bind _ evaluations fun _ => ?_
  refine Triple.bind (fun _ => Signed before) ?_ fun _ => triple_pure fun _ signed => signed
  apply Triple.bind _ (readsOnly_read.keeps _) fun grown => ?_
  apply Triple.bind _ ((readsOnly_readClass result).keeps _) fun clazz => ?_
  split
  · next index _ =>
      have replaced : KeepsSigned _ (setInstanceInvokable result index newInvokable)
          fun _ => Signed before :=
        Triple.bind _ (changeInvokables_signed result _ fun _ _ isIn =>
          List.mem_or_eq_of_mem_set isIn) fun _ => setHolder_signed result newInvokable
      exact Triple.bind _ replaced fun _ => triple_pure fun _ signed => signed
  · have added : KeepsSigned _ (changeClass result fun clazz => { clazz with
        instanceInvokables := clazz.instanceInvokables ++ [newInvokable] })
        fun _ => Signed before :=
      changeInvokables_signed result _ fun _ _ isIn =>
        (List.mem_append.mp isIn).imp_right List.mem_singleton.mp
    exact Triple.bind _ added fun _ => triple_pure fun _ signed => signed

theorem signedRules : LoadingRules Signed anyClass [] where
  systemClasses := by
    have noMethods : (newSystemClasses.run {}).state.classes.all
        (fun clazz => clazz.instanceInvokables.isEmpty) = true := by
      decide +kernel
    refine ⟨List.nil_prefix, fun clazz there invokable isIn => ?_⟩
    have empty := List.all_eq_true.mp noMethods clazz there
    rw [List.isEmpty_iff.mp empty] at isIn
    exact absurd isIn List.not_mem_nil
  global _ _ := trivial
  isClass _ _ := trivial
  setGlobal before name val :=
    (setGlobal_signed name val).weaken (fun _ holds => holds.1) fun _ _ signed => signed
  bootstrapHolder before systemClass := setHolder_signed systemClass _
  compile loads before systemClass source := compile_signed loads before systemClass source
  evaluation before result argc := (addEvaluation_signed result argc).weaken
    (fun _ found => found.1) fun _ _ signed => ⟨signed, fun _ _ => trivial⟩

/-- In every reachable image every invokable of a class has a signature. -/
theorem Reachable.signature?_isSome {path : ClassPath} (reachable : Reachable path image)
    {address : ClassAddress} {invokable : InvokableAddress}
    (isIn : invokable ∈ image.invokablesOf address) :
    (image.signature? invokable).isSome = true := by
  have signed := (signedRules.reachable reachable).signed
  rw [Image.invokablesOf] at isIn
  cases found : image.classes[address]? with
  | none =>
      rw [found] at isIn
      exact absurd isIn List.not_mem_nil
  | some clazz =>
      rw [found] at isIn
      exact signed clazz (List.mem_of_getElem? found) invokable isIn

end

end Somr.Classes
