import Somr.Classes.Image

/-!
Owns what adding an invokable does to a class: which invokables it has, who holds them,
and what is found in it.

An invokable takes the place of the one with its signature, or comes last. In either case
every other lookup finds what it has found before.
-/

namespace Somr.Classes

open Somr.Foundation

/-! ### Classes that are well formed -/

namespace Image

/-- The invokables of a class have different signatures and the class as their holder. -/
structure WellFormed (image : Image) (address : ClassAddress) : Prop where
  different : (image.invokablesOf address).Pairwise fun first second =>
    image.signature? first ≠ image.signature? second
  held : ∀ invokable ∈ image.invokablesOf address, image.getHolder invokable = some address

/-- The class has its invokable `added`, among others that stay where they are, and apart
from that the images agree on what a lookup reads. -/
structure Exchanges (image after : Image) (address : ClassAddress) (added : InvokableAddress)
    (early removed late : List InvokableAddress) : Prop where
  before : image.invokablesOf address = early ++ removed ++ late
  own : after.invokablesOf address = early ++ added :: late
  others : ∀ other, other ≠ address → after.invokablesOf other = image.invokablesOf other
  parents : ∀ other, after.superClassOf other = image.superClassOf other
  signatures : ∀ invokable, after.signature? invokable = image.signature? invokable

/-- What is removed is just what has the signature of the invokable that is added. -/
structure SameSignature (image : Image) (name : String)
    (early removed late : List InvokableAddress) : Prop where
  early : ∀ invokable ∈ early, image.signature? invokable ≠ some name
  removed : ∀ invokable ∈ removed, image.signature? invokable = some name
  late : ∀ invokable ∈ late, image.signature? invokable ≠ some name

variable {image after : Image} {address : ClassAddress} {added : InvokableAddress}
  {name : String} {early removed late : List InvokableAddress}

theorem find?_of_different {invokables : List InvokableAddress}
    (different : ∀ invokable ∈ invokables, image.signature? invokable ≠ some name) :
    invokables.find? (fun invokable => image.signature? invokable == some name) = none := by
  apply List.find?_eq_none.mpr
  intro invokable there
  rw [beq_iff_eq]
  exact different invokable there

theorem Exchanges.ownInvokable (exchanges : Exchanges image after address added early removed late)
    (other : String) : after.ownInvokable other address =
      (early ++ added :: late).find? fun invokable => image.signature? invokable == some other := by
  unfold Image.ownInvokable
  rw [exchanges.own]
  simp only [exchanges.signatures]

/-- The invokable that was added is found. -/
theorem Exchanges.lookup_added
    (exchanges : Exchanges image after address added early removed late)
    (same : SameSignature image name early removed late)
    (isInvokable : image.signature? added = some name) (rounds : Nat) :
    after.lookupInvokable (rounds + 1) address name = some (some added) := by
  have found : after.ownInvokable name address = some added := by
    rw [exchanges.ownInvokable, List.find?_append, find?_of_different same.early, Option.none_or]
    apply List.find?_cons_of_pos
    rw [isInvokable]
    exact beq_self_eq_true _
  rw [lookupInvokable, found]

/-- In every class, what is found under another name is what was found before. -/
theorem Exchanges.ownInvokable_other
    (exchanges : Exchanges image after address added early removed late)
    (same : SameSignature image name early removed late)
    (isInvokable : image.signature? added = some name) {other : String} (isOther : other ≠ name)
    (node : ClassAddress) : after.ownInvokable other node = image.ownInvokable other node := by
  have passesOver : ∀ invokable, image.signature? invokable = some name →
      ¬ (image.signature? invokable == some other) = true := by
    intro invokable hasName found
    rw [hasName, beq_iff_eq] at found
    exact isOther (Option.some.inj found).symm
  by_cases isOwn : node = address
  · subst isOwn
    have skipped : removed.find? (fun invokable => image.signature? invokable == some other) =
        none := by
      apply List.find?_eq_none.mpr
      intro invokable there
      exact passesOver invokable (same.removed invokable there)
    have passed : (added :: late).find?
        (fun invokable => image.signature? invokable == some other) =
          late.find? fun invokable => image.signature? invokable == some other :=
      List.find?_cons_of_neg (passesOver added isInvokable)
    rw [exchanges.ownInvokable, Image.ownInvokable, exchanges.before, List.find?_append,
      List.find?_append, List.find?_append, skipped, Option.or_none, passed]
  · unfold Image.ownInvokable
    rw [exchanges.others node isOwn]
    simp only [exchanges.signatures]

theorem Exchanges.lookup_other
    (exchanges : Exchanges image after address added early removed late)
    (same : SameSignature image name early removed late)
    (isInvokable : image.signature? added = some name) {other : String} (isOther : other ≠ name)
    (rounds : Nat) : after.lookupInvokable rounds address other =
      image.lookupInvokable rounds address other := by
  have parents : after.superClassOf = image.superClassOf := funext exchanges.parents
  have own : after.ownInvokable other = image.ownInvokable other :=
    funext (exchanges.ownInvokable_other same isInvokable isOther)
  rw [lookupInvokable_eq, lookupInvokable_eq, parents, own]

/-- The signatures stay different. -/
theorem Exchanges.different
    (exchanges : Exchanges image after address added early removed late)
    (same : SameSignature image name early removed late)
    (isInvokable : image.signature? added = some name)
    (before : (image.invokablesOf address).Pairwise fun first second =>
      image.signature? first ≠ image.signature? second) :
    (after.invokablesOf address).Pairwise fun first second =>
      after.signature? first ≠ after.signature? second := by
  rw [exchanges.before, List.append_assoc] at before
  rw [exchanges.own]
  simp only [exchanges.signatures]
  obtain ⟨earlyApart, restApart, across⟩ := List.pairwise_append.mp before
  apply List.pairwise_append.mpr
  refine ⟨earlyApart, ?_, ?_⟩
  · apply List.pairwise_cons.mpr
    refine ⟨?_, (List.pairwise_append.mp restApart).2.1⟩
    intro invokable there
    rw [isInvokable]
    exact (same.late invokable there).symm
  · intro first inEarly second inRest
    rcases List.mem_cons.mp inRest with rfl | inLate
    · rw [isInvokable]
      exact same.early first inEarly
    · exact across first inEarly second (List.mem_append_right removed inLate)

end Image

/-! ### Adding an invokable -/

/-- The class stays well formed and has a new invokable, which is found under its
signature, and every other lookup is as before. -/
structure Adds (image : Image) (address : ClassAddress) (newInvokable : InvokableAddress)
    (name : String) (isNew : Bool) (after : Image) : Prop where
  wellFormed : after.WellFormed address
  found : ∀ rounds, after.lookupInvokable (rounds + 1) address name = some (some newInvokable)
  others : ∀ rounds other, other ≠ name →
    after.lookupInvokable rounds address other = image.lookupInvokable rounds address other
  isNew : isNew = true ↔
    ∀ invokable ∈ image.invokablesOf address, image.signature? invokable ≠ some name

section Adding

variable {image : Image} {address : ClassAddress} {clazz : VMClass}
  {newInvokable : InvokableAddress} {name : String}

theorem invokablesOf_eq (isClass : image.classes[address]? = some clazz) :
    image.invokablesOf address = clazz.instanceInvokables := by
  rw [Image.invokablesOf, isClass]
  rfl

theorem invokablesOf_modify (isClass : image.classes[address]? = some clazz)
    (change : List InvokableAddress → List InvokableAddress)
    (holders : List (InvokableAddress × ClassAddress)) (other : ClassAddress) :
    ({ image with
        classes := image.classes.modify address fun clazz =>
          { clazz with instanceInvokables := change clazz.instanceInvokables }
        holders := holders } : Image).invokablesOf other =
      if other = address then change clazz.instanceInvokables else image.invokablesOf other := by
  unfold Image.invokablesOf
  change (Option.map VMClass.instanceInvokables
    (image.classes.modify address _)[other]?).getD [] = _
  by_cases isOwn : other = address
  · subst isOwn
    rw [if_pos rfl, List.getElem?_modify_eq, isClass]
    rfl
  · rw [if_neg isOwn, List.getElem?_modify_ne _ _ (Ne.symm isOwn)]

theorem superClassOf_modify
    (change : List InvokableAddress → List InvokableAddress)
    (holders : List (InvokableAddress × ClassAddress)) (other : ClassAddress) :
    ({ image with
        classes := image.classes.modify address fun clazz =>
          { clazz with instanceInvokables := change clazz.instanceInvokables }
        holders := holders } : Image).superClassOf other = image.superClassOf other := by
  unfold Image.superClassOf
  change ((image.classes.modify address _)[other]?).bind VMClass.superClass = _
  rw [List.getElem?_modify]
  cases image.classes[other]? with
  | none => rfl
  | some clazz =>
      change (if address = other then _ else clazz).superClass = clazz.superClass
      split <;> rfl

/-- Changing the invokables of the class changes nothing else that a lookup reads. -/
theorem exchanges_modify {early removed late : List InvokableAddress}
    (isClass : image.classes[address]? = some clazz)
    (change : List InvokableAddress → List InvokableAddress)
    (holders : List (InvokableAddress × ClassAddress))
    (before : clazz.instanceInvokables = early ++ removed ++ late)
    (changed : change clazz.instanceInvokables = early ++ newInvokable :: late) :
    Image.Exchanges image
      { image with
        classes := image.classes.modify address fun clazz =>
          { clazz with instanceInvokables := change clazz.instanceInvokables }
        holders := holders } address newInvokable early removed late where
  before := (invokablesOf_eq isClass).trans before
  own := by rw [invokablesOf_modify isClass, if_pos rfl, changed]
  others := by
    intro other isOther
    rw [invokablesOf_modify isClass, if_neg isOther]
  parents := superClassOf_modify change holders
  signatures _ := rfl

/-- A class with another invokable is as it should be once it holds that invokable and
everything else keeps its holder. -/
theorem Image.Exchanges.adds {after : Image} {early removed late : List InvokableAddress}
    (exchanges : image.Exchanges after address newInvokable early removed late)
    (same : image.SameSignature name early removed late)
    (isInvokable : image.signature? newInvokable = some name)
    (wellFormed : image.WellFormed address)
    (isHeld : after.getHolder newInvokable = some address)
    (kept : ∀ invokable, invokable ≠ newInvokable →
      after.getHolder invokable = image.getHolder invokable) :
    Adds image address newInvokable name removed.isEmpty after where
  wellFormed := by
    refine ⟨exchanges.different same isInvokable wellFormed.different, ?_⟩
    intro invokable there
    by_cases isNew : invokable = newInvokable
    · rw [isNew]
      exact isHeld
    · rw [kept invokable isNew]
      apply wellFormed.held
      rw [exchanges.own] at there
      rw [exchanges.before]
      simp only [List.mem_append, List.mem_cons] at there ⊢
      rcases there with inEarly | isNewest | inLate
      · exact .inl (.inl inEarly)
      · exact absurd isNewest isNew
      · exact .inr inLate
  found := exchanges.lookup_added same isInvokable
  others := fun rounds _ isOther => exchanges.lookup_other same isInvokable isOther rounds
  isNew := by
    rw [exchanges.before]
    cases removed with
    | nil =>
        apply iff_of_true rfl
        intro invokable there
        rw [List.append_nil] at there
        rcases List.mem_append.mp there with inEarly | inLate
        · exact same.early invokable inEarly
        · exact same.late invokable inLate
    | cons old removed =>
        apply iff_of_false Bool.false_ne_true
        intro allApart
        exact allApart old (by simp) (same.removed old List.mem_cons_self)

/-- What the loop finds cuts the invokables in two. -/
theorem found_split {invokables : List InvokableAddress} {index : Nat}
    (isInvokable : image.signature? newInvokable = some name)
    (found : (invokables.findIdx? fun inv =>
      image.signature? newInvokable == image.signature? inv) = some index) :
    ∃ early old late, invokables = early ++ [old] ++ late ∧ index = early.length ∧
      image.signature? old = some name ∧
      ∀ invokable ∈ early, image.signature? invokable ≠ some name := by
  obtain ⟨inside, isOld, isFirst⟩ := List.findIdx?_eq_some_iff_getElem.mp found
  rw [isInvokable, beq_iff_eq] at isOld
  refine ⟨invokables.take index, invokables[index], invokables.drop (index + 1), ?_, ?_,
    isOld.symm, ?_⟩
  · rw [List.append_assoc, List.singleton_append, List.getElem_cons_drop, List.take_append_drop]
  · rw [List.length_take, Nat.min_eq_left (Nat.le_of_lt inside)]
  · intro invokable there hasName
    obtain ⟨j, inTake, rfl⟩ := List.getElem_of_mem there
    rw [List.length_take] at inTake
    rw [List.getElem_take] at hasName
    apply isFirst j (by omega)
    rw [isInvokable, hasName]
    exact beq_self_eq_true _

theorem run_readClass (isClass : image.classes[address]? = some clazz) :
    (readClass address).run image = ⟨.ok clazz, image, []⟩ := by
  rw [readClass, Process.bind_of_silent (Process.run_read image), isClass]
  rfl

/-- In place of an invokable with its signature, and held by the class. -/
theorem run_replaces {index : Nat} (isClass : image.classes[address]? = some clazz)
    (found : (clazz.instanceInvokables.findIdx? fun inv =>
      image.signature? newInvokable == image.signature? inv) = some index) :
    (addInstanceInvokable address newInvokable).run image = ⟨.ok false,
      { image with
        classes := image.classes.modify address fun clazz =>
          { clazz with instanceInvokables := clazz.instanceInvokables.set index newInvokable }
        holders := assign (fun a b => a == b) newInvokable address image.holders }, []⟩ := by
  rw [addInstanceInvokable, Process.bind_of_silent (Process.run_read image),
    Process.bind_of_silent (run_readClass isClass), found]
  rfl

/-- Behind the others, and without a holder. -/
theorem run_extends (isClass : image.classes[address]? = some clazz)
    (absent : (clazz.instanceInvokables.findIdx? fun inv =>
      image.signature? newInvokable == image.signature? inv) = none) :
    (addInstanceInvokable address newInvokable).run image = ⟨.ok true,
      { image with
        classes := image.classes.modify address fun clazz =>
          { clazz with instanceInvokables := clazz.instanceInvokables ++ [newInvokable] }
        holders := image.holders }, []⟩ := by
  rw [addInstanceInvokable, Process.bind_of_silent (Process.run_read image),
    Process.bind_of_silent (run_readClass isClass), absent]
  rfl

/-- Where its signature is there already, the new invokable is added as it should be. -/
theorem replaces_adds {index : Nat} (isClass : image.classes[address]? = some clazz)
    (isInvokable : image.signature? newInvokable = some name)
    (wellFormed : image.WellFormed address)
    (found : (clazz.instanceInvokables.findIdx? fun inv =>
      image.signature? newInvokable == image.signature? inv) = some index) :
    ∃ after, (addInstanceInvokable address newInvokable).Runs image false after ∧
      Adds image address newInvokable name false after := by
  obtain ⟨early, old, late, split, isIndex, oldName, earlyApart⟩ :=
    found_split isInvokable found
  have replaced : clazz.instanceInvokables.set index newInvokable =
      early ++ newInvokable :: late := by
    rw [split, isIndex, List.append_assoc, List.set_append_right _ _ (Nat.le_refl _),
      Nat.sub_self]
    rfl
  have exchanges := exchanges_modify isClass (fun invokables => invokables.set index newInvokable)
    (assign (fun a b => a == b) newInvokable address image.holders) split replaced
  have apart := wellFormed.different
  rw [exchanges.before, List.append_assoc] at apart
  have oldApart := (List.pairwise_cons.mp (List.pairwise_append.mp apart).2.1).1
  have same : image.SameSignature name early [old] late := by
    refine ⟨earlyApart, ?_, ?_⟩
    · intro invokable there
      rw [List.mem_singleton.mp there]
      exact oldName
    · intro invokable there
      rw [← oldName]
      exact (oldApart invokable there).symm
  refine ⟨_, ⟨[], run_replaces isClass found⟩,
    exchanges.adds same isInvokable wellFormed ?_ ?_⟩
  · exact (valueOf_beq_assign newInvokable newInvokable address image.holders).trans
      (if_pos (beq_self_eq_true _))
  · intro invokable isOther
    exact (valueOf_beq_assign newInvokable invokable address image.holders).trans
      (if_neg (by rwa [beq_iff_eq]))

/-- Where its signature is not there, the new invokable has the holder it had before. -/
theorem extends_adds_iff (isClass : image.classes[address]? = some clazz)
    (isInvokable : image.signature? newInvokable = some name)
    (wellFormed : image.WellFormed address)
    (absent : ∀ invokable ∈ image.invokablesOf address, image.signature? invokable ≠ some name) :
    (∃ isNew after, (addInstanceInvokable address newInvokable).Runs image isNew after ∧
      Adds image address newInvokable name isNew after) ↔
      image.getHolder newInvokable = some address := by
  rw [invokablesOf_eq isClass] at absent
  have notFound : (clazz.instanceInvokables.findIdx? fun inv =>
      image.signature? newInvokable == image.signature? inv) = none := by
    apply List.findIdx?_eq_none_iff.mpr
    intro invokable there
    rw [isInvokable, beq_eq_false_iff_ne]
    exact (absent invokable there).symm
  have ran := run_extends isClass notFound
  have whole : clazz.instanceInvokables = clazz.instanceInvokables ++ [] ++ [] := by simp
  have exchanges := exchanges_modify isClass (fun invokables => invokables ++ [newInvokable])
    image.holders whole rfl
  constructor
  · rintro ⟨isNew, after, runs, adds⟩
    obtain ⟨_, rfl⟩ := runs.unique ⟨[], ran⟩
    apply adds.wellFormed.held
    rw [exchanges.own]
    exact List.mem_append_right _ (List.mem_singleton_self _)
  · intro isHeld
    have same : image.SameSignature name clazz.instanceInvokables [] [] :=
      ⟨absent, fun _ there => absurd there List.not_mem_nil,
        fun _ there => absurd there List.not_mem_nil⟩
    exact ⟨true, _, ⟨[], ran⟩, exchanges.adds same isInvokable wellFormed isHeld fun _ _ => rfl⟩

/-- For every class that is well formed and every invokable: adding it keeps the class
well formed, if and only if its signature is there already or the class holds it already. -/
theorem addInstanceInvokable_iff (isClass : image.classes[address]? = some clazz)
    (isInvokable : image.signature? newInvokable = some name)
    (wellFormed : image.WellFormed address) :
    (∃ isNew after, (addInstanceInvokable address newInvokable).Runs image isNew after ∧
      Adds image address newInvokable name isNew after) ↔
      (∃ invokable ∈ image.invokablesOf address, image.signature? invokable = some name) ∨
        image.getHolder newInvokable = some address := by
  by_cases present : ∃ invokable ∈ image.invokablesOf address,
      image.signature? invokable = some name
  · apply iff_of_true _ (.inl present)
    obtain ⟨invokable, there, hasName⟩ := present
    cases found : clazz.instanceInvokables.findIdx? fun inv =>
        image.signature? newInvokable == image.signature? inv with
    | none =>
        rw [invokablesOf_eq isClass] at there
        have apart := List.findIdx?_eq_none_iff.mp found invokable there
        rw [isInvokable, hasName, beq_self_eq_true] at apart
        cases apart
    | some index => exact ⟨false, replaces_adds isClass isInvokable wellFormed found⟩
  · rw [or_iff_right present]
    apply extends_adds_iff isClass isInvokable wellFormed
    intro invokable there hasName
    exact present ⟨invokable, there, hasName⟩

end Adding

/-- One class, which holds the first of two evaluation primitives with one signature. -/
def blockImage : Image where
  classes := [{ clazz := 0, instanceInvokables := [.evaluation 0] }]
  evaluations := [1, 1]
  holders := [(.evaluation 0, 0)]

theorem addInstanceInvokable_replaces :
    ∃ isNew after, (addInstanceInvokable 0 (.evaluation 1)).Runs blockImage isNew after ∧
      Adds blockImage 0 (.evaluation 1) "value" isNew after := by
  have wellFormed : blockImage.WellFormed 0 :=
    ⟨List.pairwise_singleton _ _, List.forall_mem_singleton.mpr rfl⟩
  have present : ∃ invokable ∈ blockImage.invokablesOf 0,
      blockImage.signature? invokable = some "value" :=
    ⟨.evaluation 0, List.mem_singleton_self _, rfl⟩
  exact (addInstanceInvokable_iff rfl rfl wellFormed).mpr (.inl present)

/-- A class without invokables and an evaluation primitive without a holder. -/
def emptyImage : Image where
  classes := [{ clazz := 0 }]
  evaluations := [1]

/-- The class gets an invokable that it does not hold. -/
theorem added_without_holder :
    emptyImage.WellFormed 0 ∧
      ∃ after, (addInstanceInvokable 0 (.evaluation 0)).Runs emptyImage true after ∧
        after.invokablesOf 0 = [.evaluation 0] ∧ after.getHolder (.evaluation 0) = none ∧
        ¬ after.WellFormed 0 := by
  have wellFormed : emptyImage.WellFormed 0 :=
    ⟨List.Pairwise.nil, fun invokable there => absurd there List.not_mem_nil⟩
  refine ⟨wellFormed, _, ⟨[], rfl⟩, rfl, rfl, ?_⟩
  intro stillWellFormed
  have isHeld := stillWellFormed.held (.evaluation 0) (List.mem_singleton_self _)
  cases isHeld

end Somr.Classes
