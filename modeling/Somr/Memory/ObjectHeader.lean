import Somr.Foundation.PackedWords

/-!
Owns the metadata slot of an object: a size above eight bits of flags, four of which
are the age and the remembered state.

Whatever is done to a header, its flags read as they were last set. Its size does
so as long as every size that is set leaves the upper eight bits of the word free.
-/

namespace Somr.Memory

open Somr.Foundation

/-- `fomrobject_t` and `uintptr_t` of the 32-bit build. -/
abbrev Word := BitVec 32

namespace ObjectModel

/-! ### Masks -/

def metadataSizeShift : Nat := 8

def metadataFlagsMask : Word := 0xFF

def metadataAgeMask : Word := 0xF0

def metadataRememberedBits : Word := metadataAgeMask

def stateNotRemembered : Word := 0

/-! ### Accessors of the slot -/

/-- `OMR_OBJECT_FLAGS`. -/
def objectFlags (header : Word) : Word := header &&& metadataFlagsMask

/-- `OMR_OBJECT_SIZE`. -/
def getSizeInBytesWithHeader (header : Word) : Word := header >>> metadataSizeShift

def getRememberedBits (header : Word) : Word := objectFlags header &&& metadataRememberedBits

def setObjectSize (header size : Word) (preserveAgeAndFlags : Bool) : Word :=
  let ageAndFlags := if preserveAgeAndFlags then objectFlags header else 0
  size <<< metadataSizeShift ||| ageAndFlags

/-- Neither mask may reach beyond the flags; the source asserts it. -/
def setFlags (header bitsToClear bitsToSet : Word) : Option Word :=
  if bitsToClear ≤ metadataFlagsMask ∧ bitsToSet ≤ metadataFlagsMask then
    some ((header &&& ~~~bitsToClear) ||| bitsToSet)
  else none

def setRememberedBits (header bits : Word) : Option Word :=
  setFlags header metadataRememberedBits bits

def clearRemembered (header : Word) : Option Word :=
  setRememberedBits header stateNotRemembered

/-! ### Updates -/

inductive Update where
  | setObjectSize (size : Word)
  | setFlags (bitsToClear bitsToSet : Word)
  | setRememberedBits (bits : Word)
  | clearRemembered
deriving DecidableEq, Repr

/-- A size is set with the flags preserved. -/
def Update.apply (header : Word) : Update → Option Word
  | .setObjectSize size => some (ObjectModel.setObjectSize header size true)
  | .setFlags bitsToClear bitsToSet => ObjectModel.setFlags header bitsToClear bitsToSet
  | .setRememberedBits bits => ObjectModel.setRememberedBits header bits
  | .clearRemembered => ObjectModel.clearRemembered header

/-- A sequence of updates that no assertion stops. -/
def run (header : Word) (updates : List Update) : Option Word := updates.foldlM Update.apply header

/-! ### What a header stands for -/

/-- The size and the flags, each kept for itself. -/
structure Metadata where
  size : Word
  flags : BitVec 8
deriving DecidableEq, Repr

namespace Metadata

def changeFlags (metadata : Metadata) (bitsToClear bitsToSet : Word) : Metadata :=
  { metadata with
    flags := (metadata.flags &&& ~~~bitsToClear.setWidth 8) ||| bitsToSet.setWidth 8 }

/-- The size that was last set, and each flag as it was last cleared or set. -/
def apply (metadata : Metadata) : Update → Metadata
  | .setObjectSize size => { metadata with size := size }
  | .setFlags bitsToClear bitsToSet => metadata.changeFlags bitsToClear bitsToSet
  | .setRememberedBits bits => metadata.changeFlags metadataRememberedBits bits
  | .clearRemembered => metadata.changeFlags metadataRememberedBits stateNotRemembered

def run (metadata : Metadata) (updates : List Update) : Metadata := updates.foldl apply metadata

/-- What the word of a header stands for. -/
def of (header : Word) : Metadata := ⟨header >>> metadataSizeShift, header.setWidth 8⟩

end Metadata

/-- The accessors read the size and the flags of the metadata. -/
structure Reads (header : Word) (metadata : Metadata) : Prop where
  size : getSizeInBytesWithHeader header = metadata.size
  flags : objectFlags header = metadata.flags.setWidth 32
  rememberedBits : getRememberedBits header =
    metadata.flags.setWidth 32 &&& metadataRememberedBits

/-! ### One update -/

open PackedWord (upper lower IsLow)

theorem isLow_flags {mask : Word} (small : mask ≤ metadataFlagsMask) : IsLow 8 mask := by
  have bound : mask.toNat ≤ 255 := small
  exact Nat.lt_succ_of_le bound

theorem isLow_objectFlags (header : Word) : IsLow 8 (objectFlags header) := by
  have bound : (objectFlags header).toNat ≤ 255 := by
    rw [objectFlags, BitVec.toNat_and]
    exact Nat.and_le_right
  exact Nat.lt_succ_of_le bound

theorem lower_objectFlags (header : Word) : lower 8 (objectFlags header) = lower 8 header := by
  have all : lower 8 metadataFlagsMask = BitVec.allOnes 8 := rfl
  have parts : lower 8 (objectFlags header) = lower 8 header &&& lower 8 metadataFlagsMask :=
    BitVec.setWidth_and
  rw [parts, all, BitVec.and_allOnes]

theorem objectFlags_eq (header : Word) : objectFlags header = (lower 8 header).setWidth 32 := by
  apply BitVec.eq_of_toNat_eq
  have masked : (objectFlags header).toNat = header.toNat % 256 := by
    rw [objectFlags, BitVec.toNat_and]
    exact Nat.and_two_pow_sub_one_eq_mod header.toNat 8
  have narrowed : ((lower 8 header).setWidth 32).toNat = header.toNat % 256 % 4294967296 := by
    rw [lower, BitVec.toNat_setWidth, BitVec.toNat_setWidth]
  rw [masked, narrowed]
  omega

theorem setFlags_spec {header bitsToClear bitsToSet after : Word} {metadata : Metadata}
    (changed : setFlags header bitsToClear bitsToSet = some after)
    (flags : lower 8 header = metadata.flags) :
    upper 8 after = upper 8 header ∧
      lower 8 after = (metadata.changeFlags bitsToClear bitsToSet).flags := by
  unfold setFlags at changed
  split at changed
  · next asserted =>
      cases changed
      constructor
      · exact PackedWord.upper_update header (isLow_flags asserted.1) (isLow_flags asserted.2)
      · rw [PackedWord.lower_update header bitsToClear bitsToSet (by decide), flags]
        rfl
  · cases changed

theorem setFlags_of_clear {header after : Word}
    (updated : Update.clearRemembered.apply header = some after) :
    setFlags header metadataRememberedBits stateNotRemembered = some after :=
  updated

/-- The flags read as they are kept, after every update. -/
theorem apply_flags {header after : Word} {metadata : Metadata} {update : Update}
    (updated : update.apply header = some after) (flags : lower 8 header = metadata.flags) :
    lower 8 after = (metadata.apply update).flags := by
  cases update with
  | setObjectSize size =>
      cases updated
      have packed := PackedWord.lower_pack size (objectFlags header) (by decide : 8 ≤ 32)
      exact packed.trans ((lower_objectFlags header).trans flags)
  | setFlags bitsToClear bitsToSet => exact (setFlags_spec updated flags).2
  | setRememberedBits bits => exact (setFlags_spec updated flags).2
  | clearRemembered => exact (setFlags_spec (setFlags_of_clear updated) flags).2

/-- A size that is set is shifted up; no other update touches it. -/
theorem apply_size {header after : Word} {metadata : Metadata} {update : Update}
    (updated : update.apply header = some after) (flags : lower 8 header = metadata.flags)
    (small : ∀ size, update = .setObjectSize size → size.toNat < 16777216)
    (sizes : upper 8 header = metadata.size) : upper 8 after = (metadata.apply update).size := by
  cases update with
  | setObjectSize size =>
      cases updated
      have packed := PackedWord.upper_pack size (isLow_objectFlags header)
      have whole : upper 8 (size <<< 8) = size :=
        (PackedWord.upper_shiftLeft_eq_iff size (by decide)).mpr (small size rfl)
      exact packed.trans whole
  | setFlags bitsToClear bitsToSet => exact (setFlags_spec updated flags).1.trans sizes
  | setRememberedBits bits => exact (setFlags_spec updated flags).1.trans sizes
  | clearRemembered => exact (setFlags_spec (setFlags_of_clear updated) flags).1.trans sizes

/-- A size reads as it was set only if it leaves the upper bits free. -/
theorem small_of_size {header after size : Word}
    (updated : (Update.setObjectSize size).apply header = some after)
    (whole : upper 8 after = size) : size.toNat < 16777216 := by
  cases updated
  have packed := PackedWord.upper_pack size (isLow_objectFlags header)
  exact (PackedWord.upper_shiftLeft_eq_iff size (by decide : 8 ≤ 32)).mp (packed.symm.trans whole)

/-! ### Runs -/

theorem run_cons (header : Word) (update : Update) (updates : List Update) :
    run header (update :: updates) = (update.apply header).bind fun after => run after updates :=
  rfl

theorem run_append (header : Word) (early late : List Update) :
    run header (early ++ late) = (run header early).bind fun middle => run middle late :=
  List.foldlM_append

theorem run_flags {header after : Word} {metadata : Metadata} {updates : List Update}
    (runs : run header updates = some after) (flags : lower 8 header = metadata.flags) :
    lower 8 after = (metadata.run updates).flags := by
  induction updates generalizing header metadata with
  | nil =>
      cases runs
      exact flags
  | cons update updates inductionHypothesis =>
      rw [run_cons] at runs
      obtain ⟨middle, updated, rest⟩ := Option.bind_eq_some_iff.mp runs
      exact inductionHypothesis rest (apply_flags updated flags)

theorem run_size {header after : Word} {metadata : Metadata} {updates : List Update}
    (runs : run header updates = some after) (flags : lower 8 header = metadata.flags)
    (small : ∀ size, Update.setObjectSize size ∈ updates → size.toNat < 16777216)
    (sizes : upper 8 header = metadata.size) :
    upper 8 after = (metadata.run updates).size := by
  induction updates generalizing header metadata with
  | nil =>
      cases runs
      exact sizes
  | cons update updates inductionHypothesis =>
      rw [run_cons] at runs
      obtain ⟨middle, updated, rest⟩ := Option.bind_eq_some_iff.mp runs
      apply inductionHypothesis rest (apply_flags updated flags)
      · intro size there
        exact small size (List.mem_cons_of_mem update there)
      · apply apply_size updated flags _ sizes
        rintro size rfl
        exact small size List.mem_cons_self

theorem reads_of_parts {header : Word} {metadata : Metadata}
    (sizes : upper 8 header = metadata.size) (flags : lower 8 header = metadata.flags) :
    Reads header metadata := by
  have allFlags : objectFlags header = metadata.flags.setWidth 32 := by
    rw [objectFlags_eq, flags]
  refine ⟨sizes, allFlags, ?_⟩
  rw [getRememberedBits, allFlags]

/-- In every state of a run the size and the flags read as last set, if and only if
every size that is set is less than 16 MB. -/
theorem header_reads_iff (header after : Word) (updates : List Update)
    (runs : run header updates = some after) :
    (∀ early late middle, updates = early ++ late → run header early = some middle →
        Reads middle ((Metadata.of header).run early)) ↔
      ∀ size, Update.setObjectSize size ∈ updates → size.toNat < 16777216 := by
  constructor
  · intro reads size there
    obtain ⟨early, late, rfl⟩ := List.append_of_mem there
    rw [List.append_cons, run_append] at runs
    obtain ⟨middle, ran, _⟩ := Option.bind_eq_some_iff.mp runs
    have read := (reads (early ++ [.setObjectSize size]) late middle (List.append_cons _ _ _)
      ran).size
    rw [Metadata.run, List.foldl_append] at read
    rw [run_append] at ran
    obtain ⟨before, _, updated⟩ := Option.bind_eq_some_iff.mp ran
    rw [run_cons] at updated
    obtain ⟨final, applied, ended⟩ := Option.bind_eq_some_iff.mp updated
    cases ended
    exact small_of_size applied read
  · rintro small early late middle rfl ran
    have flags : lower 8 middle = ((Metadata.of header).run early).flags := run_flags ran rfl
    apply reads_of_parts _ flags
    exact run_size ran rfl (fun size there => small size (List.mem_append_left late there)) rfl

/-- A new object of the least size that is remembered and then forgotten. -/
theorem header_reads_remembered :
    Reads 0x3000 ((Metadata.of 0).run
      [.setObjectSize 48, .setRememberedBits 0x10, .clearRemembered]) := by
  have runs : run 0 [.setObjectSize 48, .setRememberedBits 0x10, .clearRemembered] =
      some 0x3000 := by decide
  apply (header_reads_iff 0 0x3000 _ runs).mpr _ _ [] _ (List.append_nil _).symm runs
  intro size there
  simp at there
  simp [there]

/-- A size of 16 MB reads as 0. -/
theorem size_truncated :
    run 0 [.setObjectSize 16777216] = some 0 ∧ getSizeInBytesWithHeader 0 = 0 ∧
      ¬ Reads 0 ((Metadata.of 0).run [.setObjectSize 16777216]) := by
  refine ⟨by decide, by decide, ?_⟩
  intro reads
  exact absurd reads.size (by decide)

end ObjectModel
end Somr.Memory
