import Somr.Foundation.SignedWords
import Somr.Foundation.TextSearch

/-!
Owns how a program argument is split into a class path and the name of a class.

The last separator and the first suffix are searched for in the whole argument, and
their positions are combined as signed words, with -1 for what is not there.
-/

namespace Somr.Startup

open Somr.Foundation

/-! ### Strings -/

/-- No string is longer than `max_size`. -/
structure StdString where
  chars : List Char
  bounded : chars.length ≤ 2147483646

/-- `std::out_of_range`, thrown by `substr`. -/
inductive StdException where
  | outOfRange
deriving DecidableEq, Repr

namespace StdString

def npos : UInt32 := 4294967295

/-- A position as `size_t`, `npos` where there is none. -/
def sizeOf : Option Nat → UInt32
  | some position => UInt32.ofNat position
  | none => npos

def length (text : StdString) : UInt32 := UInt32.ofNat text.chars.length

/-- `find_last_of` for one character. -/
def findLastOf (text : StdString) (symbol : Char) : UInt32 :=
  sizeOf (lastPosition symbol text.chars)

def find (text : StdString) (pattern : List Char) : UInt32 :=
  sizeOf (firstOccurrence pattern text.chars)

def substr (text : StdString) (pos count : UInt32) : Except StdException (List Char) :=
  if text.length < pos then .error .outOfRange
  else .ok ((text.chars.drop pos.toNat).take count.toNat)

end StdString

/-! ### Program arguments -/

/-- `ERR_SUCCESS` and `ERR_FAIL`. -/
inductive ErrorCode where
  | errSuccess
  | errFail
deriving DecidableEq, Repr

/-- The two elements of `tokens`. -/
structure Tokens where
  classPath : List Char
  className : List Char
deriving DecidableEq, Repr

def fileSeparator : Char := '/'

def suffix : List Char := ['.', 's', 'o', 'm']

/-- `Universe::getClassPathExt`. -/
def getClassPathExt (tokens : Tokens) (arg : StdString) :
    Except StdException (ErrorCode × Tokens) := do
  let fpIndex : Int32 := (arg.findLastOf fileSeparator).toInt32
  let ssepIndex : Int32 := (arg.find suffix).toInt32
  let (result, fpIndex, tokens) ←
    if fpIndex.toUInt32 = StdString.npos then
      -- Without a path the name starts at the first character.
      pure (ErrorCode.errFail, (-1 : Int32), tokens)
    else do
      let classPath ← arg.substr 0 fpIndex.toUInt32
      pure (ErrorCode.errSuccess, fpIndex, { tokens with classPath := classPath })
  let ssepIndex : Int32 :=
    if ssepIndex.toUInt32 ≠ StdString.npos ∧ fpIndex < ssepIndex then ssepIndex - 1
    else arg.length.toInt32
  let className ← arg.substr (fpIndex + 1).toUInt32 (ssepIndex - fpIndex).toUInt32
  return (result, { tokens with className := className })

/-! ### Positions -/

/-- The name from a position on, up to the first suffix of the argument if that comes
later. -/
def nameFrom (start : Nat) (arg : List Char) : List Char :=
  match firstOccurrence suffix arg with
  | some position =>
      if start ≤ position then (arg.drop start).take (position - start) else arg.drop start
  | none => arg.drop start

theorem toInt_sizeOf {position : Nat} (small : position ≤ 2147483646) :
    (StdString.sizeOf (some position)).toInt32.toInt = position := by
  have exact : (UInt32.ofNat position).toNat = position := by
    rw [UInt32.toNat_ofNat']
    exact Nat.mod_eq_of_lt (by omega)
  rw [StdString.sizeOf, toInt_ofUInt32 (by omega), exact]

theorem toNat_of_toInt {value : Int32} {number : Nat} (same : value.toInt = number) :
    value.toUInt32.toNat = number := by
  have unsigned := toNat_toUInt32 value
  have small := value.toInt_lt
  rw [same] at unsigned small
  omega

theorem ne_npos {value : Int32} {number : Nat} (same : value.toInt = number) :
    value.toUInt32 ≠ StdString.npos := by
  intro isNpos
  have small := value.toInt_lt
  have number_eq := toNat_of_toInt same
  rw [isNpos] at number_eq
  change 4294967295 = number at number_eq
  omega

theorem substr_ok (text : StdString) {pos count : Int32} {start taken : Nat}
    (isStart : pos.toInt = start) (isTaken : count.toInt = taken)
    (inside : start ≤ text.chars.length) :
    text.substr pos.toUInt32 count.toUInt32 = .ok ((text.chars.drop start).take taken) := by
  have bounded := text.bounded
  have length : text.length.toNat = text.chars.length := by
    rw [StdString.length, UInt32.toNat_ofNat']
    exact Nat.mod_eq_of_lt (by omega)
  have notBehind : ¬ text.length < pos.toUInt32 := by
    rw [UInt32.lt_iff_toNat_lt, length, toNat_of_toInt isStart]
    omega
  rw [StdString.substr, if_neg notBehind, toNat_of_toInt isStart, toNat_of_toInt isTaken]

/-- `ssepIndex` behind the name. -/
def nameEnd (arg : StdString) (fpIndex : Int32) : Int32 :=
  if (arg.find suffix).toInt32.toUInt32 ≠ StdString.npos ∧
      fpIndex < (arg.find suffix).toInt32 then (arg.find suffix).toInt32 - 1
  else arg.length.toInt32

/-- The name is cut out from behind `fpIndex`, wherever the suffix is. -/
theorem className_eq (arg : StdString) {fpIndex : Int32} {start : Nat}
    (behind : fpIndex.toInt + 1 = start) (inside : start ≤ arg.chars.length) :
    arg.substr (fpIndex + 1).toUInt32 (nameEnd arg fpIndex - fpIndex).toUInt32 =
      .ok (nameFrom start arg.chars) := by
  have bounded := arg.bounded
  have one : (1 : Int32).toInt = 1 := rfl
  have isStart : (fpIndex + 1).toInt = start := by
    rw [Int32.toInt_add, one, behind]
    exact Int.bmod_eq_of_le (by omega) (by omega)
  have length : arg.length.toInt32.toInt = arg.chars.length := toInt_sizeOf bounded
  have whole : arg.substr (fpIndex + 1).toUInt32 (arg.length.toInt32 - fpIndex).toUInt32 =
      .ok (arg.chars.drop start) := by
    have count : (arg.length.toInt32 - fpIndex).toInt =
        (arg.chars.length + 1 - start : Nat) := by
      rw [Int32.toInt_sub, length]
      rw [Int.bmod_eq_of_le (by omega) (by omega)]
      omega
    rw [substr_ok arg isStart count inside, List.take_of_length_le]
    rw [List.length_drop]
    omega
  unfold nameFrom nameEnd
  cases found : firstOccurrence suffix arg.chars with
  | none =>
      have absent : (arg.find suffix).toInt32.toUInt32 = StdString.npos := by
        rw [StdString.find, found]
        rfl
      rw [if_neg fun present => present.1 absent]
      exact whole
  | some position =>
      have within := firstOccurrence_within found
      have isPosition : (arg.find suffix).toInt32.toInt = position := by
        rw [StdString.find, found]
        exact toInt_sizeOf (by omega)
      by_cases later : start ≤ position
      · have taken :
            ((arg.find suffix).toInt32 - 1 - fpIndex).toInt = (position - start : Nat) := by
          have last : ((arg.find suffix).toInt32 - 1).toInt = (position : Int) - 1 := by
            rw [Int32.toInt_sub, isPosition, one]
            exact Int.bmod_eq_of_le (by omega) (by omega)
          rw [Int32.toInt_sub, last]
          rw [Int.bmod_eq_of_le (by omega) (by omega)]
          omega
        have present : (arg.find suffix).toInt32.toUInt32 ≠ StdString.npos ∧
            fpIndex < (arg.find suffix).toInt32 := by
          apply And.intro (ne_npos isPosition)
          rw [Int32.lt_iff_toInt_lt, isPosition]
          omega
        rw [if_pos present]
        change _ = Except.ok (if start ≤ position then _ else _)
        rw [if_pos later]
        exact substr_ok arg isStart taken inside
      · have earlier : ¬ fpIndex < (arg.find suffix).toInt32 := by
          rw [Int32.lt_iff_toInt_lt, isPosition]
          omega
        rw [if_neg fun present => earlier present.2]
        change _ = Except.ok (if start ≤ position then _ else _)
        rw [if_neg later]
        exact whole

theorem getClassPathExt_noPath (tokens : Tokens) {arg : StdString}
    (noPath : lastPosition fileSeparator arg.chars = none) :
    getClassPathExt tokens arg =
      .ok (.errFail, { tokens with className := nameFrom 0 arg.chars }) := by
  have absent : (arg.findLastOf fileSeparator).toInt32.toUInt32 = StdString.npos := by
    rw [StdString.findLastOf, noPath]
    rfl
  have behind : (-1 : Int32).toInt + 1 = (0 : Nat) := rfl
  have rest : getClassPathExt tokens arg =
      (arg.substr ((-1 : Int32) + 1).toUInt32 (nameEnd arg (-1) - (-1)).toUInt32 >>=
        fun className => .ok (.errFail, { tokens with className := className })) := by
    unfold getClassPathExt
    rw [if_pos absent]
    rfl
  rw [rest, className_eq arg behind (Nat.zero_le _)]
  rfl

theorem getClassPathExt_path (tokens : Tokens) {arg : StdString} {slash : Nat}
    (path : lastPosition fileSeparator arg.chars = some slash) :
    getClassPathExt tokens arg =
      .ok (.errSuccess, ⟨arg.chars.take slash, nameFrom (slash + 1) arg.chars⟩) := by
  have bounded := arg.bounded
  have inside := lastPosition_lt path
  have isSlash : (arg.findLastOf fileSeparator).toInt32.toInt = slash := by
    rw [StdString.findLastOf, path]
    exact toInt_sizeOf (by omega)
  have behind : (arg.findLastOf fileSeparator).toInt32.toInt + 1 = (slash + 1 : Nat) := by
    rw [isSlash]
    rfl
  have zero : (0 : Int32).toInt = (0 : Nat) := rfl
  have classPath := substr_ok arg zero isSlash (Nat.zero_le _)
  change arg.substr 0 _ = _ at classPath
  have rest : getClassPathExt tokens arg =
      (arg.substr ((arg.findLastOf fileSeparator).toInt32 + 1).toUInt32
          (nameEnd arg (arg.findLastOf fileSeparator).toInt32 -
            (arg.findLastOf fileSeparator).toInt32).toUInt32 >>=
        fun className => .ok (.errSuccess, ⟨arg.chars.take slash, className⟩)) := by
    unfold getClassPathExt
    rw [if_neg (ne_npos isSlash), classPath]
    rfl
  rw [rest, className_eq arg behind inside]
  rfl

/-! ### Names of classes -/

/-- A class name holds neither a separator nor a dot. -/
def Plain (name : List Char) : Prop := fileSeparator ∉ name ∧ '.' ∉ name

instance (name : List Char) : Decidable (Plain name) := inferInstanceAs (Decidable (_ ∧ _))

section Names

variable {directory name : List Char}

theorem Plain.noSeparator (plain : Plain name) : fileSeparator ∉ name ++ suffix := by
  intro there
  rcases List.mem_append.mp there with inName | inSuffix
  · exact plain.1 inName
  · exact absurd inSuffix (by decide)

theorem drop_path (directory rest : List Char) :
    (directory ++ fileSeparator :: rest).drop (directory.length + 1) = rest := by
  rw [List.append_cons]
  apply List.drop_left'
  rw [List.length_append, List.length_singleton]

/-- With a suffix in the directory nothing is cut off. -/
theorem nameFrom_of_infix (inDirectory : suffix <:+: directory) (rest : List Char) :
    nameFrom (directory.length + 1) (directory ++ fileSeparator :: rest) = rest := by
  obtain ⟨position, found, within⟩ :=
    firstOccurrence_of_infix inDirectory (fileSeparator :: rest)
  have earlier : ¬ directory.length + 1 ≤ position := by omega
  rw [nameFrom, found]
  change (if directory.length + 1 ≤ position then _ else _) = _
  rw [if_neg earlier, drop_path]

theorem nameFrom_separated (notInDirectory : ¬ suffix <:+: directory) (rest : List Char) :
    nameFrom (directory.length + 1) (directory ++ fileSeparator :: rest) = nameFrom 0 rest := by
  have searched : firstOccurrence suffix (directory ++ fileSeparator :: rest) =
      (firstOccurrence suffix rest).map (· + (directory.length + 1)) :=
    firstOccurrence_separated (by decide) (by decide) notInDirectory
  unfold nameFrom
  rw [searched]
  cases firstOccurrence suffix rest with
  | none => exact drop_path directory rest
  | some position =>
      have later : directory.length + 1 ≤ position + (directory.length + 1) := by omega
      change (if directory.length + 1 ≤ position + (directory.length + 1) then _ else _) =
        if 0 ≤ position then _ else _
      rw [if_pos later, if_pos (Nat.zero_le _), drop_path, Nat.add_sub_cancel]
      rfl

theorem nameFrom_suffix (plain : Plain name) : nameFrom 0 (name ++ suffix) = name := by
  have found : firstOccurrence suffix (name ++ suffix) = some name.length :=
    firstOccurrence_behind plain.2 _
  rw [nameFrom, found]
  exact List.take_left

theorem nameFrom_plain (plain : Plain name) : nameFrom 0 name = name := by
  have absent : firstOccurrence suffix name = none := firstOccurrence_of_notMem plain.2 _
  rw [nameFrom, absent]
  rfl

end Names

/-! ### Arguments that are split -/

/-- No position is ever out of range. -/
theorem getClassPathExt_ok (tokens : Tokens) (arg : StdString) :
    ∃ result, getClassPathExt tokens arg = .ok result := by
  cases found : lastPosition fileSeparator arg.chars with
  | none => exact ⟨_, getClassPathExt_noPath tokens found⟩
  | some slash => exact ⟨_, getClassPathExt_path tokens found⟩

theorem splits_path (tokens : Tokens) {arg : StdString} {directory rest : List Char}
    (noSeparator : fileSeparator ∉ rest)
    (isArg : arg.chars = directory ++ fileSeparator :: rest) :
    getClassPathExt tokens arg =
      .ok (.errSuccess, ⟨directory, nameFrom (directory.length + 1) arg.chars⟩) := by
  have slash : lastPosition fileSeparator arg.chars = some directory.length := by
    rw [isArg]
    exact lastPosition_append noSeparator directory
  have classPath : arg.chars.take directory.length = directory := by
    rw [isArg]
    exact List.take_left
  rw [getClassPathExt_path tokens slash, classPath]

/-- For every directory and every class name: the argument is split between the two, with
or without a suffix, if and only if the directory does not contain the suffix itself. -/
theorem splits_iff (tokens : Tokens) {directory name : List Char} (plain : Plain name)
    (fits : (directory ++ fileSeparator :: (name ++ suffix)).length ≤ 2147483646) :
    (∀ arg : StdString,
      (arg.chars = directory ++ fileSeparator :: (name ++ suffix) ∨
          arg.chars = directory ++ fileSeparator :: name →
        getClassPathExt tokens arg = .ok (.errSuccess, ⟨directory, name⟩)) ∧
      (arg.chars = name ++ suffix ∨ arg.chars = name →
        getClassPathExt tokens arg = .ok (.errFail, { tokens with className := name })) ∧
      ∃ result, getClassPathExt tokens arg = .ok result) ↔
    ¬ suffix <:+: directory := by
  constructor
  · intro splits inDirectory
    have split := (splits ⟨_, fits⟩).1 (.inl rfl)
    rw [splits_path tokens plain.noSeparator rfl, nameFrom_of_infix inDirectory] at split
    have kept : name ++ suffix = name := congrArg (fun
      | Except.ok result => result.2.className
      | .error _ => name) split
    exact absurd (congrArg List.length kept) (by simp [suffix])
  · intro notInDirectory arg
    refine ⟨?_, ?_, getClassPathExt_ok tokens arg⟩
    · rintro (isArg | isArg)
      · rw [splits_path tokens plain.noSeparator isArg, isArg,
          nameFrom_separated notInDirectory, nameFrom_suffix plain]
      · rw [splits_path tokens plain.1 isArg, isArg, nameFrom_separated notInDirectory,
          nameFrom_plain plain]
    · rintro (isArg | isArg)
      · have noPath : lastPosition fileSeparator arg.chars = none := by
          rw [isArg]
          exact lastPosition_of_notMem plain.noSeparator
        rw [getClassPathExt_noPath tokens noPath, isArg, nameFrom_suffix plain]
      · have noPath : lastPosition fileSeparator arg.chars = none := by
          rw [isArg]
          exact lastPosition_of_notMem plain.1
        rw [getClassPathExt_noPath tokens noPath, isArg, nameFrom_plain plain]

theorem splits_hello :
    getClassPathExt ⟨[], []⟩ ⟨"Examples/Hello.som".toList, by decide⟩ =
      .ok (.errSuccess, ⟨"Examples".toList, "Hello".toList⟩) := by
  have notInDirectory : ¬ suffix <:+: "Examples".toList := by decide
  have splits := (splits_iff ⟨[], []⟩ (by decide : Plain "Hello".toList) (by decide)).mpr
    notInDirectory
  exact (splits ⟨"Examples/Hello.som".toList, by decide⟩).1 (.inl rfl)

/-- With the suffix in the name of the directory, the suffix of the class stays. -/
theorem suffix_kept :
    getClassPathExt ⟨[], []⟩ ⟨"Old.som/Hello.som".toList, by decide⟩ =
        .ok (.errSuccess, ⟨"Old.som".toList, "Hello.som".toList⟩) ∧
      getClassPathExt ⟨[], []⟩ ⟨"Old.som/Hello.som".toList, by decide⟩ ≠
        .ok (.errSuccess, ⟨"Old.som".toList, "Hello".toList⟩) := by
  constructor <;> decide +kernel

end Somr.Startup
