import Somr.Foundation.KeyedEntries
import Somr.Primitives.Numbers

/-!
Owns the coercion to Double: which sends with a Double operand complete with the
Double operation of the same selector.

Double coerces whatever number is on its right, Integer sends its message again
to a Double, and BigInteger does neither.
-/

namespace Somr.Primitives

open Somr.Foundation

variable {Float64 : Type} (arithmetic : DoubleArithmetic Float64)

namespace Number

/-- The conversion to `double` of each representation. -/
def toDouble : Number Float64 → Float64
  | .integer value => arithmetic.ofInt value.toInt
  | .bigInteger value => arithmetic.ofInt value.toInt
  | .double value => value

/-- Where the coercion ends in the Double operation that was asked for: Integer
sends `//` again as `/`, which Double lacks, as it lacks `/` itself. -/
def coercesTo (receiver : Number Float64) (selector : String) : Bool :=
  match receiver with
  | .double _ => true
  | .integer _ => selector != "/" && selector != "//"
  | .bigInteger _ => false

end Number

/-- The completion is that of the Double operation named by the selector. -/
def CompletesAsDouble (selector : String) (left right : Float64)
    (completion : Completion Float64) : Prop :=
  ∃ routine, (Double.primitives arithmetic).lookup selector = some routine ∧
    completion = routine left (some (.double right))

theorem prepareOperands_number (number : Number Float64)
    (operation : Float64 → Completion Float64) :
    Double.prepareOperands arithmetic (some number) operation =
      operation (number.toDouble arithmetic) := by
  cases number <;> rfl

/-- A Double routine sees its argument only through the coercion. -/
theorem routine_number {selector : String}
    {routine : Float64 → Operand Float64 → Completion Float64}
    (found : (Double.primitives arithmetic).lookup selector = some routine) (left : Float64)
    (argument : Number Float64) :
    routine left (some argument) = routine left (some (.double (argument.toDouble arithmetic))) := by
  have listed := mem_of_lookup found
  simp only [Double.primitives, List.mem_cons, Prod.mk.injEq, List.not_mem_nil, or_false] at listed
  rcases listed with ⟨-, rfl⟩ | ⟨-, rfl⟩ | ⟨-, rfl⟩ | ⟨-, rfl⟩ | ⟨-, rfl⟩ | ⟨-, rfl⟩ | ⟨-, rfl⟩ |
    ⟨-, rfl⟩
  all_goals exact prepareOperands_number arithmetic argument _

theorem double_send_coerces (left : Float64) (selector : String) (argument : Number Float64)
    (declared : (Number.double left).declares arithmetic selector = true) :
    CompletesAsDouble arithmetic selector left (argument.toDouble arithmetic)
      (Number.send arithmetic (.double left) selector (some argument)) := by
  obtain ⟨routine, found⟩ := Option.isSome_iff_exists.mp declared
  refine ⟨routine, found, ?_⟩
  rw [← routine_number arithmetic found left argument]
  simp only [Number.send, Double.send, found]

/-- The selectors Integer declares, and the message each sends again. -/
theorem integer_routine_double {selector : String}
    {routine : Int32 → Operand Float64 → Reply Float64}
    (found : (Integer.primitives arithmetic).lookup selector = some routine) (left : Int32)
    (right : Float64) :
    routine left (some (.double right)) =
      .resendAsDouble (if selector = "//" then "/" else selector) (arithmetic.ofInt left.toInt)
        right := by
  have listed := mem_of_lookup found
  simp only [Integer.primitives, List.mem_cons, Prod.mk.injEq, List.not_mem_nil, or_false]
    at listed
  rcases listed with ⟨rfl, rfl⟩ | ⟨rfl, rfl⟩ | ⟨rfl, rfl⟩ | ⟨rfl, rfl⟩ | ⟨rfl, rfl⟩ | ⟨rfl, rfl⟩ |
    ⟨rfl, rfl⟩ | ⟨rfl, rfl⟩ | ⟨rfl, rfl⟩ <;> rfl

theorem integer_send_double (left : Int32) (selector : String) (right : Float64)
    (declared : (Number.integer left : Number Float64).declares arithmetic selector = true) :
    Number.send arithmetic (.integer left) selector (some (.double right)) =
      Double.send arithmetic (if selector = "//" then "/" else selector)
        (arithmetic.ofInt left.toInt) (some (.double right)) := by
  obtain ⟨routine, found⟩ := Option.isSome_iff_exists.mp declared
  simp only [Number.send, Integer.send, found, integer_routine_double arithmetic found left right,
    Integer.complete]

/-- Every selector Integer declares is one of Double, but for `/`. -/
theorem declared_by_double {selector : String} (left : Int32)
    (declared : (Number.integer left : Number Float64).declares arithmetic selector = true)
    (noSlash : selector ≠ "/") :
    ∃ routine, (Double.primitives arithmetic).lookup selector = some routine := by
  obtain ⟨routine, found⟩ := Option.isSome_iff_exists.mp declared
  have listed := mem_of_lookup found
  simp only [Integer.primitives, List.mem_cons, Prod.mk.injEq, List.not_mem_nil, or_false]
    at listed
  rcases listed with ⟨rfl, -⟩ | ⟨rfl, -⟩ | ⟨rfl, -⟩ | ⟨rfl, -⟩ | ⟨rfl, -⟩ | ⟨rfl, -⟩ | ⟨rfl, -⟩ |
    ⟨rfl, -⟩ | ⟨rfl, -⟩
  all_goals first | exact absurd rfl noSlash | exact ⟨_, rfl⟩

theorem double_lacks_slash : (Double.primitives arithmetic).lookup "/" = none := rfl

/-- A routine of Double never finds its invokable missing. -/
theorem routine_ne_noInvokable {selector : String}
    {routine : Float64 → Operand Float64 → Completion Float64}
    (found : (Double.primitives arithmetic).lookup selector = some routine)
    (left right : Float64) :
    routine left (some (.double right)) ≠ .noInvokable ∧
      routine left (some (.double right)) ≠ .reinterprets := by
  have ofWord (word : Option Int64) : Completion.ofWord
      (fun word => .push (.double (arithmetic.ofInt word.toInt))) word ≠
        (.noInvokable : Completion Float64) ∧ Completion.ofWord
      (fun word => .push (.double (arithmetic.ofInt word.toInt))) word ≠
        (.reinterprets : Completion Float64) := by
    cases word <;> simp [Completion.ofWord]
  have listed := mem_of_lookup found
  simp only [Double.primitives, List.mem_cons, Prod.mk.injEq, List.not_mem_nil, or_false] at listed
  rcases listed with ⟨-, rfl⟩ | ⟨-, rfl⟩ | ⟨-, rfl⟩ | ⟨-, rfl⟩ | ⟨-, rfl⟩ | ⟨-, rfl⟩ | ⟨-, rfl⟩ |
    ⟨-, rfl⟩
  all_goals first | exact ofWord _ | exact ⟨nofun, nofun⟩

theorem bigInteger_send_double (left : Int64) (selector : String) (right : Float64)
    (declared : (Number.bigInteger left : Number Float64).declares arithmetic selector = true) :
    Number.send arithmetic (.bigInteger left) selector (some (.double right)) = .reinterprets := by
  obtain ⟨routine, found⟩ := Option.isSome_iff_exists.mp declared
  have listed := mem_of_lookup found
  simp only [Number.send, BigInteger.send, found]
  simp only [BigInteger.primitives, List.mem_cons, Prod.mk.injEq, List.not_mem_nil, or_false]
    at listed
  rcases listed with ⟨-, rfl⟩ | ⟨-, rfl⟩ | ⟨-, rfl⟩ | ⟨-, rfl⟩ | ⟨-, rfl⟩ | ⟨-, rfl⟩ | ⟨-, rfl⟩ |
    ⟨-, rfl⟩ <;> rfl

theorem double_imposes_iff (receiver argument : Number Float64) (selector : String)
    (declared : receiver.declares arithmetic selector = true)
    (someDouble : receiver.isDouble = true ∨ argument.isDouble = true) :
    CompletesAsDouble arithmetic selector (receiver.toDouble arithmetic)
        (argument.toDouble arithmetic)
        (Number.send arithmetic receiver selector (some argument)) ↔
      receiver.coercesTo selector = true := by
  cases receiver with
  | double left =>
      exact ⟨fun _ => rfl, fun _ => double_send_coerces arithmetic left selector argument declared⟩
  | bigInteger left =>
      cases argument with
      | integer value => simp [Number.isDouble] at someDouble
      | bigInteger value => simp [Number.isDouble] at someDouble
      | double right =>
          rw [bigInteger_send_double arithmetic left selector right declared]
          refine ⟨?_, fun impossible => Bool.noConfusion impossible⟩
          rintro ⟨routine, found, same⟩
          exact absurd same.symm (routine_ne_noInvokable arithmetic found _ _).2
  | integer left =>
      cases argument with
      | integer value => simp [Number.isDouble] at someDouble
      | bigInteger value => simp [Number.isDouble] at someDouble
      | double right =>
          rw [integer_send_double arithmetic left selector right declared]
          simp only [Number.coercesTo, Bool.and_eq_true, bne_iff_ne]
          constructor
          · rintro ⟨routine, found, same⟩
            constructor
            · rintro rfl
              rw [double_lacks_slash] at found
              cases found
            · rintro rfl
              exact (routine_ne_noInvokable arithmetic found _ _).1 same.symm
          · rintro ⟨noSlash, noSlashslash⟩
            obtain ⟨routine, found⟩ := declared_by_double arithmetic left declared noSlash
            refine ⟨routine, found, ?_⟩
            rw [if_neg noSlashslash, Double.send, found]
            rfl

theorem double_imposes_quotient :
    CompletesAsDouble integralDoubles "//" 6 3
      (Number.send integralDoubles (.double 6) "//" (some (.integer 3))) :=
  (double_imposes_iff integralDoubles (.double 6) (.integer 3) "//" rfl (.inl rfl)).mpr rfl

/-- `6 // 3.0` looks for `/` in Double, which has none. -/
theorem quotient_not_found :
    Number.send integralDoubles (.integer 6) "//" (some (.double 3)) = .noInvokable ∧
      ¬ CompletesAsDouble integralDoubles "//" 6 3
        (Number.send integralDoubles (.integer 6) "//" (some (.double 3))) := by
  have missing : Number.send integralDoubles (.integer 6) "//" (some (.double 3)) =
      .noInvokable := by decide
  refine ⟨missing, ?_⟩
  rw [missing]
  rintro ⟨routine, found, same⟩
  exact (routine_ne_noInvokable integralDoubles found _ _).1 same.symm

end Somr.Primitives
