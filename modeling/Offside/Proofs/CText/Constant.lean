import Offside.Proofs.Binary64.ReadBack
import Offside.Proofs.CText.Program
import Offside.Proofs.Scanner.Places

/-!
The constants of C. The text of a literal that a source can have is a constant of the same value: an
integer is written without a zero in front, which would make it octal, and a decimal is rounded to the
number that was written.
-/

namespace Offside

def Binary64.toRat? : Binary64 → Option ℚ
  | finite negative mantissa exponent =>
    some (if negative then -magnitude mantissa exponent else magnitude mantissa exponent)
  | _ => none

namespace C

inductive Value where
  | integer (value : Int)
  | double (value : ℚ)
deriving DecidableEq

namespace Value

def number : Value → ℚ
  | integer value => value
  | double value => value

def isInteger : Value → Bool
  | integer _ => true
  | double _ => false

end Value

def fits (value : Int) : Bool := -2 ^ 63 ≤ value && value < 2 ^ 63

def wholeConstant? (digits : List Char) : Option Int :=
  let base := if digits.head? = some '0' then 8 else 10
  let value := Nat.ofDigitChars base digits 0
  if digits.all (fun digit => digit.toNat - '0'.toNat < base) && fits value then some value else none

/-- The value of a constant. It is an integer if it has neither a point nor an exponent. -/
def constant? (text : String) : Option Value :=
  if text.toList.all Char.isDigit then (wholeConstant? text.toList).map .integer
  else ((Binary64.ofText? text).bind Binary64.toRat?).map .double

end C

open C

theorem head_toDigits {n : Nat} (positive : 0 < n) : (Nat.toDigits 10 n).head? ≠ some '0' := by
  induction n using Nat.strongRecOn with
  | _ n ih =>
    rcases Nat.lt_or_ge n 10 with small | large
    · have digit : ∀ n < 10, 0 < n → n.digitChar ≠ '0' := by decide
      rw [Nat.toDigits_of_lt_base small, List.head?_singleton, Ne, Option.some.injEq]
      exact digit n small positive
    · rw [Nat.toDigits_of_base_le (by decide) large, List.head?_append_of_ne_nil _ Nat.toDigits_ne_nil]
      exact ih (n / 10) (by omega) (by omega)

theorem wholeConstant?_toDigits {n : Nat} (small : n < 2 ^ 63) :
    wholeConstant? (Nat.toDigits 10 n) = some (n : Int) := by
  have inside : fits n = true := by
    rw [fits, Bool.and_eq_true, decide_eq_true_eq, decide_eq_true_eq]
    omega
  rcases Nat.eq_zero_or_pos n with rfl | positive
  · rfl
  · have digits : (Nat.toDigits 10 n).all (fun digit => digit.toNat - '0'.toNat < 10) = true := by
      rw [List.all_eq_true]
      intro c found
      have last := (Char.isDigit_iff_toNat.mp (isDigit_toDigits found)).2
      have range : '9'.toNat = '0'.toNat + 9 := rfl
      rw [decide_eq_true_eq]
      omega
    simp only [wholeConstant?, if_neg (head_toDigits positive), Nat.ofDigitChars_ten_toDigits, digits, inside,
      Bool.and_true, ↓reduceIte]

theorem Binary64.exists_mark (mantissa : Nat) (exponent : Int) :
    ∃ c ∈ magnitudeText mantissa exponent, c.isDigit = false := by
  have point (digits : List Char) (place : Int) : '.' ∈ positional digits place := by
    unfold positional
    split
    · simp
    · split <;> simp
  unfold magnitudeText
  split
  · exact ⟨'.', by simp, rfl⟩
  · dsimp only
    split
    · exact ⟨'.', point _ _, rfl⟩
    · exact ⟨'e', by simp [scientific], rfl⟩

namespace Literal

def value? : Literal → Option ℚ
  | integer value => some value
  | float value => value.toRat?
  | boolean value => some (if value then 1 else 0)

def isIntegral : Literal → Bool
  | float _ => false
  | _ => true

/-- The literals of sources without a fault: integers of 63 bits, and finite decimals in the one form
that each has. -/
def IsExact : Literal → Prop
  | integer value => 0 ≤ value ∧ value < 2 ^ 63
  | float value => ∃ mantissa exponent, value = .finite false mantissa exponent ∧
      Binary64.IsCanonical mantissa exponent
  | boolean _ => True

/-- The text of a literal is a constant of the same value, which is an integer unless the literal is a
decimal. -/
theorem exists_constant {value : Literal} (exact : value.IsExact) :
    ∃ constant, constant? value.cText = some constant ∧ value.value? = some constant.number ∧
      constant.isInteger = value.isIntegral := by
  cases value with
  | integer value =>
    obtain ⟨least, small⟩ := exact
    obtain ⟨count, rfl⟩ := Int.eq_ofNat_of_zero_le least
    have text := toList_cText_integer count
    have digits : (Nat.toDigits 10 count).all Char.isDigit = true :=
      List.all_eq_true.mpr fun c => isDigit_toDigits
    refine ⟨.integer count, ?_, rfl, rfl⟩
    rw [constant?, text, if_pos digits, wholeConstant?_toDigits (by omega), Option.map_some]
  | float value =>
    obtain ⟨mantissa, exponent, rfl, canonical⟩ := exact
    have text : cText (.float (.finite false mantissa exponent)) =
        String.ofList (Binary64.magnitudeText mantissa exponent) := rfl
    have marked : ¬ (Binary64.magnitudeText mantissa exponent).all Char.isDigit = true := by
      obtain ⟨c, found, mark⟩ := Binary64.exists_mark mantissa exponent
      rw [List.all_eq_true]
      exact fun digits => by simp [digits c found] at mark
    refine ⟨.double (Binary64.magnitude mantissa exponent), ?_, rfl, rfl⟩
    rw [constant?, text, String.toList_ofList, if_neg marked, Binary64.ofText?_magnitudeText canonical]
    rfl
  | boolean value => cases value <;> exact ⟨_, rfl, rfl, rfl⟩

end Literal

theorem Token.isExact_of_marks {before after : List Char} {token : Token} {value : Literal}
    (marks : token.Marks before after) (sourced : token.lexeme.IsSourced)
    (same : token.lexeme = value.lexeme) : value.IsExact := by
  have reserved : ∀ entry ∈ reservedWords, entry.2.1 ≠ .integer ∧ entry.2.1 ≠ .float := by decide
  obtain ⟨kind, payload, place⟩ := token
  cases value with
  | boolean truth => trivial
  | integer number =>
    obtain rfl : kind = .integer := kind_of_lexeme same
    obtain rfl : payload = .integer number := congrArg Prod.snd same
    obtain ⟨text, rest, -, -, reads⟩ := marks
    cases reads with
    | reserved listed stops => exact absurd rfl (reserved _ listed).1
    | integer some digits stops whole =>
      constructor
      · omega
      · omega
  | float number =>
    obtain rfl : kind = .float := kind_of_lexeme same
    obtain rfl : payload = .float number := congrArg Prod.snd same
    obtain ⟨text, rest, -, -, reads⟩ := marks
    cases reads with
    | reserved listed stops => exact absurd rfl (reserved _ listed).2
    | float whole some fraction stops rounded =>
      cases number with
      | finite negative mantissa exponent =>
        obtain ⟨rfl, canonical, -⟩ := rounded
        exact ⟨mantissa, exponent, rfl, canonical⟩
      | infinite negative => cases sourced.1
      | nan => cases sourced.1

theorem isExact_of_succeeded {options : Options} {file : Option String} {source : String}
    {compilation : Compilation} (result : (compile options file source).result = .ok compilation)
    (succeeded : compilation.succeeded = true) {value : Literal}
    (found : value.lexeme ∈ Stmt.lexemesOfAll compilation.statements) : value.IsExact := by
  obtain ⟨-, scanned, spelled⟩ := lexemes_of_succeeded result succeeded
  obtain ⟨token, member, same⟩ := spelled _ found
  have sourced := Scanner.isSourced_run scanned token member
  obtain ⟨pull, pulled, rfl⟩ := List.mem_map.mp member
  obtain ⟨before, after, -, -, marks⟩ := (Scanner.isPlaced_run _ _ _ pull pulled).token
  exact Token.isExact_of_marks marks sourced same

end Offside
