import Offside.CText
import Offside.Proofs.Binary64.Digits
import Offside.Proofs.CText.Token

/-!
The text of a number is one number of C. An integer is a run of digits; a decimal has digits on both
sides of its point, or one digit before the point and an exponent at the end.
-/

namespace Offside

namespace C

/-- Whether a number that goes on after `before` takes in the whole text. -/
def Continues (before : Char) (text : List Char) : Prop := numberRest before text = (text, [])

theorem continues_cons {before c : Char} {rest : List Char} (first : continuesNumber before c = true)
    (later : Continues c rest) : Continues before (c :: rest) := by
  unfold Continues at later ⊢
  rw [numberRest, if_pos first, later]

def isDecimal (c : Char) : Bool := c.isDigit || c = '.'

theorem continuesNumber_of_isDecimal (before : Char) {c : Char} (decimal : isDecimal c = true) :
    continuesNumber before c = true := by
  rw [isDecimal, Bool.or_eq_true, decide_eq_true_eq] at decimal
  rcases decimal with digit | rfl
  · simp [continuesNumber, Segment.isWordPart, Char.isAlphanum, digit]
  · rfl

theorem continues_append {front back : List Char} (decimal : ∀ c ∈ front, isDecimal c = true)
    (later : ∀ before, Continues before back) (before : Char) : Continues before (front ++ back) := by
  induction front generalizing before with
  | nil => exact later before
  | cons c rest ih =>
    rw [List.forall_mem_cons] at decimal
    exact continues_cons (continuesNumber_of_isDecimal before decimal.1) (ih decimal.2 c)

theorem continues_decimal {text : List Char} (decimal : ∀ c ∈ text, isDecimal c = true)
    (before : Char) : Continues before text := by
  rw [← List.append_nil text]
  exact continues_append decimal (fun _ => show numberRest _ [] = _ from rfl) before

theorem isNumeral_cons {c : Char} {rest : List Char} (digit : c.isDigit = true)
    (whole : Continues c rest) : isNumeral (c :: rest) = true := by
  rw [isNumeral, digit, Bool.true_and, decide_eq_true_eq]
  exact whole

theorem isNumeral_of_decimal {text : List Char} (decimal : ∀ c ∈ text, isDecimal c = true)
    (starts : ∃ c ∈ text.head?, c.isDigit = true) : isNumeral text = true := by
  obtain ⟨c, first, digit⟩ := starts
  cases text with
  | nil => cases first
  | cons other rest =>
    cases first
    rw [List.forall_mem_cons] at decimal
    exact isNumeral_cons digit (continues_decimal decimal.2 c)

end C

open C

theorem isDecimal_of_digits {digits : List Char} (each : ∀ c ∈ digits, c.isDigit = true) :
    ∀ c ∈ digits, isDecimal c = true := by
  intro c found
  rw [isDecimal, each c found, Bool.true_or]

namespace Binary64

theorem isNumeral_positional {digits : List Char} (each : ∀ c ∈ digits, c.isDigit = true)
    (point : Int) : isNumeral (positional digits point) = true := by
  have decimal := isDecimal_of_digits each
  unfold positional
  split
  next =>
    refine isNumeral_of_decimal ?_ ⟨'0', rfl, rfl⟩
    simp only [List.cons_append, List.forall_mem_cons, List.forall_mem_append]
    refine ⟨rfl, rfl, fun c found => ?_, decimal⟩
    rw [List.eq_of_mem_replicate found]
    rfl
  next positive =>
    split
    next =>
      refine isNumeral_of_decimal ?_ ?_
      · simp only [List.forall_mem_append, List.forall_mem_cons]
        refine ⟨⟨decimal, fun c found => ?_⟩, rfl, rfl, List.forall_mem_nil _⟩
        rw [List.eq_of_mem_replicate found]
        rfl
      · cases digits with
        | nil =>
          obtain ⟨count, same⟩ : ∃ count, point.toNat = count + 1 := ⟨point.toNat - 1, by omega⟩
          rw [same]
          exact ⟨'0', rfl, rfl⟩
        | cons c rest => exact ⟨c, rfl, each c List.mem_cons_self⟩
    next short =>
      refine isNumeral_of_decimal ?_ ?_
      · simp only [List.forall_mem_append, List.forall_mem_cons]
        exact ⟨fun c found => decimal c (List.mem_of_mem_take found), rfl,
          fun c found => decimal c (List.mem_of_mem_drop found)⟩
      · obtain ⟨count, same⟩ : ∃ count, point.toNat = count + 1 := ⟨point.toNat - 1, by omega⟩
        cases digits with
        | nil => exact absurd (show (([] : List Char).length : Int) ≤ point by simp; omega) short
        | cons c rest =>
          rw [same]
          exact ⟨c, rfl, each c List.mem_cons_self⟩

theorem continues_exponent (exponent : Int) (before : Char) :
    Continues before ('e' :: exponentText exponent) := by
  refine continues_cons (by simp [continuesNumber, Segment.isWordPart]) (continues_cons ?_ ?_)
  · split <;> rfl
  · apply continues_decimal
    apply isDecimal_of_digits
    split
    · rw [List.forall_mem_cons]
      exact ⟨rfl, fun c found => isDigit_toDigits found⟩
    · exact fun c found => isDigit_toDigits found

theorem isNumeral_scientific {digits : List Char} (each : ∀ c ∈ digits, c.isDigit = true)
    (nonempty : digits ≠ []) (point : Int) : isNumeral (scientific digits point) = true := by
  cases digits with
  | nil => exact absurd rfl nonempty
  | cons c rest =>
    rw [List.forall_mem_cons] at each
    have shape : scientific (c :: rest) point =
        c :: ((if (c :: rest).length ≤ 1 then [] else '.' :: rest) ++ 'e' :: exponentText (point - 1)) :=
      rfl
    rw [shape]
    refine isNumeral_cons each.1 (continues_append ?_ (continues_exponent (point - 1)) c)
    split
    · exact List.forall_mem_nil _
    · rw [List.forall_mem_cons]
      exact ⟨rfl, isDecimal_of_digits each.2⟩

theorem isNumeral_magnitudeText (mantissa : Nat) (exponent : Int) :
    isNumeral (magnitudeText mantissa exponent) = true := by
  unfold magnitudeText
  split
  next => rfl
  next nonzero =>
    have each := significant_digits (shortest mantissa exponent).1 (shortest mantissa exponent).2
    have nonempty := significant_ne_nil (shortest_ne_zero exponent nonzero)
      (shortest mantissa exponent).2
    simp only
    split
    · exact isNumeral_positional each _
    · exact isNumeral_scientific each nonempty _

end Binary64

namespace Literal

/-- The literals that a source can have: integers that are not negative, finite decimals without a
sign, and truth values. -/
def IsLexical : Literal → Prop
  | integer value => 0 ≤ value
  | float (.finite negative _ _) => negative = false
  | float _ => False
  | boolean _ => True

theorem toList_cText_integer (count : Nat) : (cText (.integer count)).toList = Nat.toDigits 10 count := by
  change (toString count).toList = _
  rw [Nat.toString_eq_ofList_toDigits, String.toList_ofList]

theorem isNumeral_cText {value : Literal} (lexical : value.IsLexical) :
    isNumeral value.cText.toList = true := by
  cases value with
  | integer value =>
    obtain ⟨count, rfl⟩ := Int.eq_ofNat_of_zero_le lexical
    rw [toList_cText_integer]
    refine isNumeral_of_decimal (isDecimal_of_digits fun c found => isDigit_toDigits found) ?_
    cases written : Nat.toDigits 10 count with
    | nil => exact absurd written Nat.toDigits_ne_nil
    | cons c rest => exact ⟨c, rfl, isDigit_toDigits (written ▸ List.mem_cons_self)⟩
  | float value =>
    cases value with
    | finite negative mantissa exponent =>
      cases lexical
      change isNumeral (String.ofList (Binary64.magnitudeText mantissa exponent)).toList = true
      rw [String.toList_ofList]
      exact Binary64.isNumeral_magnitudeText mantissa exponent
    | infinite negative => exact lexical.elim
    | nan => exact lexical.elim
  | boolean value => cases value <;> rfl

end Literal

end Offside
