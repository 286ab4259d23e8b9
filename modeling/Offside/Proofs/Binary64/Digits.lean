import Mathlib.Algebra.Group.Nat.Defs
import Offside.Binary64.Shortest

/-!
The digits of a shortest decimal. They lie in the interval that was searched, so they are not zero, and
some digits remain when the zeros at their end are taken away.
-/

namespace Offside

theorem isDigit_toDigits {n : Nat} {c : Char} (found : c ∈ Nat.toDigits 10 n) : c.isDigit = true :=
  Nat.isDigit_of_mem_toDigits (by decide) (by decide) found

namespace Binary64

theorem Interval.ne_zero_of_holds {range : Interval} {num den count : Nat} (low : 0 < range.low)
    (unit : 0 < num) (inside : range.holds num den count = true) : count ≠ 0 := by
  rintro rfl
  have positive : 0 < range.low * num := Nat.mul_pos low unit
  unfold Interval.holds at inside
  split at inside
  all_goals
    simp only [Bool.and_eq_true, decide_eq_true_eq, Nat.zero_mul] at inside
    omega

theorem unitRatio_pos (two ten : Int) : 0 < (unitRatio two ten).1 ∧ 0 < (unitRatio two ten).2 :=
  ⟨Nat.mul_pos (Nat.pow_pos (by decide)) (Nat.pow_pos (by decide)),
    Nat.mul_pos (Nat.pow_pos (by decide)) (Nat.pow_pos (by decide))⟩

/-- A decimal that is found lies in the interval, and its last digit is at the place asked for. -/
theorem holds_of_decimalWithin {range : Interval} {exponent point power : Int} {places count : Nat}
    (found : decimalWithin range exponent point places = some (count, power)) :
    power = point - places ∧ range.holds (unitRatio (exponent - 2) (-power)).1
      (unitRatio (exponent - 2) (-power)).2 count = true := by
  simp only [decimalWithin] at found
  split at found
  next both =>
    rw [Bool.and_eq_true] at both
    split at found <;> cases found
    · exact ⟨rfl, both.1⟩
    · exact ⟨rfl, both.2⟩
  split at found
  next lower =>
    cases found
    exact ⟨rfl, lower⟩
  split at found
  next upper =>
    cases found
    exact ⟨rfl, upper⟩
  next => cases found

theorem isSome_decimalWithin {range : Interval} {exponent point : Int} {places : Nat}
    (one : let units := unitRatio (exponent - 2) (-(point - places))
      range.holds units.1 units.2 (range.middle * units.1 / units.2) = true ∨
        range.holds units.1 units.2 (range.middle * units.1 / units.2 + 1) = true) :
    (decimalWithin range exponent point places).isSome = true := by
  simp only [decimalWithin]
  split
  next => split <;> rfl
  split
  next => rfl
  next noLower => rw [if_pos (one.resolve_left noLower), Option.isSome_some]

theorem shortest_ne_zero {mantissa : Nat} (exponent : Int) (nonzero : mantissa ≠ 0) :
    (shortest mantissa exponent).1 ≠ 0 := by
  have low : 0 < (intervalOf mantissa exponent).low := by
    simp only [intervalOf]
    split <;> omega
  simp only [shortest]
  generalize search : List.findSome? _ _ = result
  cases result with
  | none => exact nonzero
  | some decimal =>
    obtain ⟨places, -, found⟩ := List.exists_of_findSome?_eq_some search
    exact Interval.ne_zero_of_holds low (unitRatio_pos _ _).1 (holds_of_decimalWithin found).2

theorem significant_digits (digits : Nat) (power : Int) :
    ∀ c ∈ (significant digits power).1, c.isDigit = true := by
  intro c found
  have kept := (List.dropWhile_sublist _).subset (List.mem_reverse.mp found)
  exact isDigit_toDigits (List.mem_reverse.mp kept)

theorem exists_zeros_significant (digits : Nat) (power : Int) :
    ∃ count, Nat.toDigits 10 digits = (significant digits power).1 ++ List.replicate count '0' := by
  refine ⟨((Nat.toDigits 10 digits).reverse.takeWhile (· = '0')).length, ?_⟩
  have zeros : (Nat.toDigits 10 digits).reverse.takeWhile (· = '0') =
      List.replicate ((Nat.toDigits 10 digits).reverse.takeWhile (· = '0')).length '0' := by
    rw [List.eq_replicate_iff]
    exact ⟨rfl, fun c found => of_decide_eq_true (List.all_eq_true.mp List.all_takeWhile c found)⟩
  rw [← List.reverse_replicate, ← zeros, significant, ← List.reverse_append,
    List.takeWhile_append_dropWhile, List.reverse_reverse]

theorem ofDigitChars_significant (digits : Nat) (power : Int) :
    ∃ count : Nat, digits = 10 ^ count * Nat.ofDigitChars 10 (significant digits power).1 0 ∧
      (significant digits power).2 = (significant digits power).1.length + count + power := by
  obtain ⟨count, whole⟩ := exists_zeros_significant digits power
  refine ⟨count, ?_, ?_⟩
  · have same : Nat.ofDigitChars 10 (Nat.toDigits 10 digits) 0 = digits := Nat.ofDigitChars_ten_toDigits
    rw [whole, Nat.ofDigitChars_append, Nat.ofDigitChars_replicate_zero] at same
    exact same.symm
  · have length := congrArg List.length whole
    rw [List.length_append, List.length_replicate] at length
    simp only [significant] at length ⊢
    omega

theorem significant_ne_nil {digits : Nat} (nonzero : digits ≠ 0) (power : Int) :
    (significant digits power).1 ≠ [] := by
  intro empty
  obtain ⟨count, same, -⟩ := ofDigitChars_significant digits power
  rw [empty, Nat.ofDigitChars_nil, Nat.mul_zero] at same
  exact nonzero same

end Binary64

end Offside
