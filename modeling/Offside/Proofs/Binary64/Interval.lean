import Offside.Proofs.Binary64.Digits
import Offside.Proofs.Binary64.Rounding

/-!
The decimals that are read as one and the same number reach half way to its neighbours. The shortest
decimal of a number is one of them: seventeen digits are always enough to come so close.
-/

namespace Offside.Binary64

section Neighbours

variable {mantissa mantissa' : Nat} {exponent exponent' : Int}

theorem magnitude_add_le (first : IsCanonical mantissa exponent)
    (second : IsCanonical mantissa' exponent') (finer : exponent < exponent') :
    magnitude mantissa exponent + 2 ^ exponent ≤ magnitude mantissa' exponent' := by
  have normal : 2 ^ 52 ≤ mantissa' := by
    rcases second.normal with normal | least
    · exact normal
    · have := first.least
      omega
  calc magnitude mantissa exponent + 2 ^ exponent
      = ((mantissa + 1 : Nat) : ℚ) * 2 ^ exponent := by
        rw [magnitude]
        push_cast
        ring
    _ ≤ 2 ^ 53 * 2 ^ exponent := by
        gcongr
        exact_mod_cast first.small
    _ = 2 ^ 52 * 2 ^ (exponent + 1) := by
        rw [zpow_add₀ two_ne_zero, zpow_one]
        ring
    _ ≤ mantissa' * 2 ^ exponent' := by
        gcongr
        · exact_mod_cast normal
        · norm_num
        · omega

theorem magnitude_injective (first : IsCanonical mantissa exponent)
    (second : IsCanonical mantissa' exponent')
    (same : magnitude mantissa exponent = magnitude mantissa' exponent') :
    mantissa = mantissa' ∧ exponent = exponent' := by
  have unit : (0 : ℚ) < 2 ^ exponent := by positivity
  have unit' : (0 : ℚ) < 2 ^ exponent' := by positivity
  rcases Int.lt_trichotomy exponent exponent' with finer | rfl | coarser
  · have := magnitude_add_le first second finer
    linarith
  · refine ⟨?_, rfl⟩
    exact_mod_cast mul_right_cancel₀ unit.ne' same
  · have := magnitude_add_le second first coarser
    linarith

theorem gap_above (first : IsCanonical mantissa exponent) (second : IsCanonical mantissa' exponent')
    (less : magnitude mantissa exponent < magnitude mantissa' exponent') :
    magnitude mantissa exponent + 2 ^ exponent ≤ magnitude mantissa' exponent' := by
  have unit' : (0 : ℚ) < 2 ^ exponent' := by positivity
  rcases Int.lt_trichotomy exponent exponent' with finer | rfl | coarser
  · exact magnitude_add_le first second finer
  · rw [magnitude, magnitude, mul_lt_mul_iff_left₀ unit'] at less
    have next : (mantissa : ℚ) + 1 ≤ mantissa' := by exact_mod_cast less
    rw [magnitude, magnitude, ← add_one_mul]
    gcongr
  · have := magnitude_add_le second first coarser
    linarith

/-- The gap below a number: half a unit below a power of two, where the exponent changes. -/
def gapBelow (mantissa : Nat) (exponent : Int) : ℚ :=
  if mantissa = 2 ^ 52 ∧ leastExponent < exponent then 2 ^ (exponent - 1) else 2 ^ exponent

theorem two_zpow_pred (exponent : Int) : (2 : ℚ) ^ exponent = 2 * 2 ^ (exponent - 1) := by
  rw [← zpow_one_add₀ two_ne_zero]
  congr 1
  omega

theorem gapBelow_pos (mantissa : Nat) (exponent : Int) : 0 < gapBelow mantissa exponent := by
  unfold gapBelow
  split <;> positivity

theorem gapBelow_le (mantissa : Nat) (exponent : Int) : gapBelow mantissa exponent ≤ 2 ^ exponent := by
  have half : (0 : ℚ) < 2 ^ (exponent - 1) := by positivity
  rw [gapBelow, two_zpow_pred exponent]
  split <;> linarith

theorem gap_below (first : IsCanonical mantissa exponent) (second : IsCanonical mantissa' exponent')
    (less : magnitude mantissa' exponent' < magnitude mantissa exponent) :
    magnitude mantissa' exponent' + gapBelow mantissa exponent ≤ magnitude mantissa exponent := by
  have reaches := gap_above second first less
  rcases lt_or_ge exponent' exponent with finer | coarse
  · -- The number below has a smaller exponent, so it is at most the last one before a power of two.
    have half : (0 : ℚ) < 2 ^ (exponent - 1) := by positivity
    have last : magnitude mantissa' exponent' ≤ (2 ^ 53 - 1) * 2 ^ (exponent - 1) := by
      have small : (mantissa' : ℚ) ≤ 2 ^ 53 - 1 := by
        have := second.small
        have next : (mantissa' : ℚ) + 1 ≤ 2 ^ 53 := by exact_mod_cast this
        linarith
      unfold magnitude
      gcongr
      · norm_num
      · omega
    have normal : 2 ^ 52 ≤ mantissa := by
      rcases first.normal with normal | least
      · exact normal
      · have := second.least
        omega
    have unit := two_zpow_pred exponent
    unfold gapBelow
    split
    next power =>
      have whole : magnitude mantissa exponent = 2 ^ 52 * (2 * 2 ^ (exponent - 1)) := by
        rw [magnitude, power.1, unit, Nat.cast_pow, Nat.cast_ofNat]
      linarith
    next noPower =>
      have more : 2 ^ 52 + 1 ≤ mantissa := by
        have := second.least
        omega
      have more : (2 : ℚ) ^ 52 + 1 ≤ mantissa := by exact_mod_cast more
      have grown : (2 ^ 52 + 1) * (2 : ℚ) ^ exponent ≤ magnitude mantissa exponent := by
        unfold magnitude
        gcongr
      rw [unit] at grown ⊢
      linarith
  · have := gapBelow_le mantissa exponent
    have : (2 : ℚ) ^ exponent ≤ 2 ^ exponent' := zpow_le_zpow_right₀ (by norm_num) coarse
    linarith

theorem odd_of_gap_above (first : IsCanonical mantissa exponent)
    (second : IsCanonical mantissa' exponent') (even : mantissa % 2 = 0)
    (next : magnitude mantissa' exponent' = magnitude mantissa exponent + 2 ^ exponent) :
    mantissa' % 2 = 1 := by
  have canonical : IsCanonical (mantissa + 1) exponent := by
    refine ⟨?_, first.least, first.greatest, first.normal.imp_left fun normal => ?_⟩
    · have := first.small
      omega
    · omega
  have same : magnitude mantissa' exponent' = magnitude (mantissa + 1) exponent := by
    rw [next, magnitude, magnitude]
    push_cast
    ring
  have := (magnitude_injective second canonical same).1
  omega

theorem odd_of_gap_below (first : IsCanonical mantissa exponent)
    (second : IsCanonical mantissa' exponent') (nonzero : mantissa ≠ 0) (even : mantissa % 2 = 0)
    (next : magnitude mantissa' exponent' = magnitude mantissa exponent - gapBelow mantissa exponent) :
    mantissa' % 2 = 1 := by
  unfold gapBelow at next
  split at next
  next power =>
    have canonical : IsCanonical (2 ^ 53 - 1) (exponent - 1) := by
      refine ⟨by norm_num, ?_, ?_, .inl (by norm_num)⟩
      · omega
      · have := first.greatest
        omega
    have same : magnitude mantissa' exponent' = magnitude (2 ^ 53 - 1) (exponent - 1) := by
      rw [next, magnitude, magnitude, power.1, two_zpow_pred exponent]
      push_cast
      ring
    have := (magnitude_injective second canonical same).1
    omega
  next noPower =>
    have canonical : IsCanonical (mantissa - 1) exponent := by
      refine ⟨?_, first.least, first.greatest, ?_⟩
      · have := first.small
        omega
      · have := first.least
        rcases first.normal with normal | least
        · by_cases lowest : exponent = leastExponent
          · exact .inr lowest
          · left
            omega
        · exact .inr least
    have same : magnitude mantissa' exponent' = magnitude (mantissa - 1) exponent := by
      rw [next, magnitude, magnitude, Nat.cast_sub (Nat.one_le_iff_ne_zero.mpr nonzero)]
      push_cast
      ring
    have := (magnitude_injective second canonical same).1
    omega

end Neighbours

structure Interval.Contains (range : Interval) (unit number : ℚ) : Prop where
  low : range.low * unit ≤ number
  high : number ≤ range.high * unit
  inner : range.closed = false → range.low * unit ≠ number ∧ number ≠ range.high * unit

section Rounding

variable {mantissa : Nat} {exponent : Int}

theorem two_zpow_quarter (exponent : Int) : (2 : ℚ) ^ exponent = 4 * 2 ^ (exponent - 2) := by
  rw [two_zpow_pred exponent, two_zpow_pred (exponent - 1), show exponent - 1 - 1 = exponent - 2 by omega,
    ← mul_assoc]
  norm_num

theorem low_intervalOf (nonzero : mantissa ≠ 0) (exponent : Int) :
    ((intervalOf mantissa exponent).low : ℚ) * 2 ^ (exponent - 2) =
      magnitude mantissa exponent - gapBelow mantissa exponent / 2 := by
  have positive : 1 ≤ mantissa := Nat.one_le_iff_ne_zero.mpr nonzero
  have unit := two_zpow_quarter exponent
  have half := two_zpow_pred (exponent - 1)
  rw [show exponent - 1 - 1 = exponent - 2 by omega] at half
  simp only [intervalOf, gapBelow, magnitude, Nat.pow_eq]
  split
  · rw [Nat.cast_sub (by omega), half, unit]
    push_cast
    ring
  · rw [Nat.cast_sub (by omega), unit]
    push_cast
    ring

theorem high_intervalOf (mantissa : Nat) (exponent : Int) :
    ((intervalOf mantissa exponent).high : ℚ) * 2 ^ (exponent - 2) =
      magnitude mantissa exponent + 2 ^ exponent / 2 := by
  rw [magnitude, two_zpow_quarter exponent]
  simp only [intervalOf]
  push_cast
  ring

theorem closed_intervalOf : (intervalOf mantissa exponent).closed = false ↔ mantissa % 2 ≠ 0 := by
  simp [intervalOf]

theorem lt_overflowBound_of_contains (canonical : IsCanonical mantissa exponent) {decimal : ℚ}
    (inside : (intervalOf mantissa exponent).Contains (2 ^ (exponent - 2)) decimal) :
    decimal < overflowBound := by
  have high := inside.high
  have inner := inside.inner
  rw [high_intervalOf] at high inner
  rw [closed_intervalOf] at inner
  have small := canonical.small
  have unit : (0 : ℚ) < 2 ^ exponent := by positivity
  have strict : decimal < (2 ^ 53 - 1 / 2) * 2 ^ exponent := by
    unfold magnitude at high inner
    rcases Nat.lt_or_ge (mantissa + 1) (2 ^ 53) with less | last
    · have less : (mantissa : ℚ) + 2 ≤ 2 ^ 53 := by exact_mod_cast less
      nlinarith
    · have last : mantissa = 2 ^ 53 - 1 := by omega
      have below := lt_of_le_of_ne high (inner (by omega)).2
      rw [last] at below
      push_cast at below
      linarith
  calc decimal < (2 ^ 53 - 1 / 2) * 2 ^ exponent := strict
    _ ≤ (2 ^ 53 - 1 / 2) * 2 ^ greatestExponent := by
      gcongr
      · norm_num
      · exact canonical.greatest
    _ = overflowBound := overflowBound_eq.symm

/-- A number at most half a gap away is no nearer to what is a gap away, and as near only if it is half
way between the two. -/
theorem ends_of_near {here there number gap : ℚ} (positive : 0 < gap) (apart : there + gap ≤ here)
    (close : here - gap / 2 ≤ number) (near : |there - number| ≤ |here - number|) :
    number = here - gap / 2 ∧ there = here - gap := by
  rw [abs_sub_comm, abs_of_nonneg (by linarith)] at near
  rcases le_total number here with under | beyond
  · rw [abs_of_nonneg (by linarith)] at near
    constructor <;> linarith
  · rw [abs_sub_comm, abs_of_nonneg (by linarith)] at near
    linarith

theorem eq_of_isRounded (canonical : IsCanonical mantissa exponent) (nonzero : mantissa ≠ 0)
    {decimal : ℚ} (inside : (intervalOf mantissa exponent).Contains (2 ^ (exponent - 2)) decimal)
    {value : Binary64} (rounded : IsRounded decimal value) : value = finite false mantissa exponent := by
  cases value with
  | nan => exact rounded.elim
  | infinite negative =>
    exact absurd rounded.2 (not_le_of_gt (lt_overflowBound_of_contains canonical inside))
  | finite negative mantissa' exponent' =>
    obtain ⟨rfl, canonical', -, closest⟩ := rounded
    obtain ⟨near, tie⟩ := closest mantissa exponent canonical
    have low := inside.low
    have high := inside.high
    have inner := inside.inner
    rw [low_intervalOf nonzero] at low inner
    rw [high_intervalOf] at high inner
    rw [closed_intervalOf] at inner
    have gap := gapBelow_pos mantissa exponent
    have unit : (0 : ℚ) < 2 ^ exponent := by positivity
    -- Another number as near as this one is a neighbour, with the decimal at the end between the two.
    rcases lt_trichotomy (magnitude mantissa' exponent') (magnitude mantissa exponent) with
      below | same | above
    · exfalso
      have apart := gap_below canonical canonical' below
      obtain ⟨ends, next⟩ := ends_of_near gap apart low near
      have even : mantissa % 2 = 0 := by
        by_contra odd
        exact (inner odd).1 ends.symm
      have odd := odd_of_gap_below canonical canonical' nonzero even next
      have even' := (tie ?_).resolve_left below.ne'
      · omega
      · rw [next, ends, abs_sub_comm, sub_sub_cancel]
        congr 1
        ring
    · obtain ⟨rfl, rfl⟩ := magnitude_injective canonical' canonical same
      rfl
    · exfalso
      have apart := gap_above canonical canonical' above
      obtain ⟨ends, next⟩ := @ends_of_near (-magnitude mantissa exponent)
        (-magnitude mantissa' exponent') (-decimal) (2 ^ exponent) unit (by linarith) (by linarith) (by
          rw [← neg_sub', ← neg_sub', abs_neg, abs_neg]
          exact near)
      have even : mantissa % 2 = 0 := by
        by_contra odd
        exact (inner odd).2 (by linarith)
      have odd := odd_of_gap_above canonical canonical' even (by linarith)
      have even' := (tie ?_).resolve_left above.ne
      · omega
      · rw [show decimal = magnitude mantissa exponent + 2 ^ exponent / 2 by linarith,
          show magnitude mantissa' exponent' = magnitude mantissa exponent + 2 ^ exponent by linarith,
          abs_sub_comm]
        congr 1
        ring

end Rounding

section Search

theorem zpow_eq_div {base : ℚ} (nonzero : base ≠ 0) (power : Int) :
    base ^ power = base ^ power.toNat / base ^ (-power).toNat := by
  rw [← zpow_natCast, ← zpow_natCast, ← zpow_sub₀ nonzero]
  congr 1
  omega

theorem unitRatio_eq (two ten : Int) :
    ((unitRatio two ten).1 : ℚ) / (unitRatio two ten).2 = 2 ^ two * 10 ^ ten := by
  rw [zpow_eq_div two_ne_zero two, zpow_eq_div (by norm_num) ten, div_mul_div_comm]
  simp only [unitRatio, Nat.pow_eq]
  push_cast
  rfl

theorem Interval.holds_iff (range : Interval) (exponent power : Int) (count : Nat) :
    range.holds (unitRatio (exponent - 2) (-power)).1 (unitRatio (exponent - 2) (-power)).2 count = true ↔
      range.Contains (2 ^ (exponent - 2)) (count * 10 ^ power) := by
  have ratio := unitRatio_eq (exponent - 2) (-power)
  obtain ⟨-, positive⟩ := unitRatio_pos (exponent - 2) (-power)
  generalize unitRatio (exponent - 2) (-power) = units at ratio positive ⊢
  obtain ⟨num, den⟩ := units
  have positive : (0 : ℚ) < den := by exact_mod_cast positive
  have scale : (0 : ℚ) < 10 ^ power := by positivity
  have scaled (number : Nat) : (number : ℚ) * 2 ^ (exponent - 2) = number * num / den * 10 ^ power := by
    rw [mul_div_assoc, ratio, zpow_neg, mul_assoc, mul_assoc, inv_mul_cancel₀ scale.ne', mul_one]
  have below (number : Nat) :
      (number : ℚ) * 2 ^ (exponent - 2) ≤ count * 10 ^ power ↔ number * num ≤ count * den := by
    rw [scaled, mul_le_mul_iff_left₀ scale, div_le_iff₀ positive]
    norm_cast
  have above (number : Nat) :
      (count : ℚ) * 10 ^ power ≤ number * 2 ^ (exponent - 2) ↔ count * den ≤ number * num := by
    rw [scaled, mul_le_mul_iff_left₀ scale, le_div_iff₀ positive]
    norm_cast
  have under := lt_iff_lt_of_le_iff_le (above range.low)
  have beyond := lt_iff_lt_of_le_iff_le (below range.high)
  unfold Interval.holds
  cases closed : range.closed with
  | true =>
    simp only [↓reduceIte, Bool.and_eq_true, decide_eq_true_eq]
    rw [← below, ← above]
    exact ⟨fun inside => ⟨inside.1, inside.2, by simp [closed]⟩, fun inside => ⟨inside.low, inside.high⟩⟩
  | false =>
    simp only [Bool.false_eq_true, ↓reduceIte, Bool.and_eq_true, decide_eq_true_eq]
    rw [← under, ← beyond]
    refine ⟨fun inside => ⟨inside.1.le, inside.2.le, fun _ => ⟨inside.1.ne, inside.2.ne⟩⟩, fun inside => ?_⟩
    obtain ⟨noLow, noHigh⟩ := inside.inner closed
    exact ⟨lt_of_le_of_ne inside.low noLow, lt_of_le_of_ne inside.high noHigh⟩

theorem ten_zpow_pointOf_le {num den : Nat} (above : 0 < num) (positive : 0 < den) :
    (10 : ℚ) ^ (pointOf num den - 1) ≤ (num : ℚ) / den := by
  have above' : (0 : ℚ) < num := by exact_mod_cast above
  have positive' : (0 : ℚ) < den := by exact_mod_cast positive
  unfold pointOf
  split
  next large =>
    have whole : 10 ^ (digitCount (num / den) - 1) ≤ num / den := by
      rcases Nat.eq_zero_or_pos (digitCount (num / den) - 1) with one | more
      · rw [one, Nat.pow_zero]
        exact Nat.div_pos large positive
      · have count : ¬ digitCount (num / den) ≤ digitCount (num / den) - 1 := by omega
        exact Nat.le_of_not_lt fun less => count ((Nat.length_toDigits_le_iff (by decide) more).mpr less)
    have first : ((digitCount (num / den) : Int) - 1) = (digitCount (num / den) - 1 : Nat) := by
      have := Nat.length_toDigits_pos (b := 10) (n := num / den)
      unfold digitCount
      omega
    rw [first, zpow_natCast]
    calc (10 : ℚ) ^ (digitCount (num / den) - 1) ≤ ((num / den : Nat) : ℚ) := by exact_mod_cast whole
      _ ≤ (num : ℚ) / den := by
        rw [le_div_iff₀ positive']
        exact_mod_cast Nat.div_mul_le_self num den
  next =>
    have count : den / num < 10 ^ digitCount (den / num) :=
      (Nat.length_toDigits_le_iff (by decide) Nat.length_toDigits_pos).mp (Nat.le_refl _)
    have fewer : den ≤ 10 ^ digitCount (den / num) * num := by
      have := (Nat.div_lt_iff_lt_mul above).mp count
      exact this.le
    have fewer : (den : ℚ) ≤ 10 ^ digitCount (den / num) * num := by exact_mod_cast fewer
    rw [show (1 - (digitCount (den / num) : Int)) - 1 = -(digitCount (den / num) : Int) by omega, zpow_neg,
      zpow_natCast, inv_le_comm₀ (by positivity) (by positivity), inv_div, div_le_iff₀ above']
    exact fewer

variable {mantissa : Nat} {exponent : Int}

theorem middle_intervalOf (mantissa : Nat) (exponent : Int) :
    ((intervalOf mantissa exponent).middle : ℚ) * 2 ^ (exponent - 2) = magnitude mantissa exponent := by
  rw [magnitude, two_zpow_quarter exponent]
  simp only [intervalOf]
  push_cast
  ring

theorem contains_of_lt (nonzero : mantissa ≠ 0) {decimal : ℚ}
    (low : magnitude mantissa exponent - gapBelow mantissa exponent / 2 < decimal)
    (high : decimal < magnitude mantissa exponent + 2 ^ exponent / 2) :
    (intervalOf mantissa exponent).Contains (2 ^ (exponent - 2)) decimal := by
  rw [← low_intervalOf nonzero] at low
  rw [← high_intervalOf] at high
  exact ⟨low.le, high.le, fun _ => ⟨low.ne, high.ne⟩⟩

/-- Seventeen digits are enough: their last place is less than a unit of the number, and less than half a
unit above a power of two. -/
theorem contains_seventeen (canonical : IsCanonical mantissa exponent) (nonzero : mantissa ≠ 0)
    {scale : ℚ} {below : Nat} (fine : scale * 10 ^ 16 ≤ magnitude mantissa exponent)
    (under : below * scale ≤ magnitude mantissa exponent)
    (beyond : magnitude mantissa exponent < (below + 1) * scale) :
    (intervalOf mantissa exponent).Contains (2 ^ (exponent - 2)) (below * scale) ∨
      (intervalOf mantissa exponent).Contains (2 ^ (exponent - 2)) (((below + 1 : Nat) : ℚ) * scale) := by
  have unit : (0 : ℚ) < 2 ^ exponent := by positivity
  have gap := gapBelow_pos mantissa exponent
  have small : magnitude mantissa exponent ≤ 2 ^ 53 * 2 ^ exponent := by
    unfold magnitude
    gcongr
    exact_mod_cast canonical.small.le
  rw [Nat.cast_succ]
  by_cases power : mantissa = 2 ^ 52 ∧ leastExponent < exponent
  · right
    have whole : magnitude mantissa exponent = 2 ^ 52 * 2 ^ exponent := by
      rw [magnitude, power.1, Nat.cast_pow, Nat.cast_ofNat]
    apply contains_of_lt nonzero <;> linarith
  · have even : gapBelow mantissa exponent = 2 ^ exponent := if_neg power
    by_cases near : magnitude mantissa exponent - below * scale < 2 ^ exponent / 2
    · left
      apply contains_of_lt nonzero <;> linarith
    · right
      apply contains_of_lt nonzero <;> linarith

theorem around_magnitude (mantissa : Nat) (exponent power : Int) :
    let units := unitRatio (exponent - 2) (-power)
    let below := (intervalOf mantissa exponent).middle * units.1 / units.2
    below * 10 ^ power ≤ magnitude mantissa exponent ∧
      magnitude mantissa exponent < (below + 1) * 10 ^ power := by
  have ratio := unitRatio_eq (exponent - 2) (-power)
  have positive := (unitRatio_pos (exponent - 2) (-power)).2
  generalize unitRatio (exponent - 2) (-power) = units at ratio positive ⊢
  obtain ⟨num, den⟩ := units
  intro units below
  have positive' : (0 : ℚ) < den := by exact_mod_cast positive
  have scale : (0 : ℚ) < 10 ^ power := by positivity
  have value : magnitude mantissa exponent =
      ((intervalOf mantissa exponent).middle * num : Nat) / den * 10 ^ power := by
    rw [Nat.cast_mul, mul_div_assoc, ratio, zpow_neg, mul_assoc, mul_assoc, inv_mul_cancel₀ scale.ne',
      mul_one, middle_intervalOf]
  rw [value, mul_le_mul_iff_left₀ scale, mul_lt_mul_iff_left₀ scale, le_div_iff₀ positive',
    div_lt_iff₀ positive']
  constructor
  · exact_mod_cast Nat.div_mul_le_self _ den
  · exact_mod_cast Nat.lt_mul_of_div_lt (Nat.lt_succ_self _) positive

/-- The shortest decimal of a number lies in its interval. -/
theorem contains_shortest (canonical : IsCanonical mantissa exponent) (nonzero : mantissa ≠ 0) :
    (intervalOf mantissa exponent).Contains (2 ^ (exponent - 2))
      ((shortest mantissa exponent).1 * 10 ^ (shortest mantissa exponent).2) := by
  have middle : 0 < (intervalOf mantissa exponent).middle := by
    simp only [intervalOf]
    omega
  obtain ⟨above, positive⟩ := unitRatio_pos (exponent - 2) 0
  have reaches := ten_zpow_pointOf_le (Nat.mul_pos middle above) positive
  have ratio := unitRatio_eq (exponent - 2) 0
  rw [Nat.cast_mul, mul_div_assoc, ratio, zpow_zero, mul_one, middle_intervalOf] at reaches
  simp only [shortest]
  generalize pointOf _ _ = point at reaches ⊢
  have fine : (10 : ℚ) ^ (point - (17 : Nat)) * 10 ^ 16 ≤ magnitude mantissa exponent := by
    rw [← zpow_natCast, ← zpow_add₀ (by norm_num)]
    refine le_of_eq_of_le ?_ reaches
    congr 1
    push_cast
    omega
  have enough : (decimalWithin (intervalOf mantissa exponent) exponent point 17).isSome = true := by
    obtain ⟨under, beyond⟩ := around_magnitude mantissa exponent (point - (17 : Nat))
    apply isSome_decimalWithin
    dsimp only
    rw [Interval.holds_iff, Interval.holds_iff]
    exact contains_seventeen canonical nonzero fine under beyond
  generalize search : List.findSome? _ _ = result
  cases result with
  | none =>
    have missing := List.findSome?_eq_none_iff.mp search 16 (by decide)
    rw [missing] at enough
    cases enough
  | some decimal =>
    obtain ⟨places, -, found⟩ := List.exists_of_findSome?_eq_some search
    exact (Interval.holds_iff _ _ _ _).mp (holds_of_decimalWithin found).2

end Search

end Offside.Binary64
