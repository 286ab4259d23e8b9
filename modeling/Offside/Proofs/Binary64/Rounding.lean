import Mathlib.Algebra.Order.Field.Power
import Mathlib.Algebra.Order.Field.Rat
import Mathlib.Tactic.FieldSimp
import Mathlib.Tactic.Linarith
import Mathlib.Tactic.NormNum
import Mathlib.Tactic.Positivity
import Mathlib.Tactic.Ring
import Offside.Binary64.Reading

/-!
Reading a decimal rounds it correctly: no number of the format is nearer to it, and where another one
is as near, the mantissa taken is even. A decimal is infinite from half a unit above the greatest
finite number on.
-/

namespace Offside.Binary64

/-- The mantissas and exponents of the finite numbers, each number in its one form. -/
structure IsCanonical (mantissa : Nat) (exponent : Int) : Prop where
  small : mantissa < 2 ^ 53
  least : leastExponent ≤ exponent
  greatest : exponent ≤ greatestExponent
  normal : 2 ^ 52 ≤ mantissa ∨ exponent = leastExponent

def magnitude (mantissa : Nat) (exponent : Int) : ℚ := mantissa * 2 ^ exponent

def overflowBound : ℚ := 2 ^ 1024 - 2 ^ 970

/-- The value of a decimal that is not negative, rounded to the nearest number, ties to even. Numbers
below zero are farther from such a decimal than zero is, so they are no candidates. -/
def IsRounded (decimal : ℚ) : Binary64 → Prop
  | finite negative mantissa exponent =>
    negative = false ∧ IsCanonical mantissa exponent ∧ decimal < overflowBound ∧
      ∀ mantissa' exponent', IsCanonical mantissa' exponent' →
        |magnitude mantissa exponent - decimal| ≤ |magnitude mantissa' exponent' - decimal| ∧
        (|magnitude mantissa exponent - decimal| = |magnitude mantissa' exponent' - decimal| →
          magnitude mantissa' exponent' = magnitude mantissa exponent ∨ mantissa % 2 = 0)
  | infinite negative => negative = false ∧ overflowBound ≤ decimal
  | nan => False

def IsNearest (number : ℚ) (nearest : Nat) : Prop :=
  ∀ other : Nat, |(nearest : ℚ) - number| ≤ |(other : ℚ) - number| ∧
    (|(nearest : ℚ) - number| = |(other : ℚ) - number| → other = nearest ∨ nearest % 2 = 0)

theorem isNearest_of_floor {number : ℚ} {nearest : Nat} (floor : Nat) (above : (floor : ℚ) ≤ number)
    (choice : nearest = floor ∧ number - floor < 1 / 2 ∨
      nearest = floor + 1 ∧ 1 / 2 < number - floor ∧ number < floor + 1 ∨
      (nearest = floor ∨ nearest = floor + 1) ∧ nearest % 2 = 0 ∧ number - floor = 1 / 2) :
    IsNearest number nearest := by
  intro other
  have low : |(floor : ℚ) - number| = number - floor := by
    rw [abs_sub_comm]
    exact abs_of_nonneg (by linarith)
  have high (close : number < floor + 1) : |((floor + 1 : Nat) : ℚ) - number| = floor + 1 - number := by
    rw [abs_of_nonneg] <;> push_cast <;> linarith
  have far : (other : ℚ) ≤ floor ∧ |(other : ℚ) - number| = number - other ∨
      (floor : ℚ) + 1 ≤ other ∧ (number < floor + 1 → |(other : ℚ) - number| = other - number) := by
    rcases Nat.lt_or_ge floor other with more | less
    · have more : (floor : ℚ) + 1 ≤ other := by exact_mod_cast more
      exact .inr ⟨more, fun close => abs_of_nonneg (by linarith)⟩
    · have less : (other : ℚ) ≤ floor := by exact_mod_cast less
      refine .inl ⟨less, ?_⟩
      rw [abs_sub_comm]
      exact abs_of_nonneg (by linarith)
  rcases choice with ⟨rfl, near⟩ | ⟨rfl, near, close⟩ | ⟨side, even, half⟩
  · rw [low]
    rcases far with ⟨less, away⟩ | ⟨more, away⟩
    · rw [away]
      refine ⟨by linarith, fun same => .inl ?_⟩
      have equal : (other : ℚ) = nearest := by linarith
      exact_mod_cast equal
    · rw [away (by linarith)]
      exact ⟨by linarith, fun same => absurd same (by linarith)⟩
  · rw [high close]
    rcases far with ⟨less, away⟩ | ⟨more, away⟩
    · rw [away]
      exact ⟨by linarith, fun same => absurd same (by linarith)⟩
    · rw [away close]
      refine ⟨by linarith, fun same => .inl ?_⟩
      have equal : (other : ℚ) = floor + 1 := by linarith
      exact_mod_cast equal
  · have distance : |(nearest : ℚ) - number| = 1 / 2 := by
      rcases side with rfl | rfl
      · rw [low, half]
      · rw [high (by linarith)]
        linarith
    rw [distance]
    refine ⟨?_, fun _ => .inr even⟩
    rcases far with ⟨less, away⟩ | ⟨more, away⟩
    · rw [away]
      linarith
    · rw [away (by linarith)]
      linarith

theorem IsNearest.le_of_le {number : ℚ} {nearest floor : Nat} (closest : IsNearest number nearest)
    (above : (floor : ℚ) ≤ number) : floor ≤ nearest := by
  by_contra less
  have less : (nearest : ℚ) + 1 ≤ floor := by exact_mod_cast Nat.lt_of_not_le less
  have near := (closest floor).1
  rw [abs_sub_comm, abs_of_nonneg (by linarith), abs_sub_comm, abs_of_nonneg (by linarith)] at near
  linarith

theorem IsNearest.le_of_ge {number : ℚ} {nearest ceiling : Nat} (closest : IsNearest number nearest)
    (below : number ≤ ceiling) : nearest ≤ ceiling := by
  by_contra more
  have more : (ceiling : ℚ) + 1 ≤ nearest := by exact_mod_cast Nat.lt_of_not_le more
  have near := (closest ceiling).1
  rw [abs_of_nonneg (by linarith), abs_of_nonneg (by linarith)] at near
  linarith

theorem isNearest_nearest (num : Nat) {den : Nat} (positive : 0 < den) :
    IsNearest ((num : ℚ) / den) (nearest num den) := by
  have divided : (den : ℚ) * (num / den : Nat) + (num % den : Nat) = num := by
    exact_mod_cast Nat.div_add_mod num den
  have positive' : (0 : ℚ) < den := by exact_mod_cast positive
  have small : ((num % den : Nat) : ℚ) < den := by exact_mod_cast Nat.mod_lt num positive
  have remainder : (num : ℚ) / den - (num / den : Nat) = (num % den : Nat) / den := by
    rw [eq_div_iff positive'.ne', sub_mul, div_mul_cancel₀ _ positive'.ne']
    linarith
  have nonneg : (0 : ℚ) ≤ (num % den : Nat) / den := by positivity
  apply isNearest_of_floor (num / den)
  · linarith
  unfold nearest
  by_cases less : 2 * (num % den) < den
  · refine .inl ⟨if_pos less, ?_⟩
    have less : (2 : ℚ) * (num % den : Nat) < den := by exact_mod_cast less
    rw [remainder, div_lt_iff₀ positive']
    linarith
  by_cases more : den < 2 * (num % den)
  · refine .inr (.inl ⟨by simp [less, more], ?_, ?_⟩)
    · have more : (den : ℚ) < 2 * (num % den : Nat) := by exact_mod_cast more
      rw [remainder, lt_div_iff₀ positive']
      linarith
    · have below : ((num % den : Nat) : ℚ) / den < 1 := by rwa [div_lt_one positive']
      linarith
  · refine .inr (.inr ?_)
    have half : 2 * ((num % den : Nat) : ℚ) = den := by
      exact_mod_cast Nat.le_antisymm (Nat.le_of_not_lt more) (Nat.le_of_not_lt less)
    simp only [less, more, ↓reduceIte]
    refine ⟨?_, ?_, ?_⟩
    · omega
    · omega
    · rw [remainder, div_eq_iff positive'.ne']
      linarith

theorem inUnits_pos (num : Nat) {den : Nat} (positive : 0 < den) (exponent : Int) :
    0 < (inUnits num den exponent).2 := by
  unfold inUnits
  split
  · exact Nat.mul_pos positive (Nat.pow_pos (by decide))
  · exact positive

theorem inUnits_ratio (num den : Nat) (exponent : Int) :
    ((inUnits num den exponent).1 : ℚ) / (inUnits num den exponent).2 =
      (num : ℚ) / den / 2 ^ exponent := by
  unfold inUnits
  split
  next nonneg =>
    obtain ⟨count, rfl⟩ := Int.eq_ofNat_of_zero_le nonneg
    simp only [Nat.pow_eq, Int.toNat_natCast, Nat.cast_mul, Nat.cast_pow, Nat.cast_ofNat, zpow_natCast]
    rw [div_div]
  next below =>
    obtain ⟨count, negated⟩ := Int.eq_ofNat_of_zero_le (show 0 ≤ -exponent by omega)
    rw [negated]
    have exponent_eq : exponent = -(count : Int) := by omega
    rw [exponent_eq]
    simp only [Nat.pow_eq, Int.toNat_natCast, Nat.cast_mul, Nat.cast_pow, Nat.cast_ofNat, zpow_neg,
      zpow_natCast, div_inv_eq_mul]
    ring

theorem between_log2 {number : Nat} (nonzero : number ≠ 0) :
    (2 : ℚ) ^ (number.log2 : Int) ≤ number ∧ (number : ℚ) < 2 ^ ((number.log2 : Int) + 1) := by
  constructor
  · rw [zpow_natCast]
    exact_mod_cast Nat.log2_self_le nonzero
  · have above := Nat.lt_log2_self (n := number)
    exact_mod_cast above

theorem guess_bounds {num den : Nat} (nonzero : num ≠ 0) (positive : 0 < den) :
    (2 : ℚ) ^ ((num.log2 : Int) - den.log2 - 1) < (num : ℚ) / den ∧
      (num : ℚ) / den < 2 ^ ((num.log2 : Int) - den.log2 + 1) := by
  have two : (2 : ℚ) ≠ 0 := two_ne_zero
  obtain ⟨numLow, numHigh⟩ := between_log2 nonzero
  obtain ⟨denLow, denHigh⟩ := between_log2 positive.ne'
  have positive' : (0 : ℚ) < den := by exact_mod_cast positive
  constructor
  · rw [lt_div_iff₀ positive']
    calc (2 : ℚ) ^ ((num.log2 : Int) - den.log2 - 1) * den
        < 2 ^ ((num.log2 : Int) - den.log2 - 1) * 2 ^ ((den.log2 : Int) + 1) := by gcongr
      _ = 2 ^ (num.log2 : Int) := by
        rw [← zpow_add₀ two]
        congr 1
        omega
      _ ≤ num := numLow
  · rw [div_lt_iff₀ positive']
    calc (num : ℚ) < 2 ^ ((num.log2 : Int) + 1) := numHigh
      _ = 2 ^ ((num.log2 : Int) - den.log2 + 1) * 2 ^ (den.log2 : Int) := by
        rw [← zpow_add₀ two]
        congr 1
        omega
      _ ≤ 2 ^ ((num.log2 : Int) - den.log2 + 1) * den := by gcongr

/-- The exponent leaves 53 bits before the point, unless it is the least. -/
structure IsUnit (number : ℚ) (exponent : Int) : Prop where
  least : leastExponent ≤ exponent
  small : number / 2 ^ exponent < 2 ^ 53
  normal : 2 ^ 52 ≤ number / 2 ^ exponent ∨ exponent = leastExponent

theorem exists_free_exponent {num den : Nat} (nonzero : num ≠ 0) (positive : 0 < den) :
    ∃ exponent, exponentOf num den = max leastExponent exponent ∧
      2 ^ 52 * (2 : ℚ) ^ exponent ≤ (num : ℚ) / den ∧
      (num : ℚ) / den < 2 ^ 53 * (2 : ℚ) ^ exponent := by
  obtain ⟨low, high⟩ := guess_bounds nonzero positive
  have ratio := inUnits_ratio num den ((num.log2 : Int) - den.log2 - 52)
  have bottom : (0 : ℚ) < (inUnits num den ((num.log2 : Int) - den.log2 - 52)).2 := by
    exact_mod_cast inUnits_pos num positive _
  refine ⟨_, rfl, ?_⟩
  generalize (num.log2 : Int) - den.log2 = logs at *
  have scale (count : Nat) (exponent : Int) :
      (2 : ℚ) ^ count * 2 ^ exponent = 2 ^ (count + exponent) := by
    rw [zpow_add₀ two_ne_zero, zpow_natCast]
  have unit : (0 : ℚ) < 2 ^ (logs - 52) := by positivity
  split
  next less =>
    have less : ((inUnits num den (logs - 52)).1 : ℚ) < 2 ^ 52 * (inUnits num den (logs - 52)).2 := by
      exact_mod_cast less
    rw [← div_lt_iff₀ bottom, ratio, div_lt_iff₀ unit, scale] at less
    rw [scale, scale]
    refine ⟨le_trans (le_of_eq ?_) low.le, lt_of_lt_of_eq less ?_⟩
    · congr 1
      push_cast
      ring
    · congr 1
      push_cast
      ring
  next more =>
    have more : 2 ^ 52 * ((inUnits num den (logs - 52)).2 : ℚ) ≤ (inUnits num den (logs - 52)).1 := by
      exact_mod_cast Nat.le_of_not_lt more
    rw [← le_div_iff₀ bottom, ratio, le_div_iff₀ unit, scale] at more
    rw [scale, scale]
    refine ⟨more, lt_of_lt_of_eq high ?_⟩
    congr 1
    push_cast
    ring

theorem isUnit_exponentOf {num den : Nat} (nonzero : num ≠ 0) (positive : 0 < den) :
    IsUnit ((num : ℚ) / den) (exponentOf num den) := by
  obtain ⟨exponent, same, atLeast, below⟩ := exists_free_exponent nonzero positive
  have grown : (2 : ℚ) ^ exponent ≤ 2 ^ exponentOf num den := by
    rw [same]
    exact zpow_le_zpow_right₀ (by norm_num) (Int.le_max_right _ _)
  refine ⟨by omega, ?_, ?_⟩
  · rw [div_lt_iff₀ (by positivity)]
    exact below.trans_le (by gcongr)
  · rcases Int.le_total leastExponent exponent with above | under
    · left
      rw [show exponentOf num den = exponent by omega, le_div_iff₀ (by positivity)]
      exact atLeast
    · right
      omega

/-- The nearest multiple of the unit is as near as any number of the format. -/
theorem nearest_among_canonical {number : ℚ} {exponent : Int} {nearest : Nat}
    (unit : IsUnit number exponent) (closest : IsNearest (number / 2 ^ exponent) nearest)
    {mantissa : Nat} {other : Int} (canonical : IsCanonical mantissa other) :
    |magnitude nearest exponent - number| ≤ |magnitude mantissa other - number| ∧
      (|magnitude nearest exponent - number| = |magnitude mantissa other - number| →
        magnitude mantissa other = magnitude nearest exponent ∨ nearest % 2 = 0) := by
  have positive : (0 : ℚ) < 2 ^ exponent := by positivity
  have scaled (count : Nat) :
      |magnitude count exponent - number| = |(count : ℚ) - number / 2 ^ exponent| * 2 ^ exponent := by
    rw [← abs_of_pos positive, ← abs_mul, abs_of_pos positive, sub_mul,
      div_mul_cancel₀ _ positive.ne', magnitude]
  rcases lt_or_ge other exponent with fine | coarse
  · -- A finer number lies below the least mantissa of 53 bits, which is nearer.
    have finer : magnitude mantissa other < 2 ^ 52 * 2 ^ exponent := by
      calc magnitude mantissa other < 2 ^ 53 * 2 ^ other := by
            unfold magnitude
            gcongr
            exact_mod_cast canonical.small
        _ = 2 ^ 52 * 2 ^ (other + 1) := by
            rw [zpow_add₀ two_ne_zero, zpow_one]
            ring
        _ ≤ 2 ^ 52 * 2 ^ exponent := by
            gcongr
            · norm_num
            · omega
    have normal : 2 ^ 52 ≤ number / 2 ^ exponent := by
      rcases unit.normal with normal | least
      · exact normal
      · have := canonical.least
        omega
    have reaches : 2 ^ 52 * 2 ^ exponent ≤ number := (le_div_iff₀ positive).mp normal
    have strict : |magnitude nearest exponent - number| < |magnitude mantissa other - number| := by
      calc |magnitude nearest exponent - number| ≤ |magnitude (2 ^ 52) exponent - number| := by
            rw [scaled, scaled]
            exact mul_le_mul_of_nonneg_right (closest _).1 positive.le
        _ = number - 2 ^ 52 * 2 ^ exponent := by
            rw [abs_sub_comm, magnitude, Nat.cast_pow, Nat.cast_ofNat]
            exact abs_of_nonneg (by linarith)
        _ < number - magnitude mantissa other := by linarith
        _ = |magnitude mantissa other - number| := by
            rw [abs_sub_comm, abs_of_nonneg (by linarith)]
    exact ⟨strict.le, fun same => absurd same strict.ne⟩
  · -- A coarser number is a multiple of the unit too.
    have multiple : magnitude mantissa other =
        magnitude (mantissa * 2 ^ (other - exponent).toNat) exponent := by
      unfold magnitude
      push_cast
      rw [mul_assoc, ← zpow_natCast, ← zpow_add₀ two_ne_zero]
      congr 2
      omega
    rw [multiple, scaled, scaled]
    obtain ⟨near, tie⟩ := closest (mantissa * 2 ^ (other - exponent).toNat)
    refine ⟨mul_le_mul_of_nonneg_right near positive.le, fun same => ?_⟩
    rcases tie (mul_right_cancel₀ positive.ne' same) with equal | even
    · exact .inl (by rw [equal])
    · exact .inr even

theorem eq_power_iff {number : ℚ} {nearest : Nat} (closest : IsNearest number nearest)
    (small : number < 2 ^ 53) : nearest ≤ 2 ^ 53 ∧ (nearest = 2 ^ 53 ↔ 2 ^ 53 - 1 / 2 ≤ number) := by
  have top := closest (2 ^ 53)
  have below := (closest (2 ^ 53 - 1)).1
  have last : ((2 ^ 53 - 1 : Nat) : ℚ) = 2 ^ 53 - 1 := by norm_num
  have topDistance : |((2 ^ 53 : Nat) : ℚ) - number| = 2 ^ 53 - number := by
    rw [Nat.cast_pow, Nat.cast_ofNat]
    exact abs_of_nonneg (by linarith)
  rw [topDistance] at top
  rw [last] at below
  have bounded : nearest ≤ 2 ^ 53 := closest.le_of_ge (by exact_mod_cast small.le)
  refine ⟨bounded, ?_, ?_⟩
  · rintro rfl
    rw [topDistance] at below
    by_contra less
    have less : number < 2 ^ 53 - 1 / 2 := lt_of_not_ge less
    have : |(2 : ℚ) ^ 53 - 1 - number| < 2 ^ 53 - number := by
      rw [abs_lt]
      constructor <;> linarith
    linarith
  · intro reaches
    by_contra different
    have smaller : nearest ≤ 2 ^ 53 - 1 := by omega
    have smaller' : (nearest : ℚ) ≤ 2 ^ 53 - 1 := by
      rw [← last]
      exact_mod_cast smaller
    have distance : |(nearest : ℚ) - number| = number - nearest := by
      rw [abs_sub_comm]
      exact abs_of_nonneg (by linarith)
    rw [distance] at top
    -- Both distances are one half, so the mantissa would have to be even.
    have equal : (nearest : ℚ) = 2 ^ 53 - 1 := by linarith [top.1]
    have odd : nearest = 2 ^ 53 - 1 := by
      rw [← last] at equal
      exact_mod_cast equal
    rcases top.2 (by linarith) with same | even
    · omega
    · omega

theorem overflowBound_eq : overflowBound = (2 ^ 53 - 1 / 2) * 2 ^ greatestExponent := by
  have whole : (2 : ℚ) ^ 1024 = 2 ^ 54 * 2 ^ 970 := by rw [← pow_add]
  have unit : (2 : ℚ) ^ greatestExponent = 2 * 2 ^ 970 := by
    rw [show greatestExponent = (971 : Nat) from rfl, zpow_natCast, ← pow_succ']
  rw [overflowBound, whole, unit]
  generalize (2 : ℚ) ^ 970 = half
  ring

theorem lt_overflowBound_iff {number : ℚ} {exponent : Int} (unit : IsUnit number exponent) :
    (2 ^ 53 - 1 / 2 ≤ number / 2 ^ exponent →
      (number < overflowBound ↔ exponent + 1 ≤ greatestExponent)) ∧
    (number / 2 ^ exponent < 2 ^ 53 - 1 / 2 →
      (number < overflowBound ↔ exponent ≤ greatestExponent)) := by
  have positive : (0 : ℚ) < 2 ^ exponent := by positivity
  have below : number < 2 ^ 53 * 2 ^ exponent := (div_lt_iff₀ positive).mp unit.small
  rw [overflowBound_eq]
  constructor
  · intro high
    rw [le_div_iff₀ positive] at high
    constructor
    · intro less
      by_contra large
      have grown : (2 : ℚ) ^ greatestExponent ≤ 2 ^ exponent :=
        zpow_le_zpow_right₀ (by norm_num) (by omega)
      linarith
    · intro within
      have doubled : 2 * (2 : ℚ) ^ exponent ≤ 2 ^ greatestExponent := by
        rw [← zpow_one_add₀ two_ne_zero]
        exact zpow_le_zpow_right₀ (by norm_num) (by omega)
      linarith
  · intro low
    rw [div_lt_iff₀ positive] at low
    constructor
    · intro less
      by_contra large
      have doubled : 2 * (2 : ℚ) ^ greatestExponent ≤ 2 ^ exponent := by
        rw [← zpow_one_add₀ two_ne_zero]
        exact zpow_le_zpow_right₀ (by norm_num) (by omega)
      have normal : 2 ^ 52 ≤ number / 2 ^ exponent := by
        rcases unit.normal with normal | least
        · exact normal
        · have order : leastExponent < greatestExponent := by decide
          omega
      rw [le_div_iff₀ positive] at normal
      have spare : (0 : ℚ) < 2 ^ greatestExponent := by positivity
      linarith
    · intro within
      have grown : (2 : ℚ) ^ exponent ≤ 2 ^ greatestExponent :=
        zpow_le_zpow_right₀ (by norm_num) within
      linarith

/-- The nearest multiple of the unit, written in another form or not, is the rounded number. -/
theorem isRounded_of_nearest {number : ℚ} {unit exponent : Int} {nearest mantissa : Nat}
    (isUnit : IsUnit number unit) (closest : IsNearest (number / 2 ^ unit) nearest)
    (value : magnitude mantissa exponent = magnitude nearest unit)
    (parity : nearest % 2 = 0 → mantissa % 2 = 0) (small : mantissa < 2 ^ 53)
    (least : leastExponent ≤ exponent) (normal : 2 ^ 52 ≤ mantissa ∨ exponent = leastExponent)
    (range : number < overflowBound ↔ exponent ≤ greatestExponent) :
    IsRounded number
      (if greatestExponent < exponent then infinite false else finite false mantissa exponent) := by
  by_cases large : greatestExponent < exponent
  · rw [if_pos large]
    exact ⟨rfl, le_of_not_gt fun less => absurd (range.mp less) (by omega)⟩
  · rw [if_neg large]
    have within : exponent ≤ greatestExponent := by omega
    refine ⟨rfl, ⟨small, least, within, normal⟩, range.mpr within, ?_⟩
    intro mantissa' exponent' canonical
    rw [value]
    obtain ⟨near, tie⟩ := nearest_among_canonical isUnit closest canonical
    exact ⟨near, fun same => (tie same).imp_right parity⟩

theorem isRounded_ofRatio (num : Nat) {den : Nat} (positive : 0 < den) :
    IsRounded ((num : ℚ) / den) (ofRatio false num den) := by
  unfold ofRatio
  by_cases zero : num = 0
  · rw [if_pos zero]
    refine ⟨rfl, ⟨by norm_num, le_refl _, by decide, .inr rfl⟩, ?_, fun mantissa exponent _ => ?_⟩
    · rw [zero, overflowBound_eq, Nat.cast_zero, zero_div]
      exact mul_pos (by norm_num) (by positivity)
    · refine ⟨?_, fun _ => .inr rfl⟩
      rw [zero, magnitude, Nat.cast_zero, zero_mul, zero_div, sub_zero, abs_zero]
      exact abs_nonneg _
  rw [if_neg zero]
  have unit := isUnit_exponentOf zero positive
  have closest := isNearest_nearest (inUnits num den (exponentOf num den)).1
    (inUnits_pos num positive (exponentOf num den))
  rw [inUnits_ratio] at closest
  obtain ⟨bounded, carried⟩ := eq_power_iff closest unit.small
  obtain ⟨above, below⟩ := lt_overflowBound_iff unit
  dsimp only
  split
  next carry =>
    rw [Nat.pow_eq] at carry
    refine isRounded_of_nearest unit closest ?_ (fun _ => by norm_num) (by norm_num) ?_
      (.inl (le_refl _)) (above (carried.mp carry))
    · rw [carry, magnitude, magnitude, zpow_add₀ two_ne_zero]
      push_cast
      ring
    · have least := unit.least
      omega
  next kept =>
    rw [Nat.pow_eq] at kept
    have low := lt_of_not_ge (carried.not.mp kept)
    refine isRounded_of_nearest unit closest rfl id (by omega) unit.least ?_ (below low)
    rcases unit.normal with normal | least
    · exact .inl (closest.le_of_le (by exact_mod_cast normal))
    · exact .inr least

theorem isRounded_ofDecimal (digits : Nat) (power : Int) :
    IsRounded (digits * 10 ^ power) (ofDecimal false digits power) := by
  unfold ofDecimal
  split
  next whole =>
    obtain ⟨count, rfl⟩ := Int.eq_ofNat_of_zero_le whole
    simpa [Nat.pow_eq] using isRounded_ofRatio (digits * 10 ^ count) Nat.one_pos
  next below =>
    obtain ⟨count, same⟩ : ∃ count : Nat, power = -count := ⟨(-power).toNat, by omega⟩
    have rounded := isRounded_ofRatio digits (Nat.pow_pos (n := count) (show 0 < 10 by decide))
    rw [same, Int.neg_neg, Int.toNat_natCast, zpow_neg, zpow_natCast, ← div_eq_mul_inv]
    push_cast at rounded
    exact rounded

/-- Digits around a point are read as the number nearest to the decimal that they write. -/
theorem isRounded_ofDigits (whole fraction : List Char) :
    IsRounded ((Nat.ofDigitChars 10 (whole ++ fraction) 0 : ℚ) / 10 ^ fraction.length)
      (ofDigits false whole fraction 0) := by
  have rounded := isRounded_ofDecimal (Nat.ofDigitChars 10 (whole ++ fraction) 0) (-fraction.length)
  rwa [zpow_neg, zpow_natCast, ← div_eq_mul_inv, ← Int.zero_sub] at rounded

end Offside.Binary64
