import Offside.Proofs.Binary64.Interval

/-!
The text of a number is read back as that number. Where the point stands and whether an exponent is
written does not change the decimal, and the decimal lies in the interval of the number.
-/

namespace Offside.Binary64

theorem span_digits {digits : List Char} (rest : List Char) (each : ∀ c ∈ digits, c.isDigit = true)
    (stops : rest.head?.any Char.isDigit = false) :
    (digits ++ rest).takeWhile Char.isDigit = digits ∧
      (digits ++ rest).dropWhile Char.isDigit = rest := by
  rw [List.takeWhile_append_of_pos each, List.dropWhile_append_of_pos each]
  cases rest with
  | nil => exact ⟨List.append_nil digits, rfl⟩
  | cons c others =>
    have noDigit : c.isDigit = false := stops
    simp [noDigit]

theorem plain_of_digit {text : List Char} (starts : text.head?.any Char.isDigit = true) :
    readSign text = (false, text) ∧ text ≠ "inf".toList ∧ text ≠ "nan".toList := by
  have other {c : Char} {rest : List Char} (noDigit : c.isDigit = false) : text ≠ c :: rest := by
    rintro rfl
    rw [List.head?_cons, Option.any_some, noDigit] at starts
    cases starts
  refine ⟨?_, other rfl, other rfl⟩
  unfold readSign
  split
  next => exact absurd rfl (other rfl)
  next => exact absurd rfl (other rfl)
  next => rfl

theorem head_digits {digits : List Char} (each : ∀ c ∈ digits, c.isDigit = true) (some : digits ≠ [])
    (rest : List Char) : (digits ++ rest).head?.any Char.isDigit = true := by
  cases digits with
  | nil => exact absurd rfl some
  | cons c others => exact each c List.mem_cons_self

theorem ofText?_point {whole fraction rest : List Char} (some : whole ≠ [])
    (before : ∀ c ∈ whole, c.isDigit = true) (after : ∀ c ∈ fraction, c.isDigit = true)
    (stops : rest.head?.any Char.isDigit = false) :
    ofText? (String.ofList (whole ++ '.' :: (fraction ++ rest))) =
      (readPower rest).map (ofDigits false whole fraction) := by
  obtain ⟨first, second⟩ := span_digits ('.' :: (fraction ++ rest)) before rfl
  obtain ⟨third, fourth⟩ := span_digits rest after stops
  obtain ⟨sign, noInf, noNan⟩ := plain_of_digit (head_digits before some ('.' :: (fraction ++ rest)))
  simp only [ofText?, String.toList_ofList, sign, if_neg noInf, if_neg noNan, first, second, third, fourth]
  rw [if_neg (List.append_ne_nil_of_left_ne_nil some fraction)]

theorem ofText?_whole {whole rest : List Char} (some : whole ≠ [])
    (before : ∀ c ∈ whole, c.isDigit = true) (stops : rest.head?.any Char.isDigit = false)
    (noPoint : rest.head? ≠ Option.some '.') :
    ofText? (String.ofList (whole ++ rest)) = (readPower rest).map (ofDigits false whole []) := by
  obtain ⟨first, second⟩ := span_digits rest before stops
  obtain ⟨sign, noInf, noNan⟩ := plain_of_digit (head_digits before some rest)
  simp only [ofText?, String.toList_ofList, sign, if_neg noInf, if_neg noNan, first, second]
  split
  next after => exact absurd rfl noPoint
  next => rw [if_neg (List.append_ne_nil_of_left_ne_nil some [])]

theorem readPower_exponentText (exponent : Int) : readPower ('e' :: exponentText exponent) = some exponent := by
  have digits : ∀ c ∈ Nat.toDigits 10 exponent.natAbs, c.isDigit = true := fun c => isDigit_toDigits
  have value : digitsValue (Nat.toDigits 10 exponent.natAbs) = exponent.natAbs :=
    Nat.ofDigitChars_ten_toDigits
  -- A zero in front changes neither the digits nor their value.
  have written : ∃ text, (if (Nat.toDigits 10 exponent.natAbs).length < 2
        then '0' :: Nat.toDigits 10 exponent.natAbs else Nat.toDigits 10 exponent.natAbs) = text ∧
      text ≠ [] ∧ text.all Char.isDigit = true ∧ digitsValue text = exponent.natAbs := by
    refine ⟨_, rfl, ?_⟩
    split
    · exact ⟨List.cons_ne_nil _ _, by simpa using digits, value⟩
    · exact ⟨Nat.toDigits_ne_nil, by simpa using digits, value⟩
  obtain ⟨text, same, some, all, value⟩ := written
  simp only [readPower, exponentText, same]
  by_cases below : exponent < 0
  · simp only [below, ↓reduceIte, readSign, true_or, true_and, some, all, value, ne_eq, not_false_eq_true]
    congr 1
    omega
  · simp only [below, ↓reduceIte, readSign, true_or, true_and, some, all, value, ne_eq, not_false_eq_true,
      Bool.false_eq_true]
    congr 1
    omega

/-- A text that is read as the number nearest to a decimal. -/
def ReadsAs (decimal : ℚ) (text : List Char) : Prop :=
  ∃ value, ofText? (String.ofList text) = some value ∧ IsRounded decimal value

theorem readsAs_point {text : List Char} {decimal : ℚ} (whole fraction rest : List Char) {power : Int}
    (split : text = whole ++ '.' :: (fraction ++ rest)) (some : whole ≠ [])
    (before : ∀ c ∈ whole, c.isDigit = true) (after : ∀ c ∈ fraction, c.isDigit = true)
    (stops : rest.head?.any Char.isDigit = false) (scaled : readPower rest = Option.some power)
    (value : (Nat.ofDigitChars 10 (whole ++ fraction) 0 : ℚ) * 10 ^ (power - fraction.length) = decimal) :
    ReadsAs decimal text := by
  refine ⟨_, ?_, value ▸ isRounded_ofDecimal _ _⟩
  rw [split, ofText?_point some before after stops, scaled]
  rfl

variable {digits : List Char}

theorem isDigit_of_mem_zeros (count : Nat) : ∀ c ∈ List.replicate count '0', c.isDigit = true := by
  intro c found
  rw [List.eq_of_mem_replicate found]
  rfl

/-- Zeros in front of the digits or behind them move the point. -/
theorem readsAs_positional (each : ∀ c ∈ digits, c.isDigit = true) (some : digits ≠ []) (point : Int) :
    ReadsAs (Nat.ofDigitChars 10 digits 0 * 10 ^ (point - digits.length)) (positional digits point) := by
  have zeros := isDigit_of_mem_zeros
  unfold positional
  split
  next below =>
    refine readsAs_point ['0'] (List.replicate (-point).toNat '0' ++ digits) [] (by simp)
      (List.cons_ne_nil _ _) (zeros 1) (List.forall_mem_append.mpr ⟨zeros _, each⟩) rfl rfl ?_
    rw [Nat.ofDigitChars_append, Nat.ofDigitChars_append, Nat.ofDigitChars_replicate_zero,
      List.length_append, List.length_replicate]
    congr 2
    push_cast
    omega
  next above =>
    split
    next short =>
      refine readsAs_point (digits ++ List.replicate (point.toNat - digits.length) '0') ['0'] [] (by simp)
        (List.append_ne_nil_of_left_ne_nil some _) (List.forall_mem_append.mpr ⟨each, zeros _⟩)
        (zeros 1) rfl rfl ?_
      have behind : point - digits.length = ((point.toNat - digits.length : Nat) : Int) := by omega
      rw [Nat.ofDigitChars_append, Nat.ofDigitChars_append, Nat.ofDigitChars_replicate_zero, behind,
        zpow_natCast]
      generalize Nat.ofDigitChars 10 digits 0 = number
      have last : Nat.ofDigitChars 10 ['0'] (10 ^ (point.toNat - digits.length) * number) =
          10 * (10 ^ (point.toNat - digits.length) * number) := rfl
      rw [last]
      rw [Nat.cast_mul, Nat.cast_mul, Nat.cast_pow, Nat.cast_ofNat, List.length_singleton, zero_sub,
        Nat.cast_one, zpow_neg_one]
      ring
    next long =>
      refine readsAs_point (digits.take point.toNat) (digits.drop point.toNat) [] (by simp) ?_
        (fun c found => each c (List.mem_of_mem_take found))
        (fun c found => each c (List.mem_of_mem_drop found)) rfl rfl ?_
      · rw [Ne, List.take_eq_nil_iff, not_or]
        exact ⟨by omega, some⟩
      · rw [List.take_append_drop, List.length_drop]
        congr 2
        omega

theorem readsAs_scientific (each : ∀ c ∈ digits, c.isDigit = true) (some : digits ≠ []) (point : Int) :
    ReadsAs (Nat.ofDigitChars 10 digits 0 * 10 ^ (point - digits.length)) (scientific digits point) := by
  have scaled := readPower_exponentText (point - 1)
  have first : ∀ c ∈ digits.take 1, c.isDigit = true := fun c found => each c (List.mem_of_mem_take found)
  have starts : digits.take 1 ≠ [] := by
    rw [Ne, List.take_eq_nil_iff, not_or]
    exact ⟨Nat.one_ne_zero, some⟩
  unfold scientific
  split
  next short =>
    have one : digits.length = 1 := by
      have := List.length_pos_iff.mpr some
      omega
    have all : digits.take 1 = digits := List.take_of_length_le short
    rw [all, List.append_nil, one]
    refine ⟨_, ?_, isRounded_ofDecimal _ _⟩
    rw [ofText?_whole some each rfl (by simp), scaled, Option.map_some, ofDigits, List.append_nil,
      List.length_nil, Nat.cast_zero, Int.sub_zero]
    rfl
  next long =>
    refine readsAs_point (digits.take 1) (digits.drop 1) ('e' :: exponentText (point - 1)) (by simp) starts
      first (fun c found => each c (List.mem_of_mem_drop found)) rfl scaled ?_
    rw [List.take_append_drop, List.length_drop]
    congr 2
    omega

theorem significant_value (digits : Nat) (power : Int) :
    (Nat.ofDigitChars 10 (significant digits power).1 0 : ℚ) *
        10 ^ ((significant digits power).2 - (significant digits power).1.length) = digits * 10 ^ power := by
  obtain ⟨count, value, place⟩ := ofDigitChars_significant digits power
  have whole : (digits : ℚ) = 10 ^ count * Nat.ofDigitChars 10 (significant digits power).1 0 := by
    exact_mod_cast value
  rw [whole, place, ← zpow_natCast, mul_right_comm, ← zpow_add₀ (by norm_num), mul_comm]
  congr 2
  omega

theorem ofText?_magnitudeText {mantissa : Nat} {exponent : Int} (canonical : IsCanonical mantissa exponent) :
    ofText? (String.ofList (magnitudeText mantissa exponent)) = some (finite false mantissa exponent) := by
  unfold magnitudeText
  split
  next zero =>
    have least : exponent = leastExponent := by
      rcases canonical.normal with normal | least
      · omega
      · exact least
    rw [zero, least]
    decide +kernel
  next nonzero =>
    have inside := contains_shortest canonical nonzero
    have positive := shortest_ne_zero exponent nonzero
    generalize shortest mantissa exponent = decimal at inside positive ⊢
    obtain ⟨digits, power⟩ := decimal
    have each := significant_digits digits power
    have some := significant_ne_nil positive power
    have same := significant_value digits power
    dsimp only
    generalize significant digits power = written at each some same ⊢
    obtain ⟨text, point⟩ := written
    have reads : ReadsAs (digits * 10 ^ power)
        (if -4 < point ∧ point ≤ 16 then positional text point else scientific text point) := by
      rw [← same]
      split
      · exact readsAs_positional each some point
      · exact readsAs_scientific each some point
    obtain ⟨value, read, rounded⟩ := reads
    rw [eq_of_isRounded canonical nonzero inside rounded] at read
    exact read

end Offside.Binary64
