import Offside.Proofs.CText.Constant
import Offside.Proofs.CText.Numbers
import Offside.Proofs.Scanner.Integers

/-!
Integers from the digits of a source to the constants of its C text. Each is exact, or the source has a
fault and there is no text.
-/

namespace Offside

open C

/-- The text of a constant that C takes for the integer: its digits in base ten, with no zero in front of
others, which would make it octal, and of a value that fits. -/
structure C.IsInteger (text : String) (value : Nat) : Prop where
  nonempty : text.toList ≠ []
  digits : ∀ c ∈ text.toList, c.isDigit = true
  leading : text.toList.head? = some '0' → text = "0"
  decimal : Nat.ofDigitChars 10 text.toList 0 = value
  fits : value < 2 ^ 63
  constant : constant? text = some (.integer value)

theorem Literal.isInteger_cText {value : Nat} (small : value < 2 ^ 63) :
    C.IsInteger (cText (.integer value)) value := by
  have text := toList_cText_integer value
  have digits : ∀ c ∈ Nat.toDigits 10 value, c.isDigit = true := fun c => isDigit_toDigits
  refine ⟨?_, ?_, ?_, ?_, small, ?_⟩
  · rw [text]
    exact Nat.toDigits_ne_nil
  · rw [text]
    exact digits
  · intro zero
    rw [text] at zero
    rcases Nat.eq_zero_or_pos value with rfl | positive
    · rfl
    · exact absurd zero (head_toDigits positive)
  · rw [text, Nat.ofDigitChars_ten_toDigits]
  · rw [constant?, text, if_pos (List.all_eq_true.mpr digits), wholeConstant?_toDigits small, Option.map_some]

/-- How a literal of a source may be written in C. A number is written as the integer that its digits
stand for, a truth value as one or zero, and a decimal as no integer. -/
def Token.IsWritten (file source : String) (token : Token) (text : String) : Prop :=
  match token.kind with
  | .integer => ∃ before digits after, source.toList = before ++ (digits ++ after) ∧
      IsIntegerRun before digits after ∧ token.place = placeAfter file before ∧
      C.IsInteger text (Nat.ofDigitChars 10 digits 0)
  | .boolean => C.IsInteger text (if token.payload.holds then 1 else 0)
  | _ => ∃ c ∈ text.toList, c.isDigit = false

theorem Token.literal?_lexeme (token : Token) : token.lexeme.literal? = token.literal? := by
  obtain ⟨kind, payload, place⟩ := token
  cases kind with
  | integer | float => cases payload <;> rfl
  | boolean => cases truth : payload.holds <;> simp [lexeme, literal?, Lexeme.literal?, truth]
  | _ => rfl

theorem forall₂_literals {R : Token → String → Prop} {tokens : List Token}
    (each : ∀ token ∈ tokens, ∀ value, token.literal? = some value → R token value.cText) :
    List.Forall₂ R (tokens.filter (·.literal?.isSome)) (numberTexts (tokens.map Token.lexeme)) := by
  induction tokens with
  | nil => exact .nil
  | cons token rest ih =>
    rw [List.forall_mem_cons] at each
    rw [List.map_cons, numberTexts, List.filterMap_cons, token.literal?_lexeme]
    cases found : token.literal? with
    | none =>
      rw [List.filter_cons_of_neg (by simp [found])]
      exact ih each.2
    | some value =>
      rw [List.filter_cons_of_pos (by simp [found])]
      exact .cons (each.1 value found) (ih each.2)

section

variable {options : Options} {file : Option String} {source : String} {compilation : Compilation}

theorem isWritten_of_succeeded (result : (compile options file source).result = .ok compilation)
    (succeeded : compilation.succeeded = true) {token : Token}
    (member : token ∈ (Scanner.ofSource (options.nameFor file) options.limit source).run.tokens)
    {value : Literal} (found : token.literal? = some value) :
    token.IsWritten (options.nameFor file) source value.cText := by
  obtain ⟨-, scanned, inner, last, tokens, ends, spelled⟩ := spelled_of_succeeded result succeeded
  have lexeme := Token.lexeme_of_literal? found
  cases value with
  | integer number =>
    have kind : token.kind = .integer := Token.kind_of_lexeme lexeme
    obtain ⟨before, digits, after, split, run, place, exact'⟩ := Scanner.isInteger_of_mem_tokens member kind
    rw [rangeFaultsAt, rangeFaults, scanned] at exact'
    rcases exact' with ⟨small, payload, -⟩ | ⟨-, -, fault⟩
    · have same : number = (Nat.ofDigitChars 10 digits 0 : Nat) := by
        simpa [Token.literal?, kind, payload] using found.symm
      rw [Token.IsWritten, kind, same]
      exact ⟨before, digits, after, split, run, place, Literal.isInteger_cText (by omega)⟩
    · cases fault
  | float number =>
    have kind : token.kind = .float := Token.kind_of_lexeme lexeme
    have listed : Literal.lexeme (.float number) ∈ Stmt.lexemesOfAll compilation.statements := by
      rw [← spelled, ← lexeme]
      rw [tokens, List.mem_append, List.mem_singleton] at member
      rcases member with early | rfl
      · exact List.mem_map_of_mem early
      · rw [kind] at ends
        cases ends
    obtain ⟨mantissa, exponent, rfl, -⟩ := isExact_of_succeeded result succeeded listed
    rw [Token.IsWritten, kind]
    change ∃ c ∈ (String.ofList (Binary64.magnitudeText mantissa exponent)).toList, _
    rw [String.toList_ofList]
    exact Binary64.exists_mark mantissa exponent
  | boolean truth =>
    have kind : token.kind = .boolean := Token.kind_of_lexeme lexeme
    have holds : token.payload.holds = truth := by
      simpa [Token.literal?, kind] using found
    rw [Token.IsWritten, kind, holds]
    have bit (value : Nat) (small : value < 2) : C.IsInteger (Literal.cText (.integer value)) value :=
      Literal.isInteger_cText (by omega)
    cases truth with
    | true => exact bit 1 (by decide)
    | false => exact bit 0 (by decide)

theorem exists_numbers_of_succeeded (result : (compile options file source).result = .ok compilation)
    (succeeded : compilation.succeeded = true) :
    ∃ tokens, tokens? (codeFrom .code compilation.code.toList) = some tokens ∧
      List.Forall₂ (Token.IsWritten (options.nameFor file) source)
        ((Scanner.ofSource (options.nameFor file) options.limit source).run.tokens.filter
          (·.literal?.isSome))
        (numbersIn tokens) := by
  obtain ⟨tokens, cut, numbers⟩ := (hasNumbers_code result succeeded).exists_tokens
  obtain ⟨-, -, inner, last, scanned, ends, spelled⟩ := spelled_of_succeeded result succeeded
  have whole : numberTexts ((Scanner.ofSource (options.nameFor file) options.limit source).run.tokens.map
      Token.lexeme) = numberTexts (Stmt.lexemesOfAll compilation.statements) := by
    rw [scanned, List.map_append, spelled, List.map_singleton, Token.lexeme_eq_bare ends (by decide)]
    simp
  refine ⟨tokens, cut, ?_⟩
  rw [numbers, ← whole]
  exact forall₂_literals fun token member value found => isWritten_of_succeeded result succeeded member found

end

/-- Integers are exact or reported. An integer of a scan, whether this reaches its end or not, stands for
the run of digits at its place: it carries the decimal value of the run and no number out of range is
recorded at this place, unless the value takes more than 63 bits; then one is recorded, with all digits
of the run, and the token carries the greatest value that does not. Nothing but numbers is recorded as out
of range. A scan that reaches its end has an integer for every run. To tell whether a run is out of range
it is enough to count its digits without the zeros in front, and to read them if there are no more than
19. In the text of a program that was compiled without a fault, the numbers are the literals of the source
in their order, and integers are written in base ten without a zero in front, fit in 64 bits and have the
values of their digits in the source. -/
theorem integers_exact_or_reported :
    (∀ (file : String) (limit : Int) (source : String),
      let scan := (Scanner.ofSource file limit source).run
      (∀ token ∈ scan.tokens, token.kind = .integer →
        token.IsInteger file source (rangeFaultsAt token.place scan.journal)) ∧
      (∀ problem ∈ rangeFaults scan.journal, ∃ token ∈ scan.tokens, token.Owns problem) ∧
      (scan.ending = .finished → ∀ before digits after : List Char,
        source.toList = before ++ (digits ++ after) → IsIntegerRun before digits after →
        ∃ token ∈ scan.tokens, token.kind = .integer ∧ token.place = placeAfter file before ∧
          token.StandsFor source digits (rangeFaultsAt token.place scan.journal))) ∧
    (∀ digits : List Char, (∀ c ∈ digits, c.isDigit = true) →
      Segment.isBeyond digits = (Segment.integer digits).isOutOfRange) ∧
    ∀ (options : Options) (file : Option String) (source : String) (compilation : Compilation),
      (compile options file source).result = .ok compilation → compilation.succeeded = true →
      ∃ tokens, tokens? (codeFrom .code compilation.code.toList) = some tokens ∧
        List.Forall₂ (Token.IsWritten (options.nameFor file) source)
          ((Scanner.ofSource (options.nameFor file) options.limit source).run.tokens.filter
            (·.literal?.isSome))
          (numbersIn tokens) := by
  refine ⟨fun file limit source => ⟨?_, ?_, ?_⟩, ?_, ?_⟩
  · exact fun token member kind => Scanner.isInteger_of_mem_tokens member kind
  · exact fun problem found => Scanner.exists_owner found
  · exact fun done before digits after split run => Scanner.exists_standsFor_of_run done split run
  · exact fun digits each => Segment.isBeyond_eq_isOutOfRange each
  · exact fun options file source compilation result succeeded =>
      exists_numbers_of_succeeded result succeeded

/-- The least integer out of range, behind a zero. -/
def outOfRangeSource : String := "x = 09223372036854775808 # 1\n"

/-- The greatest integer in range behind zeros, and a truth value, a zero and a decimal. -/
def inRangeSource : String := "x = 0009223372036854775807 - True / 00 * 1.50\n"

theorem integers_exact_or_reported_edges :
    let scan := (Scanner.ofSource "edge.mpy" 2 outOfRangeSource).run
    (scan.ending = .finished ∧
      (∃ token ∈ scan.tokens, token.kind = .integer ∧
        token.place = placeAfter "edge.mpy" "x = ".toList ∧
        token.StandsFor outOfRangeSource "09223372036854775808".toList
          (rangeFaultsAt token.place scan.journal))) ∧
    Segment.isBeyond "09223372036854775808".toList =
      (Segment.integer "09223372036854775808".toList).isOutOfRange ∧
    ∃ compilation, (compile {} none inRangeSource).result = .ok compilation ∧
      compilation.succeeded = true ∧
      ∃ tokens, tokens? (codeFrom .code compilation.code.toList) = some tokens ∧
        List.Forall₂ (Token.IsWritten (Options.nameFor {} none) inRangeSource)
          ((Scanner.ofSource (Options.nameFor {} none) ({} : Options).limit inRangeSource).run.tokens.filter
            (·.literal?.isSome))
          (numbersIn tokens) := by
  obtain ⟨scans, tests, writes⟩ := integers_exact_or_reported
  have done : (Scanner.ofSource "edge.mpy" 2 outOfRangeSource).run.ending = .finished := by decide +kernel
  have run : IsIntegerRun "x = ".toList "09223372036854775808".toList " # 1\n".toList := by
    refine ⟨by decide, List.all_eq_true.mp rfl, ?_, rfl, rfl, [], _, rfl, .inl rfl, by decide⟩
    intro c last
    cases last
    decide
  refine ⟨⟨done, (scans _ _ _).2.2 done _ _ _ (by decide) run⟩, tests _ run.each, ?_⟩
  have compiled : (compile {} none inRangeSource).result.toOption.map Compilation.succeeded = some true := by
    decide +kernel
  cases result : (compile {} none inRangeSource).result with
  | error problem =>
    rw [result] at compiled
    cases compiled
  | ok compilation =>
    rw [result] at compiled
    have succeeded := Option.some.inj compiled
    exact ⟨compilation, rfl, succeeded, writes _ _ _ _ result succeeded⟩

end Offside
