import Offside.Proofs.CText.Precedence
import Offside.Proofs.Scanner.Layout

/-!
The payloads of scanned tokens. Where no fault is recorded, every name is an identifier and no keyword,
and every number is finite and has no sign.
-/

namespace Offside

open C

def keywords : List String :=
  ["and", "break", "elif", "else", "if", "not", "or", "while", "True", "False"]

def Lexeme.IsSourced (lexeme : Lexeme) : Prop :=
  lexeme.isLexical = true ∧ ∀ word ∈ keywords, lexeme ≠ (.name, .text word)

def Kind.carries : Kind → Bool
  | name | integer | float | boolean => true
  | _ => false

theorem Lexeme.isSourced_of_not_carries {kind : Kind} {payload : Payload}
    (bare : kind.carries = false) : IsSourced (kind, payload) := by
  constructor
  · cases kind with
    | name => cases bare
    | integer => cases bare
    | float => cases bare
    | boolean => cases bare
    | _ => rfl
  · rintro word - ⟨⟩
    cases bare

theorem Binary64.ofDigits_cases (negative : Bool) (whole fraction : List Char) (power : Int) :
    (∃ mantissa exponent, ofDigits negative whole fraction power = finite negative mantissa exponent) ∨
      ofDigits negative whole fraction power = infinite negative := by
  have rounded (mantissa : Nat) (exponent : Int) :
      let value := if greatestExponent < exponent then infinite negative
        else finite negative mantissa exponent
      (∃ mantissa' exponent', value = finite negative mantissa' exponent') ∨
        value = infinite negative := by
    intro value
    by_cases large : greatestExponent < exponent
    · exact .inr (if_pos large)
    · exact .inl ⟨mantissa, exponent, if_neg large⟩
  have ratio (num den : Nat) :
      (∃ mantissa exponent, ofRatio negative num den = finite negative mantissa exponent) ∨
        ofRatio negative num den = infinite negative := by
    simp only [ofRatio]
    split
    · exact .inl ⟨_, _, rfl⟩
    · exact rounded _ _
  simp only [ofDigits, ofDecimal]
  split
  · exact ratio _ _
  · exact ratio _ _

namespace Segment

def IsSourced (segment : Segment) : Prop :=
  segment.isOutOfRange = false → ∀ lexeme ∈ segment.token?, Lexeme.IsSourced lexeme

theorem pair?_carries {c : Char} {kind : Kind} (found : pair? c = some kind) :
    kind.carries = false := by
  have none : (pair? c).any Kind.carries = false := by
    simp only [pair?, apply_ite (Option.any Kind.carries), Option.any_some, Option.any_none,
      Kind.carries, ite_self]
  rwa [found] at none

theorem single?_carries {c : Char} {kind : Kind} (found : single? c = some kind) :
    kind.carries = false := by
  have none : (single? c).any Kind.carries = false := by
    simp only [single?, apply_ite (Option.any Kind.carries), Option.any_some, Option.any_none,
      Kind.carries, ite_self]
  rwa [found] at none

theorem isSourced_symbol {kind : Kind} {text : List Char} (bare : kind.carries = false) :
    (symbol kind text).IsSourced := by
  rintro - lexeme ⟨⟩
  exact Lexeme.isSourced_of_not_carries bare

theorem isSourced_symbolOrStray (c : Char) (cs : List Char) : (symbolOrStray c cs).1.IsSourced := by
  unfold symbolOrStray
  split
  next kind rest found => exact isSourced_symbol (pair?_carries found)
  next =>
    unfold singleOrStray
    split
    next kind found => exact isSourced_symbol (single?_carries found)
    next => nofun

theorem isSourced_word {text : List Char} (identifier : isIdentifier text = true) :
    (word text).IsSourced := by
  have reserved : ∀ other ∈ keywords,
      Lexeme.isLexical (wordKind other, wordPayload other) = true ∧ wordKind other ≠ .name := by
    decide
  rintro - lexeme ⟨⟩
  by_cases keyword : String.ofList text ∈ keywords
  · obtain ⟨lexical, noName⟩ := reserved _ keyword
    exact ⟨lexical, fun other _ same => noName (congrArg Prod.fst same)⟩
  · have named : wordKind (String.ofList text) = .name ∧
        wordPayload (String.ofList text) = .text (String.ofList text) := by
      simp only [keywords, List.mem_cons, List.not_mem_nil, or_false, not_or] at keyword
      simp [wordKind, wordPayload, keyword]
    rw [named.1, named.2]
    constructor
    · rw [Lexeme.isLexical, String.toList_ofList]
      exact identifier
    · rintro other listed ⟨⟩
      exact keyword listed

theorem isSourced_float (whole fraction : List Char) : (float whole fraction).IsSourced := by
  rintro inRange lexeme ⟨⟩
  simp only [isOutOfRange] at inRange
  rcases Binary64.ofDigits_cases false whole fraction 0 with ⟨mantissa, exponent, same⟩ | same
  · rw [same]
    refine ⟨rfl, fun word _ named => ?_⟩
    cases named
  · rw [same] at inRange
    cases inRange

theorem isSourced_integer (digits : List Char) : (integer digits).IsSourced := by
  rintro - lexeme ⟨⟩
  refine ⟨decide_eq_true ?_, fun word _ => nofun⟩
  omega

theorem isSourced_next (c : Char) (cs : List Char) : (next c cs).1.IsSourced := by
  unfold next
  split
  next => nofun
  split
  next => nofun
  split
  next starts =>
    refine isSourced_word ?_
    rw [isIdentifier, starts]
    exact List.all_takeWhile
  split
  next =>
    simp only [number]
    split
    · exact isSourced_float _ _
    · exact isSourced_integer _
  split
  next => exact isSourced_float _ _
  next => exact isSourced_symbolOrStray c cs

theorem isSourced_of_mem_all {text : List Char} {segment : Segment} (found : segment ∈ all text) :
    segment.IsSourced := by
  obtain ⟨c, cs, rfl⟩ := exists_next_of_mem_upTo found
  exact isSourced_next c cs

end Segment

/-- A token that a source can give, unless a fault is recorded with it. -/
def Pull.IsSourced (pull : Pull) : Prop :=
  problems pull.journal = [] → pull.token.lexeme.IsSourced

theorem Token.isSourced_lexeme {token : Token} (sourced : Lexeme.IsSourced (token.kind, token.payload)) :
    token.lexeme.IsSourced := by
  refine ⟨isLexical_lexeme sourced.1, ?_⟩
  obtain ⟨kind, payload, place⟩ := token
  cases kind with
  | name =>
    cases payload with
    | text written => exact sourced.2
    | _ => cases sourced.1
  | _ => exact fun word _ => nofun

theorem Pull.isSourced_of_not_carries {pull : Pull} (bare : pull.token.kind.carries = false) :
    pull.IsSourced :=
  fun _ => Token.isSourced_lexeme (Lexeme.isSourced_of_not_carries bare)

namespace Scanner

theorem isOutOfRange_eq_false {file : String} {line : Line} {column : Nat} {segment : Segment}
    {lexeme : Lexeme} (found : segment.token? = some lexeme)
    (nothing : problems (segmentFaults file line column segment) = []) :
    segment.isOutOfRange = false := by
  rw [Bool.eq_false_iff]
  intro large
  cases segment with
  | stray char => cases found
  | _ =>
    simp only [segmentFaults, large, ↓reduceIte] at nothing
    cases nothing

theorem isSourced_bodyPulls (file : String) (line : Line) (levels : Levels) (column : Nat)
    (waiting : List Entry) {segments : List Segment}
    (sourced : ∀ segment ∈ segments, segment.IsSourced) :
    ∀ pull ∈ bodyPulls file line levels column waiting segments, pull.IsSourced := by
  induction segments generalizing column waiting with
  | nil =>
    intro pull member
    rw [List.mem_singleton.mp member]
    exact Pull.isSourced_of_not_carries rfl
  | cons segment rest ih =>
    rw [List.forall_mem_cons] at sourced
    rw [bodyPulls_segment]
    split
    next kind payload found =>
      rw [List.forall_mem_cons]
      refine ⟨?_, ih _ _ sourced.2⟩
      intro nothing
      rw [problems_append, List.append_eq_nil_iff] at nothing
      exact Token.isSourced_lexeme
        (sourced.1 (isOutOfRange_eq_false found nothing.2) (kind, payload) found)
    next => exact ih _ _ sourced.2

theorem isSourced_marginPulls (file : String) (line : Line) (levels : Levels) :
    ∀ pull ∈ marginPulls file line levels, pull.IsSourced := by
  intro pull member
  have listed := List.mem_map_of_mem (f := Pull.token) member
  rw [marginPulls, tokens_handOut] at listed
  rcases marginTokens_kind listed with kind | kind <;>
    exact Pull.isSourced_of_not_carries (by rw [kind]; rfl)

theorem isSourced_finalPulls (final : Location) (levels : Levels) :
    ∀ pull ∈ finalPulls final levels, pull.IsSourced := by
  intro pull member
  obtain ⟨closing, last, tokens, -, closes, ends⟩ := exists_tokens_finalPulls final levels
  have listed := List.mem_map_of_mem (f := Pull.token) member
  rw [tokens, List.mem_append, List.mem_singleton] at listed
  rcases listed with closed | rfl
  · exact Pull.isSourced_of_not_carries (by rw [closes _ closed]; rfl)
  · exact Pull.isSourced_of_not_carries (by rw [ends]; rfl)

/-- Where a scan records no fault, its tokens are such as a source can give. -/
theorem isSourced_run {scanner : Scanner} (nothing : problems scanner.run.journal = []) :
    ∀ token ∈ scanner.run.tokens, token.lexeme.IsSourced := by
  intro token listed
  obtain ⟨pull, member, rfl⟩ := List.mem_map.mp listed
  refine forall_mem_runLines (P := Pull.IsSourced) scanner scanner.levels scanner.lines ?_ ?_ pull
    member ?_
  · intro line _ _ levels pull member
    rcases List.mem_append.mp member with margin | body
    · exact isSourced_marginPulls scanner.file line levels pull margin
    · exact isSourced_bodyPulls _ _ _ _ _ (fun segment => Segment.isSourced_of_mem_all) pull body
  · exact isSourced_finalPulls scanner.final
  · rw [List.eq_nil_iff_forall_not_mem]
    intro problem recorded
    obtain ⟨entry, happened, fault⟩ := List.mem_filterMap.mp recorded
    have kept : problem ∈ problems scanner.run.journal :=
      List.mem_filterMap.mpr ⟨entry, List.mem_flatMap.mpr ⟨pull, member, happened⟩, fault⟩
    rw [nothing] at kept
    cases kept

end Scanner

end Offside
