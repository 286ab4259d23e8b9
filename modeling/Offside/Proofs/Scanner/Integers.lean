import Offside.Proofs.Scanner.DigitRuns

/-!
The integers of a scan are exact or reported. The token of a run of digits carries its decimal value; if
this takes more than 63 bits, one fault is recorded at the place of the run and names all of it, and the
token carries the greatest value that does not.
-/

namespace Offside

namespace Segment

def significant (digits : List Char) : List Char :=
  match digits.dropWhile (· = '0') with
  | [] => ['0']
  | first :: rest => first :: rest

/-- Whether a run of digits is out of range, told by the count of its digits first. -/
def isBeyond (digits : List Char) : Bool :=
  (toString greatestInteger).length < (significant digits).length ||
    greatestInteger < Nat.ofDigitChars 10 (significant digits) 0

theorem ofDigitChars_dropWhile (digits : List Char) :
    Nat.ofDigitChars 10 (digits.dropWhile (· = '0')) 0 = Nat.ofDigitChars 10 digits 0 := by
  induction digits with
  | nil => rfl
  | cons c rest ih =>
    by_cases zero : c = '0'
    · rw [List.dropWhile_cons_of_pos (by simpa using zero), ih, zero, Nat.ofDigitChars_cons,
        Nat.sub_self]
    · rw [List.dropWhile_cons_of_neg (by simpa using zero)]

theorem ofDigitChars_significant (digits : List Char) :
    Nat.ofDigitChars 10 (significant digits) 0 = Nat.ofDigitChars 10 digits 0 := by
  rw [← ofDigitChars_dropWhile digits, significant]
  split
  next empty => rw [empty]; rfl
  next same => rw [same]

theorem pow_le_ofDigitChars {c : Char} (rest : List Char) (digit : c.isDigit = true) (nonzero : c ≠ '0') :
    10 ^ rest.length ≤ Nat.ofDigitChars 10 (c :: rest) 0 := by
  have least : 1 ≤ c.toNat - '0'.toNat := by
    have low := (Char.isDigit_iff_toNat.mp digit).1
    have other : c.toNat ≠ '0'.toNat := fun same => nonzero (Char.toNat_inj.mp same)
    omega
  rw [Nat.ofDigitChars_cons, Nat.ofDigitChars_eq_ofDigitChars_zero]
  calc 10 ^ rest.length = 10 ^ rest.length * 1 := (Nat.mul_one _).symm
    _ ≤ 10 ^ rest.length * (10 * 0 + (c.toNat - '0'.toNat)) := Nat.mul_le_mul_left _ (by omega)
    _ ≤ _ := Nat.le_add_right _ _

theorem isBeyond_eq_isOutOfRange {digits : List Char} (each : ∀ c ∈ digits, c.isDigit = true) :
    isBeyond digits = (integer digits).isOutOfRange := by
  have value := ofDigitChars_significant digits
  have long (more : 19 < (significant digits).length) :
      greatestInteger < Nat.ofDigitChars 10 digits 0 := by
    have head := List.head?_dropWhile_not (· = '0') digits
    rw [← value]
    unfold significant at more ⊢
    split at more
    next => simp at more
    next first rest same =>
      rw [same] at head
      have digit := each first ((List.dropWhile_sublist _).subset (same ▸ List.mem_cons_self))
      have large := pow_le_ofDigitChars rest digit (by simpa using head)
      have grows := Nat.pow_le_pow_right (n := 10) (by decide) (Nat.le_of_lt_succ more)
      have far : greatestInteger < 10 ^ 19 := by decide
      omega
  have limit : (toString greatestInteger).length = 19 := by decide
  rw [isBeyond, limit, value, Bool.eq_iff_iff, Bool.or_eq_true, decide_eq_true_eq, decide_eq_true_eq]
  constructor
  · rintro (more | far)
    · exact decide_eq_true (long more)
    · exact decide_eq_true far
  · exact fun out => .inr (of_decide_eq_true out)

end Segment

def Cause.isOutOfRange : Cause → Bool
  | numberOutOfRange _ => true
  | _ => false

def rangeFaults (journal : List Entry) : List Diagnostic :=
  (problems journal).filter (·.cause.isOutOfRange)

theorem rangeFaults_append (early late : List Entry) :
    rangeFaults (early ++ late) = rangeFaults early ++ rangeFaults late := by
  rw [rangeFaults, problems_append, List.filter_append]
  rfl

/-- The token of a run of digits, and the faults found with it: the token carries the decimal value of
the run, unless this takes more than 63 bits. Then the run is recorded, and the token carries the
greatest value that does not. -/
def Token.StandsFor (source : String) (digits : List Char) (faults : List Diagnostic) (token : Token) :
    Prop :=
  let value := Nat.ofDigitChars 10 digits 0
  (value ≤ 2 ^ 63 - 1 ∧ token.payload = .integer value ∧ faults = []) ∨
    (2 ^ 63 - 1 < value ∧ token.payload = .integer (2 ^ 63 - 1) ∧
      faults = [⟨.numberOutOfRange (String.ofList digits), some token.place,
        lineAt? (quotedLines source) token.place.line⟩])

def Token.IsInteger (file source : String) (faults : List Diagnostic) (token : Token) : Prop :=
  ∃ before digits after, source.toList = before ++ (digits ++ after) ∧
    IsIntegerRun before digits after ∧ token.place = placeAfter file before ∧
    token.StandsFor source digits faults

def Token.Owns (token : Token) (problem : Diagnostic) : Prop :=
  problem.place = some token.place ∧ (token.kind = .integer ∨ token.kind = .float)

/-- A token whose number, if it is an integer, is the one that its digits stand for. -/
structure Pull.IsExact (file source : String) (pull : Pull) : Prop where
  integer : pull.token.kind = .integer → pull.token.IsInteger file source (rangeFaults pull.journal)
  owns : ∀ problem ∈ rangeFaults pull.journal, pull.token.Owns problem

theorem Token.Owns.plain {token : Token} {problem : Diagnostic} (owns : token.Owns problem) :
    token.kind.isStructural = false := by
  rcases owns.2 with kind | kind <;> rw [kind] <;> rfl

theorem Segment.wordKind_ne_integer (word : String) : wordKind word ≠ .integer := by
  have other : (wordKind word == .integer) = false := by
    simp only [wordKind, apply_ite (· == Kind.integer)]
    simp only [BEq.beq, reduceCtorEq, decide_false, ite_self]
  exact beq_eq_false_iff_ne.mp other

theorem Segment.exists_digits_of_integer {segment : Segment} {payload : Payload} {rest : List Char}
    (found : segment.token? = some (.integer, payload))
    (stands : (Part.ofSegment segment).Stands rest) : ∃ digits, segment = integer digits := by
  have reserved : ∀ entry ∈ reservedWords, entry.2.1 ≠ .integer := by decide
  have signs : ∀ entry ∈ symbols, entry.2 ≠ .integer := by decide
  have reads := Part.reads_of_stands found stands
  cases segment with
  | integer digits => exact ⟨digits, rfl⟩
  | word text =>
    exact absurd (congrArg Prod.fst (Option.some.inj found)) (wordKind_ne_integer _)
  | symbol kind text =>
    obtain ⟨rfl, rfl⟩ := Prod.mk.inj (Option.some.inj found)
    cases reads with
    | reserved listed stops => exact absurd rfl (reserved _ listed)
    | symbol listed stops => exact absurd rfl (signs _ listed)
  | blank | comment | stray | float => cases found

namespace Scanner

variable {file source : String} {line : Line}

theorem of_mem_rangeFaults {column : Nat} {segment : Segment} {problem : Diagnostic}
    (found : problem ∈ rangeFaults (segmentFaults file line column segment)) :
    problem.place = some (placeIn file line column) ∧
      ∃ payload, segment.token? = some (.integer, payload) ∨ segment.token? = some (.float, payload) := by
  obtain ⟨recorded, -⟩ := List.mem_filter.mp found
  cases segment with
  | blank | comment | word | symbol => cases recorded
  | stray char => cases found
  | integer digits =>
    simp only [segmentFaults] at recorded
    split at recorded
    · rw [List.mem_singleton.mp recorded]
      exact ⟨rfl, _, .inl rfl⟩
    · cases recorded
  | float whole fraction =>
    simp only [segmentFaults] at recorded
    split at recorded
    · rw [List.mem_singleton.mp recorded]
      exact ⟨rfl, _, .inr rfl⟩
    · cases recorded

theorem rangeFaults_of_tokenless {column : Nat} {segment : Segment} (none : segment.token? = none) :
    rangeFaults (segmentFaults file line column segment) = [] := by
  rw [List.eq_nil_iff_forall_not_mem]
  intro problem found
  obtain ⟨-, payload, number | number⟩ := of_mem_rangeFaults found
  · rw [none] at number
    cases number
  · rw [none] at number
    cases number

/-- A token that comes from a segment behind others, with the fault of this segment if there is one. -/
structure IsFrom (file : String) (line : Line) (column : Nat) (early : List Segment) (segment : Segment)
    (pull : Pull) : Prop where
  token : segment.token? = some (pull.token.kind, pull.token.payload)
  place : pull.token.place = placeIn file line (column + (early.flatMap Segment.text).length)
  faults : rangeFaults pull.journal = rangeFaults
    (segmentFaults file line (column + (early.flatMap Segment.text).length) segment)

theorem IsFrom.cons {column : Nat} {first segment : Segment} {early : List Segment} {pull : Pull}
    (from' : IsFrom file line (column + first.text.length) early segment pull) :
    IsFrom file line column (first :: early) segment pull := by
  have same : column + ((first :: early).flatMap Segment.text).length =
      column + first.text.length + (early.flatMap Segment.text).length := by
    rw [List.flatMap_cons, List.length_append, Nat.add_assoc]
  exact ⟨from'.token, by rw [same, from'.place], by rw [same, from'.faults]⟩

theorem exists_isFrom_of_mem_bodyPulls {levels : Levels} {column : Nat} {waiting : List Entry}
    {segments : List Segment} {pull : Pull} (silent : rangeFaults waiting = [])
    (member : pull ∈ bodyPulls file line levels column waiting segments) :
    (pull.token.kind = .endOfLine ∧ rangeFaults pull.journal = []) ∨
      ∃ early segment late, segments = early ++ segment :: late ∧
        IsFrom file line column early segment pull := by
  induction segments generalizing column waiting with
  | nil =>
    rw [List.mem_singleton.mp member]
    exact .inl ⟨rfl, silent⟩
  | cons segment rest ih =>
    rw [bodyPulls_segment] at member
    cases found : segment.token? with
    | none =>
      rw [found] at member
      have still : rangeFaults (waiting ++ segmentFaults file line column segment) = [] := by
        rw [rangeFaults_append, silent, rangeFaults_of_tokenless found]
        rfl
      rcases ih still member with ends | ⟨early, other, late, rfl, from'⟩
      · exact .inl ends
      · exact .inr ⟨segment :: early, other, late, rfl, from'.cons⟩
    | some lexeme =>
      rw [found] at member
      rcases List.mem_cons.mp member with rfl | after
      · refine .inr ⟨[], segment, rest, rfl, found, rfl, ?_⟩
        rw [rangeFaults_append, silent]
        rfl
      · rcases ih rfl after with ends | ⟨early, other, late, rfl, from'⟩
        · exact .inl ends
        · exact .inr ⟨segment :: early, other, late, rfl, from'.cons⟩

theorem standsFor_integer {column : Nat} {digits : List Char} {token : Token}
    (found : (Segment.integer digits).token? = some (token.kind, token.payload))
    (place : token.place = placeIn file line column)
    (quoted : lineAt? (quotedLines source) line.number = some line.quote) :
    token.StandsFor source digits
      (rangeFaults (segmentFaults file line column (.integer digits))) := by
  have payload : token.payload = .integer (min (Nat.ofDigitChars 10 digits 0) (2 ^ 63 - 1)) :=
    (congrArg Prod.snd (Option.some.inj found)).symm
  have quote : lineAt? (quotedLines source) token.place.line = some line.quote := by
    rw [place]
    exact quoted
  rcases Nat.lt_or_ge (2 ^ 63 - 1) (Nat.ofDigitChars 10 digits 0) with far | near
  · have out : (Segment.integer digits).isOutOfRange = true := decide_eq_true far
    refine .inr ⟨far, ?_, ?_⟩
    · rw [payload, min_eq_right (by omega)]
    · rw [place] at quote ⊢
      rw [quote, segmentFaults, if_pos out]
      · rfl
      · simp
  · have inside : (Segment.integer digits).isOutOfRange = false := decide_eq_false (Nat.not_lt.mpr near)
    refine .inl ⟨near, ?_, ?_⟩
    · rw [payload, min_eq_left (by omega)]
    · rw [segmentFaults, inside]
      · rfl
      · simp

theorem IsFrom.isExact {column : Nat} {early : List Segment} {segment : Segment} {pull : Pull}
    {before rest : List Char} (from' : IsFrom file line column early segment pull)
    (whole : source.toList = before ++ (segment.text ++ rest))
    (here : placeAfter file before = placeIn file line (column + (early.flatMap Segment.text).length))
    (stands : (Part.ofSegment segment).Stands rest) (fresh : IsFresh before (segment.text ++ rest))
    (quoted : lineAt? (quotedLines source) line.number = some line.quote) :
    pull.IsExact file source := by
  constructor
  · intro kind
    obtain ⟨digits, rfl⟩ := Segment.exists_digits_of_integer (kind ▸ from'.token) stands
    have value := standsFor_integer from'.token from'.place quoted
    rw [← from'.faults] at value
    refine ⟨before, digits, rest, whole, ?_, from'.place.trans here.symm, value⟩
    cases stands with
    | reserved listed stops =>
      have reserved : ∀ entry ∈ reservedWords, entry.2.1 ≠ .integer := by decide
      exact absurd rfl (reserved _ listed)
    | integer some each stops single =>
      have digit : startsWith Char.isDigit (digits ++ rest) = true := by
        obtain ⟨c, others, rfl⟩ := List.exists_cons_of_ne_nil some
        exact each c List.mem_cons_self
      exact ⟨some, each, fresh.starts digit, stops, single, fresh.visible⟩
  · intro problem found
    rw [from'.faults] at found
    obtain ⟨place, payload, number⟩ := of_mem_rangeFaults found
    rw [from'.token, Option.some.injEq, Option.some.injEq, Prod.mk.injEq, Prod.mk.injEq] at number
    exact ⟨by rw [place, from'.place], number.imp And.left And.left⟩

theorem isFresh_margin {before after : List Char} (stands : line.Stands file source before after)
    (rest : List Char) : IsFresh (before ++ line.content.takeWhile Line.isMargin) rest := by
  have blank : ∀ c ∈ line.content.takeWhile Line.isMargin, c = ' ' ∨ c = '\t' := by
    intro c found
    have margin := List.all_eq_true.mp List.all_takeWhile c found
    simpa [Line.isMargin] using margin
  constructor
  · intro _ c last
    rw [List.getLast?_append, Option.mem_def, Option.or_eq_some_iff] at last
    rcases last with inside | ⟨-, outside⟩
    · rcases blank c (List.mem_of_getLast? inside) with rfl | rfl <;> decide
    · rcases stands.fresh with rfl | feed
      · cases outside
      · rw [outside] at feed
        cases feed
        decide
  · refine ⟨before, _, rfl, stands.fresh, ?_⟩
    intro found
    rcases blank _ found with same | same <;> cases same

theorem rangeFaults_marginPulls {levels : Levels} {pull : Pull}
    (member : pull ∈ marginPulls file line levels) : rangeFaults pull.journal = [] := by
  rw [rangeFaults, List.filter_eq_nil_iff]
  intro problem recorded
  obtain ⟨entry, found, read⟩ := List.mem_filterMap.mp recorded
  have happened : entry ∈ (marginPulls file line levels).flatMap Pull.journal :=
    List.mem_flatMap.mpr ⟨pull, member, found⟩
  rw [marginPulls, journal_handOut] at happened
  split at happened
  · cases happened
  simp only [marginJournal] at happened
  split at happened
  · cases List.mem_singleton.mp happened
    cases read
  · rcases List.mem_append.mp happened with closed | misaligned
    · obtain ⟨width, -, rfl⟩ := List.mem_map.mp closed
      cases read
    · split at misaligned
      · cases misaligned
      · cases List.mem_singleton.mp misaligned
        cases read
        exact Bool.false_ne_true

theorem structural_of_mem_marginPulls {levels : Levels} {pull : Pull}
    (member : pull ∈ marginPulls file line levels) : pull.token.kind.isStructural = true := by
  have listed := List.mem_map_of_mem (f := Pull.token) member
  rw [marginPulls, tokens_handOut] at listed
  rcases marginTokens_kind listed with kind | kind <;> rw [kind] <;> rfl

theorem structural_of_mem_finalPulls {final : Location} {levels : Levels} {pull : Pull}
    (member : pull ∈ finalPulls final levels) :
    pull.token.kind.isStructural = true ∧ rangeFaults pull.journal = [] := by
  induction levels with
  | nil =>
    rw [List.mem_singleton.mp member]
    exact ⟨rfl, rfl⟩
  | cons width outer ih =>
    rcases List.mem_cons.mp member with rfl | later
    · exact ⟨rfl, rfl⟩
    · exact ih later

theorem isExact_of_structural {pull : Pull} (structural : pull.token.kind.isStructural = true)
    (silent : rangeFaults pull.journal = []) : pull.IsExact file source := by
  constructor
  · intro kind
    rw [kind] at structural
    cases structural
  · rw [silent]
    exact List.forall_mem_nil _

theorem isExact_linePulls (levels : Levels) {before after : List Char}
    (stands : line.Stands file source before after) :
    ∀ pull ∈ linePulls file levels line, pull.IsExact file source := by
  intro pull member
  rcases List.mem_append.mp member with margin | body
  · exact isExact_of_structural (structural_of_mem_marginPulls margin) (rangeFaults_marginPulls margin)
  · have parts : line.content.takeWhile Line.isMargin ++ line.afterMargin.content = line.content :=
      List.takeWhile_append_dropWhile
    rcases exists_isFrom_of_mem_bodyPulls rfl body with
      ⟨ends, silent⟩ | ⟨early, segment, late, split, from'⟩
    · exact isExact_of_structural (by rw [ends]; rfl) silent
    · obtain ⟨content, own, fresh⟩ := Segment.context_of_upTo (Nat.le_refl _)
        (stands.reaches.of_append parts.symm) (isFresh_margin stands _) split
      have flat : '\n' ∉ early.flatMap Segment.text := by
        intro found
        apply stands.flat
        rw [← parts, content]
        exact List.mem_append_right _ (List.mem_append_left _ found)
      have whole := stands.whole
      rw [← parts, content] at whole
      refine from'.isExact ?_ (placeAfter_inLine (placeAfter_margin stands.here stands.flat) flat) own fresh
        stands.quoted
      rw [whole]
      simp only [List.append_assoc]

/-- Every integer of a scan, of whatever length it gets to, is exact or recorded. -/
theorem isExact_run (file : String) (limit : Int) (source : String) :
    ∀ pull ∈ (ofSource file limit source).run.pulls, pull.IsExact file source := by
  apply forall_mem_runLines
  · intro line member _ levels
    obtain ⟨before, after, stands⟩ := Line.exists_stands file member
    exact isExact_linePulls levels stands
  · intro levels pull member
    obtain ⟨structural, silent⟩ := structural_of_mem_finalPulls member
    exact isExact_of_structural structural silent

def Apart (first second : Pull) : Prop :=
  first.token.kind.isStructural = false → second.token.kind.isStructural = false →
    first.token.place ≠ second.token.place

theorem apart_of_structural {first : Pull} (structural : first.token.kind.isStructural = true)
    (second : Pull) : Apart first second := by
  intro plain
  rw [structural] at plain
  cases plain

theorem mem_places_of_mem {pulls : List Pull} {pull : Pull} (member : pull ∈ pulls) :
    pull.token.place ∈ pulls.flatMap Pull.places :=
  List.mem_flatMap.mpr ⟨pull, member, List.mem_append_right _ (List.mem_singleton_self _)⟩

/-- Each segment takes up columns, so what comes behind it is further to the right. -/
theorem apart_bodyPulls (levels : Levels) (column : Nat) (waiting : List Entry) {segments : List Segment}
    (visible : ∀ segment ∈ segments, segment.text ≠ []) :
    (bodyPulls file line levels column waiting segments).Pairwise Apart := by
  induction segments generalizing column waiting with
  | nil => exact List.pairwise_singleton _ _
  | cons segment rest ih =>
    rw [List.forall_mem_cons] at visible
    rw [bodyPulls_segment]
    cases segment.token? with
    | none => exact ih _ _ visible.2
    | some lexeme =>
      refine List.pairwise_cons.mpr ⟨?_, ih _ _ visible.2⟩
      intro later member _ _ same
      rcases mem_places_bodyPulls _ _ _ _ _ (mem_places_of_mem member) with none | ⟨here, least, -, there⟩
      · cases none
      · have long := List.length_pos_iff.mpr visible.1
        have columns : (column : Int) = here := congrArg Location.column (same.trans there)
        omega

theorem apart_linePulls (file : String) (levels : Levels) (line : Line) :
    (linePulls file levels line).Pairwise Apart := by
  rw [linePulls, List.pairwise_append]
  refine ⟨?_, apart_bodyPulls _ _ _ fun segment => Segment.text_ne_nil_of_mem, ?_⟩
  · apply List.pairwise_of_forall_mem_list
    exact fun first member second _ => apart_of_structural (structural_of_mem_marginPulls member) second
  · exact fun first member second _ => apart_of_structural (structural_of_mem_marginPulls member) second

theorem apart_runLines (scanner : Scanner) (levels : Levels) {lines : List Line}
    (numbered : lines.Pairwise fun first second => first.number < second.number) :
    (runLines scanner levels lines).pulls.Pairwise Apart := by
  induction lines generalizing levels with
  | nil =>
    apply List.pairwise_of_forall_mem_list
    exact fun first member second _ => apart_of_structural (structural_of_mem_finalPulls member).1 second
  | cons line rest ih =>
    rw [List.pairwise_cons] at numbered
    rw [runLines]
    split
    · exact ih levels numbered.2
    · split
      · exact List.Pairwise.nil
      · refine List.pairwise_append.mpr ⟨apart_linePulls _ _ _, ih _ numbered.2, ?_⟩
        intro first now second later
        obtain ⟨here, -, at'⟩ := mem_places_linePulls levels _ (mem_places_of_mem now)
        refine forall_mem_runLines (P := fun pull => Apart first pull) scanner _ rest ?_ ?_ second later
        · intro other inRest _ levels pull member _ _ same
          obtain ⟨there, -, behind⟩ := mem_places_linePulls levels _ (mem_places_of_mem member)
          have numbers : (line.number : Int) = other.number :=
            congrArg Location.line (at'.symm.trans (same.trans behind))
          have := numbered.1 other inRest
          omega
        · intro levels pull member _ plain
          rw [(structural_of_mem_finalPulls member).1] at plain
          cases plain

end Scanner

def rangeFaultsAt (place : Location) (journal : List Entry) : List Diagnostic :=
  (rangeFaults journal).filter (·.place = some place)

theorem rangeFaultsAt_append (place : Location) (early late : List Entry) :
    rangeFaultsAt place (early ++ late) = rangeFaultsAt place early ++ rangeFaultsAt place late := by
  rw [rangeFaultsAt, rangeFaults_append, List.filter_append]
  rfl

theorem rangeFaultsAt_eq_nil {file source : String} {place : Location} {pulls : List Pull}
    (exact' : ∀ pull ∈ pulls, pull.IsExact file source)
    (elsewhere : ∀ pull ∈ pulls, pull.token.kind.isStructural = false → pull.token.place ≠ place) :
    rangeFaultsAt place (pulls.flatMap Pull.journal) = [] := by
  induction pulls with
  | nil => rfl
  | cons pull rest ih =>
    rw [List.forall_mem_cons] at exact' elsewhere
    rw [List.flatMap_cons, rangeFaultsAt_append, ih exact'.2 elsewhere.2, List.append_nil, rangeFaultsAt,
      List.filter_eq_nil_iff]
    intro problem found
    have owns := exact'.1.owns problem found
    rw [owns.1, decide_eq_true_eq, Option.some.injEq]
    exact elsewhere.1 owns.plain

namespace Scanner

variable {file source : String} {limit : Int}

theorem rangeFaultsAt_run {pull : Pull} (member : pull ∈ (ofSource file limit source).run.pulls)
    (plain : pull.token.kind.isStructural = false) :
    rangeFaultsAt pull.token.place (ofSource file limit source).run.journal = rangeFaults pull.journal := by
  have each := isExact_run file limit source
  have apart : (ofSource file limit source).run.pulls.Pairwise Apart :=
    apart_runLines _ _ (Line.numbered_ofPieces 1 _)
  have own : rangeFaultsAt pull.token.place pull.journal = rangeFaults pull.journal := by
    rw [rangeFaultsAt, List.filter_eq_self]
    exact fun problem found => decide_eq_true ((each pull member).owns problem found).1
  obtain ⟨early, late, split⟩ := List.append_of_mem member
  rw [split, List.forall_mem_append, List.forall_mem_cons] at each
  rw [split, List.pairwise_append, List.pairwise_cons] at apart
  obtain ⟨-, ⟨after, -⟩, before⟩ := apart
  rw [Scan.journal, split, List.flatMap_append, List.flatMap_cons, rangeFaultsAt_append,
    rangeFaultsAt_append, own, rangeFaultsAt_eq_nil each.1, rangeFaultsAt_eq_nil each.2.2]
  · rw [List.nil_append, List.append_nil]
  · exact fun other found lexeme same => after other found plain lexeme same.symm
  · exact fun other found lexeme => before other found pull List.mem_cons_self lexeme plain

theorem isInteger_of_mem_tokens {token : Token} (member : token ∈ (ofSource file limit source).run.tokens)
    (kind : token.kind = .integer) :
    token.IsInteger file source (rangeFaultsAt token.place (ofSource file limit source).run.journal) := by
  obtain ⟨pull, pulled, rfl⟩ := List.mem_map.mp member
  rw [rangeFaultsAt_run pulled (by rw [kind]; rfl)]
  exact (isExact_run file limit source pull pulled).integer kind

theorem exists_owner {problem : Diagnostic}
    (found : problem ∈ rangeFaults (ofSource file limit source).run.journal) :
    ∃ token ∈ (ofSource file limit source).run.tokens, token.Owns problem := by
  obtain ⟨recorded, far⟩ := List.mem_filter.mp found
  obtain ⟨entry, happened, read⟩ := List.mem_filterMap.mp recorded
  obtain ⟨pull, member, inside⟩ := List.mem_flatMap.mp happened
  refine ⟨pull.token, List.mem_map_of_mem member, ?_⟩
  apply (isExact_run file limit source pull member).owns
  exact List.mem_filter.mpr ⟨List.mem_filterMap.mpr ⟨entry, inside, read⟩, far⟩

theorem exists_standsFor_of_run {before digits after : List Char}
    (done : (ofSource file limit source).run.ending = .finished)
    (split : source.toList = before ++ (digits ++ after)) (run : IsIntegerRun before digits after) :
    ∃ token ∈ (ofSource file limit source).run.tokens,
      token.kind = .integer ∧ token.place = placeAfter file before ∧
        token.StandsFor source digits
          (rangeFaultsAt token.place (ofSource file limit source).run.journal) := by
  obtain ⟨token, member, kind, here⟩ := exists_integer_of_run done split run
  obtain ⟨before', digits', after', split', run', there, value⟩ := isInteger_of_mem_tokens member kind
  rw [split] at split'
  obtain rfl := placeAfter_inj split' (here.symm.trans there)
  obtain rfl := run.digits_unique run' (List.append_cancel_left split')
  exact ⟨token, member, kind, here, value⟩

end Scanner

end Offside
