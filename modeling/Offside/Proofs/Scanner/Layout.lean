import Offside.Scanner

/-!
The layout of scanned tokens. Each line with content gives what its margin opens or closes, then its
lexemes, then its end; the end of the input closes what is still open.
-/

namespace Offside

@[simp]
theorem problems_append (early late : List Entry) :
    problems (early ++ late) = problems early ++ problems late :=
  List.filterMap_append

namespace Kind

def IsMargin (margin : List Kind) : Prop :=
  margin = [.indent] ∨ ∃ count, margin = List.replicate count .dedent

def IsLine (line : List Kind) : Prop :=
  ∃ margin body, line = margin ++ body ++ [.endOfLine] ∧ IsMargin margin ∧
    ∀ kind ∈ body, kind.isStructural = false

/-- Lines, blocks closed at the end, and one end of input. -/
def IsLayout (kinds : List Kind) : Prop :=
  ∃ (lines : List (List Kind)) (count : Nat), (∀ line ∈ lines, IsLine line) ∧
    kinds = lines.flatten ++ List.replicate count .dedent ++ [.endOfInput]

theorem IsLayout.cons_line {line kinds : List Kind} (first : IsLine line) (layout : IsLayout kinds) :
    IsLayout (line ++ kinds) := by
  obtain ⟨lines, count, each, rfl⟩ := layout
  refine ⟨line :: lines, count, ?_, ?_⟩
  · rw [List.forall_mem_cons]
    exact ⟨first, each⟩
  · rw [List.flatten_cons, List.append_assoc, List.append_assoc, List.append_assoc]

theorem IsMargin.ne_endOfInput {margin : List Kind} (small : IsMargin margin) :
    ∀ kind ∈ margin, kind ≠ .endOfInput := by
  rcases small with rfl | ⟨count, rfl⟩
  · simp
  · intro kind found
    rw [List.eq_of_mem_replicate found]
    decide

theorem IsLine.count_endOfInput {line : List Kind} (shape : IsLine line) :
    line.count .endOfInput = 0 := by
  obtain ⟨margin, body, rfl, small, plain⟩ := shape
  rw [List.count_eq_zero]
  intro found
  rw [List.mem_append, List.mem_append] at found
  rcases found with (found | found) | found
  · exact small.ne_endOfInput _ found rfl
  · exact absurd (plain _ found) (by decide)
  · exact absurd found (by decide)

theorem IsLayout.count_endOfInput {kinds : List Kind} (layout : IsLayout kinds) :
    kinds.count .endOfInput = 1 := by
  obtain ⟨lines, count, each, rfl⟩ := layout
  have inner : lines.flatten.count .endOfInput = 0 := by
    rw [List.count_eq_zero]
    intro found
    obtain ⟨line, member, found⟩ := List.mem_flatten.mp found
    exact List.count_eq_zero.mp (each line member).count_endOfInput found
  rw [List.count_append, List.count_append, inner, List.count_replicate]
  rfl

end Kind

namespace Pull

def kinds (pulls : List Pull) : List Kind := pulls.map (·.token.kind)

@[simp]
theorem kinds_append (early late : List Pull) : kinds (early ++ late) = kinds early ++ kinds late :=
  List.map_append

theorem kinds_eq_map (pulls : List Pull) : kinds pulls = (pulls.map Pull.token).map Token.kind := by
  rw [kinds, List.map_map]
  rfl

end Pull

namespace Segment

def IsPlain (segment : Segment) : Prop :=
  ∀ kind payload, segment.token? = some (kind, payload) → kind.isStructural = false

theorem pair?_plain {c : Char} {kind : Kind} (found : pair? c = some kind) :
    kind.isStructural = false := by
  have none : (pair? c).any Kind.isStructural = false := by
    simp only [pair?, apply_ite (Option.any Kind.isStructural), Option.any_some, Option.any_none,
      Kind.isStructural, ite_self]
  rwa [found] at none

theorem single?_plain {c : Char} {kind : Kind} (found : single? c = some kind) :
    kind.isStructural = false := by
  have none : (single? c).any Kind.isStructural = false := by
    simp only [single?, apply_ite (Option.any Kind.isStructural), Option.any_some, Option.any_none,
      Kind.isStructural, ite_self]
  rwa [found] at none

theorem wordKind_plain (word : String) : (wordKind word).isStructural = false := by
  simp only [wordKind, apply_ite Kind.isStructural]
  simp only [Kind.isStructural, ite_self]

theorem isPlain_symbol {kind : Kind} {text : List Char} (plain : kind.isStructural = false) :
    (symbol kind text).IsPlain := by
  intro other payload same
  cases same
  exact plain

theorem isPlain_word (text : List Char) : (word text).IsPlain := by
  intro kind payload same
  cases same
  exact wordKind_plain _

theorem isPlain_number (c : Char) (cs : List Char) : (number c cs).1.IsPlain := by
  intro kind payload same
  simp only [number] at same
  split at same <;> cases same <;> rfl

theorem isPlain_singleOrStray (c : Char) : (singleOrStray c).IsPlain := by
  unfold singleOrStray
  split
  next kind found => exact isPlain_symbol (single?_plain found)
  next => simp [IsPlain, token?]

theorem isPlain_symbolOrStray (c : Char) (cs : List Char) : (symbolOrStray c cs).1.IsPlain := by
  unfold symbolOrStray
  split
  next kind rest found => exact isPlain_symbol (pair?_plain found)
  next => exact isPlain_singleOrStray c

theorem isPlain_next (c : Char) (cs : List Char) : (next c cs).1.IsPlain := by
  unfold next
  split
  next => simp [IsPlain, token?]
  split
  next => simp [IsPlain, token?]
  split
  next => exact isPlain_word _
  split
  next => exact isPlain_number c cs
  split
  next =>
    intro kind payload same
    cases same
    rfl
  next => exact isPlain_symbolOrStray c cs

theorem exists_next_of_mem_upTo {count : Nat} {text : List Char} {segment : Segment}
    (found : segment ∈ upTo count text) : ∃ c cs, segment = (next c cs).1 := by
  fun_induction upTo count text with
  | case1 => cases found
  | case2 => cases found
  | case3 count c cs step ih =>
    rcases List.mem_cons.mp found with rfl | found
    · exact ⟨c, cs, rfl⟩
    · exact ih found

theorem isPlain_of_mem_all {text : List Char} {segment : Segment} (found : segment ∈ all text) :
    segment.IsPlain := by
  obtain ⟨c, cs, rfl⟩ := exists_next_of_mem_upTo found
  exact isPlain_next c cs

/-- A segment that gives a token or a fault. -/
def Matters : Segment → Prop
  | stray _ => True
  | segment => segment.token?.isSome

theorem Matters.token? {segment : Segment} (matters : segment.Matters) :
    (∃ char, segment = stray char) ∨ segment.token?.isSome := by
  cases segment with
  | stray char => exact .inl ⟨char, rfl⟩
  | _ => exact .inr matters

theorem matters_next {c : Char} {cs : List Char} (inside : Line.isMargin c = false)
    (read : c ≠ '#') : (next c cs).1.Matters := by
  unfold next
  rw [if_neg (by simp [inside]), if_neg read]
  split
  next => rfl
  split
  next =>
    simp only [number]
    split <;> rfl
  split
  next => rfl
  next =>
    unfold symbolOrStray
    split
    next => rfl
    next =>
      unfold singleOrStray
      split
      · rfl
      · trivial

end Segment

theorem Line.exists_segments_of_busy (line : Line) (busy : line.isIdle = false) :
    ∃ first rest, Segment.all line.afterMargin.content = first :: rest ∧ first.Matters := by
  unfold isIdle at busy
  unfold afterMargin
  split at busy
  next => cases busy
  next c cs content =>
    have inside : isMargin c = false := by
      have head := List.head?_dropWhile_not isMargin line.content
      rw [content] at head
      simpa using head
    rw [content]
    exact ⟨_, _, rfl, Segment.matters_next inside (by simpa using busy)⟩

namespace Scanner

theorem kinds_marginTokens (place : Location) (levels : Levels) (width : Nat) :
    (marginTokens place levels width).map Token.kind =
      if levels.top < width then [.indent]
      else List.replicate (levels.closedBy width).length .dedent := by
  unfold marginTokens
  split
  · rfl
  · rw [List.map_map, ← List.map_const']
    rfl

theorem isMargin_marginTokens (place : Location) (levels : Levels) (width : Nat) :
    Kind.IsMargin ((marginTokens place levels width).map Token.kind) := by
  rw [kinds_marginTokens]
  split
  · exact .inl rfl
  · exact .inr ⟨_, rfl⟩

theorem marginTokens_kind {place : Location} {levels : Levels} {width : Nat} {token : Token}
    (found : token ∈ marginTokens place levels width) :
    token.kind = .indent ∨ token.kind = .dedent := by
  have kind := List.mem_map_of_mem (f := Token.kind) found
  rw [kinds_marginTokens] at kind
  split at kind
  · exact .inl (List.mem_singleton.mp kind)
  · exact .inr (List.eq_of_mem_replicate kind)

@[simp]
theorem tokens_handOut (levels : Levels) (waiting : List Entry) (tokens : List Token) :
    (handOut levels waiting tokens).map Pull.token = tokens := by
  induction tokens generalizing waiting with
  | nil => rfl
  | cons token owed ih => rw [handOut, List.map_cons, ih]

def segmentFaults (file : String) (line : Line) (column : Nat) (segment : Segment) : List Entry :=
  match segment with
  | .stray char => [.recorded (fault file line column (.unknownCharacter char))]
  | _ =>
    if segment.isOutOfRange then
      [.recorded (fault file line column (.numberOutOfRange (String.ofList segment.text)))]
    else []

/-- A segment gives the next token, or its fault waits with what happened before. -/
theorem bodyPulls_segment (file : String) (line : Line) (levels : Levels) (column : Nat)
    (waiting : List Entry) (segment : Segment) (rest : List Segment) :
    bodyPulls file line levels column waiting (segment :: rest) =
      match segment.token? with
      | some (kind, payload) =>
        ⟨waiting ++ segmentFaults file line column segment, ⟨kind, payload, placeIn file line column⟩,
            levels, []⟩
          :: bodyPulls file line levels (column + segment.text.length) [] rest
      | none => bodyPulls file line levels (column + segment.text.length)
          (waiting ++ segmentFaults file line column segment) rest := by
  cases segment with
  | blank text => simp [bodyPulls, segmentFaults, Segment.token?, Segment.isOutOfRange]
  | comment text => simp [bodyPulls, segmentFaults, Segment.token?, Segment.isOutOfRange]
  | _ => rfl

theorem bodyPulls_cons (file : String) (line : Line) (levels : Levels) (column : Nat)
    (waiting : List Entry) (segment : Segment) (rest : List Segment) :
    (∃ kind payload range, segment.token? = some (kind, payload) ∧
      bodyPulls file line levels column waiting (segment :: rest) =
        ⟨waiting ++ range, ⟨kind, payload, placeIn file line column⟩, levels, []⟩
          :: bodyPulls file line levels (column + segment.text.length) [] rest) ∨
    ∃ faults, segment.token? = none ∧ (∀ char, segment = .stray char → problems faults ≠ []) ∧
      bodyPulls file line levels column waiting (segment :: rest) =
        bodyPulls file line levels (column + segment.text.length) (waiting ++ faults) rest := by
  rw [bodyPulls_segment]
  cases segment.token? with
  | some lexeme => exact .inl ⟨lexeme.1, lexeme.2, _, rfl, rfl⟩
  | none =>
    refine .inr ⟨segmentFaults file line column segment, rfl, ?_, rfl⟩
    rintro char rfl
    exact List.cons_ne_nil _ _

theorem exists_tokens_bodyPulls (file : String) (line : Line) (levels : Levels) (column : Nat)
    (waiting : List Entry) {segments : List Segment}
    (plain : ∀ segment ∈ segments, segment.IsPlain) :
    ∃ body last, (bodyPulls file line levels column waiting segments).map Pull.token =
        body ++ [last] ∧ last.kind = .endOfLine ∧
      ∀ token ∈ body, token.kind.isStructural = false := by
  induction segments generalizing column waiting with
  | nil => exact ⟨[], _, rfl, rfl, List.forall_mem_nil _⟩
  | cons segment rest ih =>
    have others : ∀ other ∈ rest, other.IsPlain := fun other member => plain other (by simp [member])
    rcases bodyPulls_cons file line levels column waiting segment rest with
      ⟨kind, payload, range, found, same⟩ | ⟨faults, _, _, same⟩
    · rw [same]
      obtain ⟨body, last, tokens, ends, later⟩ :=
        ih (column + segment.text.length) [] others
      refine ⟨⟨kind, payload, placeIn file line column⟩ :: body, last, ?_, ends, ?_⟩
      · rw [List.map_cons, tokens, List.cons_append]
      · rw [List.forall_mem_cons]
        exact ⟨plain segment (by simp) kind payload found, later⟩
    · rw [same]
      exact ih _ _ others

theorem mem_journal_bodyPulls (file : String) (line : Line) (levels : Levels) (column : Nat)
    (segments : List Segment) {waiting : List Entry} {entry : Entry} (waits : entry ∈ waiting) :
    entry ∈ (bodyPulls file line levels column waiting segments).flatMap Pull.journal := by
  induction segments generalizing column waiting with
  | nil => simpa [bodyPulls] using waits
  | cons segment rest ih =>
    rcases bodyPulls_cons file line levels column waiting segment rest with
      ⟨kind, payload, range, found, same⟩ | ⟨faults, _, _, same⟩
    · rw [same, List.flatMap_cons]
      exact List.mem_append_left _ (List.mem_append_left _ waits)
    · rw [same]
      exact ih _ (List.mem_append_left _ waits)

theorem ne_nil_of_matters {file : String} {line : Line} {levels : Levels} {column : Nat}
    {waiting : List Entry} {first : Segment} {rest : List Segment} {body : List Token} {last : Token}
    (matters : first.Matters) (plain : first.IsPlain)
    (tokens : (bodyPulls file line levels column waiting (first :: rest)).map Pull.token =
      body ++ [last]) (ends : last.kind = .endOfLine)
    (clean : problems ((bodyPulls file line levels column waiting (first :: rest)).flatMap
      Pull.journal) = []) : body ≠ [] := by
  rcases bodyPulls_cons file line levels column waiting first rest with
    ⟨kind, payload, range, found, same⟩ | ⟨faults, none, recorded, same⟩
  · rintro rfl
    rw [same, List.map_cons, List.nil_append, List.cons.injEq] at tokens
    have structural : kind.isStructural = true := by
      rw [← tokens.1] at ends
      rw [show kind = .endOfLine from ends]
      rfl
    rw [plain kind payload found] at structural
    cases structural
  · rcases matters.token? with ⟨char, stray⟩ | some
    · rw [same] at clean
      obtain ⟨problem, member⟩ := List.exists_mem_of_ne_nil _ (recorded char stray)
      obtain ⟨entry, found, read⟩ := List.mem_filterMap.mp member
      have kept := mem_journal_bodyPulls file line levels (column + first.text.length) rest
        (List.mem_append_right waiting found)
      have still : problem ∈ problems _ := List.mem_filterMap.mpr ⟨entry, kept, read⟩
      rw [clean] at still
      cases still
    · rw [none] at some
      cases some

/-- A line with content gives its margin, its lexemes and its end. There is a lexeme unless a fault
was recorded. -/
theorem exists_tokens_linePulls (file : String) (levels : Levels) {line : Line}
    (busy : line.isIdle = false) :
    ∃ body last, (linePulls file levels line).map Pull.token =
        marginTokens (placeIn file line (line.column + line.width)) levels line.width ++
          (body ++ [last]) ∧
      last.kind = .endOfLine ∧ (∀ token ∈ body, token.kind.isStructural = false) ∧
      (problems ((linePulls file levels line).flatMap Pull.journal) = [] → body ≠ []) := by
  obtain ⟨first, rest, segments, matters⟩ := line.exists_segments_of_busy busy
  have each : ∀ segment ∈ Segment.all line.afterMargin.content, segment.IsPlain :=
    fun segment found => Segment.isPlain_of_mem_all found
  rw [linePulls, segments]
  rw [segments] at each
  obtain ⟨body, last, tokens, ends, plain⟩ := exists_tokens_bodyPulls file line
    (levels.after line.width) line.afterMargin.column [] each
  refine ⟨body, last, ?_, ends, plain, ?_⟩
  · rw [List.map_append, tokens, marginPulls, tokens_handOut]
  · intro clean
    refine ne_nil_of_matters matters (each first (by simp)) tokens ends ?_
    rw [List.flatMap_append, problems_append, List.append_eq_nil_iff] at clean
    exact clean.2

theorem isLine_linePulls (file : String) (levels : Levels) {line : Line} (busy : line.isIdle = false) :
    Kind.IsLine (Pull.kinds (linePulls file levels line)) := by
  obtain ⟨body, last, tokens, ends, plain, _⟩ := exists_tokens_linePulls file levels busy
  refine ⟨_, body.map Token.kind, ?_,
    isMargin_marginTokens (placeIn file line (line.column + line.width)) levels line.width, ?_⟩
  · rw [Pull.kinds_eq_map, tokens, List.map_append, List.map_append, List.append_assoc, List.map_singleton,
      ends]
  · simpa using plain

theorem kinds_finalPulls (final : Location) (levels : Levels) :
    Pull.kinds (finalPulls final levels) = List.replicate levels.length .dedent ++ [.endOfInput] := by
  induction levels with
  | nil => rfl
  | cons width outer ih =>
    rw [List.length_cons, List.replicate_succ, List.cons_append, ← ih]
    rfl

theorem exists_tokens_finalPulls (final : Location) (levels : Levels) :
    ∃ closing last, (finalPulls final levels).map Pull.token = closing ++ [last] ∧
      closing.length = levels.length ∧ (∀ token ∈ closing, token.kind = .dedent) ∧
      last.kind = .endOfInput := by
  have kinds := kinds_finalPulls final levels
  rw [Pull.kinds_eq_map] at kinds
  obtain ⟨closing, rest, same, dedents, end'⟩ := List.map_eq_append_iff.mp kinds
  obtain ⟨last, rfl, ends⟩ := List.map_eq_singleton_iff.mp end'
  refine ⟨closing, last, same, ?_, ?_, ends⟩
  · rw [← List.length_map Token.kind, dedents, List.length_replicate]
  · intro token found
    exact List.eq_of_mem_replicate (dedents ▸ List.mem_map_of_mem found)

theorem forall_mem_runLines {P : Pull → Prop} (scanner : Scanner) (levels : Levels) (lines : List Line)
    (onLine : ∀ line ∈ lines, line.isIdle = false →
      ∀ levels, ∀ pull ∈ linePulls scanner.file levels line, P pull)
    (atEnd : ∀ levels, ∀ pull ∈ finalPulls scanner.final levels, P pull) :
    ∀ pull ∈ (runLines scanner levels lines).pulls, P pull := by
  fun_induction runLines scanner levels lines with
  | case1 levels => exact atEnd levels
  | case2 levels line rest idle ih =>
    rw [List.forall_mem_cons] at onLine
    exact ih onLine.2
  | case3 levels line rest busy deep problem => exact List.forall_mem_nil _
  | case4 levels line rest busy fits later ih =>
    rw [List.forall_mem_cons] at onLine
    intro pull member
    rcases List.mem_append.mp member with here | after
    · exact onLine.1 (Bool.eq_false_iff.mpr busy) levels pull here
    · exact ih onLine.2 pull after

/-- A run that does not reach the end stops behind the margin of a line, at one level too many. -/
theorem exists_line_of_overflow {scanner : Scanner} {levels : Levels} {lines : List Line}
    {problem : Diagnostic} (stopped : (runLines scanner levels lines).ending = .overflow problem) :
    ∃ line ∈ lines, line.isIdle = false ∧
      problem = fault scanner.file line (line.column + line.width) (.tooManyLevels scanner.limit) := by
  fun_induction runLines scanner levels lines with
  | case1 levels => cases stopped
  | case2 levels line rest idle ih =>
    obtain ⟨other, member, found⟩ := ih stopped
    exact ⟨other, List.mem_cons_of_mem _ member, found⟩
  | case3 levels line rest busy deep found =>
    exact ⟨line, List.mem_cons_self, Bool.eq_false_iff.mpr busy, (Ending.overflow.inj stopped).symm⟩
  | case4 levels line rest busy fits later ih =>
    obtain ⟨other, member, found⟩ := ih stopped
    exact ⟨other, List.mem_cons_of_mem _ member, found⟩

end Scanner

end Offside
