import Offside.Proofs.Scanner.Parts

/-!
A scan reads all of its source. The source falls into parts; its lexemes give the tokens, each at the
place of its first character, the characters that start nothing give one fault each, and every line
with more than blanks and comments has one end.
-/

namespace Offside

def placeAfter (file : String) (before : List Char) : Location :=
  ⟨file, 1 + before.count '\n', 1 + (before.reverse.takeWhile (· ≠ '\n')).length⟩

def Token.isInLine (token : Token) : Bool := !token.kind.isStructural || token.kind = .endOfLine

def Diagnostic.unknown? (problem : Diagnostic) : Option (Char × Option Location) :=
  match problem.cause with
  | .unknownCharacter char => some (char, problem.place)
  | _ => none

namespace Part

/-- The end of a line, if the line holds more than blanks and comments. -/
def closing (busy : Bool) (place : Location) : List Token :=
  if busy then [⟨.endOfLine, .none, place⟩] else []

/-- The tokens of the parts behind a text. `busy` tells whether their first line already holds a lexeme
or a character that starts nothing. -/
def tokens (file : String) : List Char → Bool → List Part → List Token
  | before, busy, [] => closing busy (placeAfter file before)
  | before, busy, part :: rest =>
    match part with
    | lexeme text kind payload =>
      ⟨kind, payload, placeAfter file before⟩ :: tokens file (before ++ text) true rest
    | unknown char => tokens file (before ++ [char]) true rest
    | lineEnd text => closing busy (placeAfter file before) ++ tokens file (before ++ text) false rest
    | blanks text | comment text => tokens file (before ++ text) busy rest

def unknowns (file : String) : List Char → List Part → List (Char × Option Location)
  | _, [] => []
  | before, unknown char :: rest =>
    (char, some (placeAfter file before)) :: unknowns file (before ++ [char]) rest
  | before, part :: rest => unknowns file (before ++ part.text) rest

def isContent : Part → Bool
  | lexeme _ _ _ | unknown _ => true
  | _ => false

end Part

theorem placeAfter_append (file : String) (before : List Char) {text : List Char} (flat : '\n' ∉ text) :
    placeAfter file (before ++ text) =
      ⟨file, (placeAfter file before).line, (placeAfter file before).column + text.length⟩ := by
  have none : text.count '\n' = 0 := List.count_eq_zero.mpr flat
  have all : (text.reverse ++ before.reverse).takeWhile (· ≠ '\n') =
      text.reverse ++ before.reverse.takeWhile (· ≠ '\n') := by
    rw [List.takeWhile_append_of_pos]
    intro c found
    have other : c ≠ '\n' := by
      rintro rfl
      exact flat (List.mem_reverse.mp found)
    simpa using other
  simp only [placeAfter]
  rw [List.count_append, none, List.reverse_append, all, List.length_append, List.length_reverse]
  congr 1
  omega

theorem placeAfter_inLine {file : String} {line : Line} {column : Nat} {before text : List Char}
    (here : placeAfter file before = Scanner.placeIn file line column) (flat : '\n' ∉ text) :
    placeAfter file (before ++ text) = Scanner.placeIn file line (column + text.length) := by
  rw [placeAfter_append file before flat, here]
  rfl

theorem placeAfter_lineFeed (file : String) (before : List Char) :
    placeAfter file (before ++ ['\n']) = ⟨file, (placeAfter file before).line + 1, 1⟩ := by
  simp [placeAfter, List.count_append, Int.add_assoc]

namespace Part

theorem tokens_ofSegment (file : String) (before : List Char) (busy : Bool) (segment : Segment)
    (parts : List Part) :
    tokens file before busy (ofSegment segment :: parts) =
      (segment.token?.map fun lexeme => ⟨lexeme.1, lexeme.2, placeAfter file before⟩).toList ++
        tokens file (before ++ segment.text) (busy || (ofSegment segment).isContent) parts := by
  cases segment <;> simp [tokens, ofSegment, Segment.token?, isContent, Segment.text]

theorem unknowns_ofSegment (file : String) (line : Line) {column : Nat} {before : List Char}
    (here : placeAfter file before = Scanner.placeIn file line column) (segment : Segment)
    (parts : List Part) :
    unknowns file before (ofSegment segment :: parts) =
      (problems (Scanner.segmentFaults file line column segment)).filterMap Diagnostic.unknown? ++
        unknowns file (before ++ segment.text) parts := by
  have range : (problems (if segment.isOutOfRange then
      [.recorded (Scanner.fault file line column (.numberOutOfRange (String.ofList segment.text)))]
    else [])).filterMap Diagnostic.unknown? = [] := by
    split <;> rfl
  cases segment with
  | stray char =>
    change unknowns file before (unknown char :: parts) = _
    rw [unknowns, here]
    rfl
  | _ => exact (congrArg (· ++ _) range).symm

theorem tokens_of_idle (file : String) (before : List Char) (busy : Bool) {segments : List Segment}
    (parts : List Part) (idle : ∀ segment ∈ segments, (ofSegment segment).isContent = false) :
    tokens file before busy (segments.map ofSegment ++ parts) =
      tokens file (before ++ segments.flatMap Segment.text) busy parts := by
  induction segments generalizing before with
  | nil => simp
  | cons segment rest ih =>
    rw [List.forall_mem_cons] at idle
    have none : segment.token? = none := by
      cases segment with
      | blank | comment | stray => rfl
      | _ => cases idle.1
    rw [List.map_cons, List.cons_append, tokens_ofSegment, none, idle.1, Bool.or_false, ih _ idle.2,
      List.flatMap_cons, List.append_assoc]
    rfl

theorem unknowns_of_idle (file : String) (before : List Char) {segments : List Segment}
    (parts : List Part) (idle : ∀ segment ∈ segments, (ofSegment segment).isContent = false) :
    unknowns file before (segments.map ofSegment ++ parts) =
      unknowns file (before ++ segments.flatMap Segment.text) parts := by
  induction segments generalizing before with
  | nil => simp
  | cons segment rest ih =>
    rw [List.forall_mem_cons] at idle
    rw [List.flatMap_cons, ← List.append_assoc, ← ih _ idle.2]
    cases segment with
    | stray => cases idle.1
    | _ => rfl

end Part

namespace Segment

/-- The margin of a line is at most one segment. -/
theorem exists_margin (content : List Char) :
    ∃ margin, all content = margin ++ all (content.dropWhile Line.isMargin) ∧
      margin.flatMap text = content.takeWhile Line.isMargin ∧
      ∀ segment ∈ margin, (Part.ofSegment segment).isContent = false := by
  cases content with
  | nil => exact ⟨[], rfl, rfl, List.forall_mem_nil _⟩
  | cons c cs =>
    by_cases margin : Line.isMargin c = true
    · refine ⟨[blank (c :: cs.takeWhile Line.isMargin)], ?_, ?_, ?_⟩
      · rw [all_cons, next, if_pos margin, List.dropWhile_cons_of_pos margin]
        rfl
      · rw [List.takeWhile_cons_of_pos margin, List.flatMap_singleton, text]
      · simp [Part.ofSegment, token?, Part.isContent]
    · refine ⟨[], ?_, ?_, List.forall_mem_nil _⟩
      · rw [List.dropWhile_cons_of_neg margin, List.nil_append]
      · rw [List.takeWhile_cons_of_neg margin, List.flatMap_nil]

theorem Matters.isContent {segment : Segment} (matters : segment.Matters) :
    (Part.ofSegment segment).isContent = true := by
  cases segment with
  | blank | comment => cases matters
  | _ => rfl

theorem idle_of_isIdle {line : Line} (idle : line.isIdle = true) :
    ∀ segment ∈ all line.content, (Part.ofSegment segment).isContent = false := by
  obtain ⟨margin, split, -, blank⟩ := exists_margin line.content
  have rest : ∀ segment ∈ all (line.content.dropWhile Line.isMargin),
      (Part.ofSegment segment).isContent = false := by
    unfold Line.isIdle at idle
    split at idle
    next empty =>
      rw [empty]
      exact List.forall_mem_nil _
    next c cs content =>
      rw [content, of_decide_eq_true idle, all_cons]
      exact List.forall_mem_singleton.mpr rfl
  intro segment found
  rw [split, List.mem_append] at found
  rcases found with found | found
  · exact blank segment found
  · exact rest segment found

end Segment

namespace Scanner

def unknownsOf (pulls : List Pull) : List (Char × Option Location) :=
  (problems (pulls.flatMap Pull.journal)).filterMap Diagnostic.unknown?

theorem unknownsOf_append (early late : List Pull) :
    unknownsOf (early ++ late) = unknownsOf early ++ unknownsOf late := by
  rw [unknownsOf, List.flatMap_append, problems_append, List.filterMap_append]
  rfl

theorem exists_tokens_body (file : String) (line : Line) (levels : Levels) {column : Nat}
    (waiting : List Entry) {before : List Char} {segments : List Segment}
    (here : placeAfter file before = placeIn file line column)
    (flat : ∀ segment ∈ segments, '\n' ∉ segment.text) :
    ∃ body, (bodyPulls file line levels column waiting segments).map Pull.token =
        body ++ [⟨.endOfLine, .none, placeAfter file (before ++ segments.flatMap Segment.text)⟩] ∧
      ∀ busy parts, Part.tokens file before busy (segments.map Part.ofSegment ++ parts) =
        body ++ Part.tokens file (before ++ segments.flatMap Segment.text)
          (busy || (segments.map Part.ofSegment).any Part.isContent) parts := by
  induction segments generalizing column waiting before with
  | nil =>
    refine ⟨[], ?_, fun busy parts => ?_⟩
    · rw [List.flatMap_nil, List.append_nil, here]
      rfl
    · simp
  | cons segment rest ih =>
    rw [List.forall_mem_cons] at flat
    have next := placeAfter_inLine here flat.1
    rw [bodyPulls_segment, List.flatMap_cons, ← List.append_assoc]
    cases found : segment.token? with
    | none =>
      obtain ⟨body, read, split⟩ := ih (waiting ++ segmentFaults file line column segment) next flat.2
      refine ⟨body, read, fun busy parts => ?_⟩
      rw [List.map_cons, List.cons_append, Part.tokens_ofSegment, found, split, List.any_cons,
        Bool.or_assoc]
      rfl
    | some lexeme =>
      obtain ⟨body, read, split⟩ := ih [] next flat.2
      refine ⟨⟨lexeme.1, lexeme.2, placeAfter file before⟩ :: body, ?_, fun busy parts => ?_⟩
      · rw [here, List.cons_append, ← read]
        rfl
      · rw [List.map_cons, List.cons_append, Part.tokens_ofSegment, found, split, List.any_cons,
          Bool.or_assoc]
        rfl

theorem unknowns_body (file : String) (line : Line) (levels : Levels) {column : Nat}
    (waiting : List Entry) {before : List Char} {segments : List Segment} (parts : List Part)
    (here : placeAfter file before = placeIn file line column)
    (flat : ∀ segment ∈ segments, '\n' ∉ segment.text) :
    unknownsOf (bodyPulls file line levels column waiting segments) ++
        Part.unknowns file (before ++ segments.flatMap Segment.text) parts =
      (problems waiting).filterMap Diagnostic.unknown? ++
        Part.unknowns file before (segments.map Part.ofSegment ++ parts) := by
  induction segments generalizing column waiting before with
  | nil => simp [unknownsOf, bodyPulls]
  | cons segment rest ih =>
    rw [List.forall_mem_cons] at flat
    have next := placeAfter_inLine here flat.1
    rw [bodyPulls_segment, List.flatMap_cons, ← List.append_assoc, List.map_cons, List.cons_append,
      Part.unknowns_ofSegment file line here]
    cases found : segment.token? with
    | none =>
      dsimp only
      rw [ih _ next flat.2, problems_append, List.filterMap_append, List.append_assoc]
    | some lexeme =>
      dsimp only
      rw [← List.singleton_append, unknownsOf_append, List.append_assoc, ih [] next flat.2]
      simp [unknownsOf, problems]

theorem flat_of_mem_all {content : List Char} (flat : '\n' ∉ content) :
    ∀ segment ∈ Segment.all content, '\n' ∉ segment.text := by
  intro segment found inside
  apply flat
  rw [← Segment.flatMap_text_all content]
  exact List.mem_flatMap.mpr ⟨segment, found, inside⟩

theorem filter_marginTokens (place : Location) (levels : Levels) (width : Nat) :
    (marginTokens place levels width).filter Token.isInLine = [] := by
  rw [List.filter_eq_nil_iff]
  intro token found
  rcases marginTokens_kind found with kind | kind <;> simp [Token.isInLine, kind, Kind.isStructural]

theorem filter_bodyTokens (file : String) (line : Line) (levels : Levels) (column : Nat)
    (waiting : List Entry) (content : List Char) :
    ((bodyPulls file line levels column waiting (Segment.all content)).map Pull.token).filter
        Token.isInLine =
      (bodyPulls file line levels column waiting (Segment.all content)).map Pull.token := by
  obtain ⟨body, last, same, ends, plain⟩ := exists_tokens_bodyPulls file line levels column waiting
    (fun segment => @Segment.isPlain_of_mem_all content segment)
  rw [same, List.filter_eq_self]
  intro token found
  rw [List.mem_append, List.mem_singleton] at found
  rcases found with found | rfl
  · simp [Token.isInLine, plain token found]
  · simp [Token.isInLine, ends]

theorem journal_handOut (levels : Levels) (waiting : List Entry) (tokens : List Token) :
    (handOut levels waiting tokens).flatMap Pull.journal = if tokens = [] then [] else waiting := by
  induction tokens generalizing waiting with
  | nil => rfl
  | cons token owed ih =>
    rw [handOut, List.flatMap_cons, ih, ite_self, List.append_nil, if_neg (List.cons_ne_nil _ _)]

theorem unknowns_marginPulls (file : String) (line : Line) (levels : Levels) :
    unknownsOf (marginPulls file line levels) = [] := by
  have none : (problems (marginJournal file line levels)).filterMap Diagnostic.unknown? = [] := by
    rw [problems, List.filterMap_filterMap, List.filterMap_eq_nil_iff]
    intro entry found
    unfold marginJournal at found
    dsimp only at found
    split at found
    · rw [List.mem_singleton.mp found]
      rfl
    · rw [List.mem_append] at found
      rcases found with closed | recorded
      · obtain ⟨width, -, rfl⟩ := List.mem_map.mp closed
        rfl
      · split at recorded
        · cases recorded
        · rw [List.mem_singleton.mp recorded]
          rfl
  rw [unknownsOf, marginPulls, journal_handOut]
  split
  · rfl
  · exact none

def lineOutput (file : String) (levels : Levels) (line : Line) : List Pull :=
  if line.isIdle then [] else linePulls file levels line

theorem placeAfter_margin {file : String} {line : Line} {before : List Char}
    (here : placeAfter file before = placeIn file line line.column) (flat : '\n' ∉ line.content) :
    placeAfter file (before ++ line.content.takeWhile Line.isMargin) =
      placeIn file line line.afterMargin.column := by
  have blank : '\n' ∉ line.content.takeWhile Line.isMargin :=
    fun found => flat ((List.takeWhile_sublist _).subset found)
  exact placeAfter_inLine here blank

theorem flat_afterMargin {line : Line} (flat : '\n' ∉ line.content) :
    ∀ segment ∈ Segment.all line.afterMargin.content, '\n' ∉ segment.text :=
  flat_of_mem_all fun found => flat ((List.dropWhile_sublist _).subset found)

theorem margin_append (before content : List Char) :
    before ++ content.takeWhile Line.isMargin ++
      (Segment.all (content.dropWhile Line.isMargin)).flatMap Segment.text = before ++ content := by
  rw [Segment.flatMap_text_all, List.append_assoc, List.takeWhile_append_dropWhile]

theorem exists_tokens_line {file : String} (levels : Levels) {line : Line} {before : List Char}
    (here : placeAfter file before = placeIn file line line.column) (flat : '\n' ∉ line.content) :
    ∃ body busy, ((lineOutput file levels line).map Pull.token).filter Token.isInLine =
        body ++ Part.closing busy (placeAfter file (before ++ line.content)) ∧
      ∀ parts, Part.tokens file before false
          ((Segment.all line.content).map Part.ofSegment ++ parts) =
        body ++ Part.tokens file (before ++ line.content) busy parts := by
  unfold lineOutput
  by_cases idle : line.isIdle = true
  · refine ⟨[], false, ?_, fun parts => ?_⟩
    · rw [if_pos idle]
      rfl
    · rw [Part.tokens_of_idle _ _ _ _ (Segment.idle_of_isIdle idle), Segment.flatMap_text_all]
      rfl
  · obtain ⟨margin, split, marginText, blank⟩ := Segment.exists_margin line.content
    obtain ⟨body, read, goesOn⟩ := exists_tokens_body file line (levels.after line.width) []
      (placeAfter_margin here flat) (flat_afterMargin flat)
    have whole := margin_append before line.content
    have content : (false || ((Segment.all line.afterMargin.content).map Part.ofSegment).any
        Part.isContent) = true := by
      obtain ⟨first, rest, segments, matters⟩ :=
        line.exists_segments_of_busy (Bool.eq_false_iff.mpr idle)
      rw [segments, List.map_cons, List.any_cons, matters.isContent]
      rfl
    refine ⟨body, true, ?_, fun parts => ?_⟩
    · rw [if_neg idle, linePulls, List.map_append, List.filter_append, marginPulls, tokens_handOut,
        filter_marginTokens, List.nil_append, filter_bodyTokens, read]
      exact congrArg (fun text => body ++ [⟨.endOfLine, .none, placeAfter file text⟩]) whole
    · rw [split, List.map_append, List.append_assoc, Part.tokens_of_idle _ _ _ _ blank, marginText]
      rw [← whole, ← content]
      exact goesOn false parts

theorem unknowns_line {file : String} (levels : Levels) {line : Line} {before : List Char}
    (parts : List Part) (here : placeAfter file before = placeIn file line line.column)
    (flat : '\n' ∉ line.content) :
    unknownsOf (lineOutput file levels line) ++ Part.unknowns file (before ++ line.content) parts =
      Part.unknowns file before ((Segment.all line.content).map Part.ofSegment ++ parts) := by
  unfold lineOutput
  by_cases idle : line.isIdle = true
  · rw [if_pos idle, Part.unknowns_of_idle _ _ _ (Segment.idle_of_isIdle idle),
      Segment.flatMap_text_all]
    rfl
  · obtain ⟨margin, split, marginText, blank⟩ := Segment.exists_margin line.content
    have body := unknowns_body file line (levels.after line.width) [] parts
      (placeAfter_margin here flat) (flat_afterMargin flat)
    rw [if_neg idle, linePulls, unknownsOf_append, unknowns_marginPulls, List.nil_append, split,
      List.map_append, List.append_assoc, Part.unknowns_of_idle _ _ _ blank, marginText,
      ← margin_append before line.content]
    exact body

theorem exists_runLines_cons {scanner : Scanner} {levels : Levels} {line : Line} {rest : List Line}
    (done : (runLines scanner levels (line :: rest)).ending = .finished) :
    ∃ after, (runLines scanner after rest).ending = .finished ∧
      (runLines scanner levels (line :: rest)).pulls =
        lineOutput scanner.file levels line ++ (runLines scanner after rest).pulls := by
  unfold lineOutput
  rw [runLines] at done ⊢
  by_cases idle : line.isIdle = true
  · rw [if_pos idle] at done ⊢
    exact ⟨levels, done, by rw [if_pos idle, List.nil_append]⟩
  · rw [if_neg idle] at done ⊢
    split at done
    · cases done
    next fits =>
      refine ⟨levels.after line.width, done, ?_⟩
      rw [if_neg fits, if_neg idle]

theorem tokens_finalPulls (final : Location) (levels : Levels) :
    ((finalPulls final levels).map Pull.token).filter Token.isInLine = [] := by
  obtain ⟨closing, last, same, -, dedents, ends⟩ := exists_tokens_finalPulls final levels
  rw [same, List.filter_eq_nil_iff]
  intro token found
  rw [List.mem_append, List.mem_singleton] at found
  rcases found with found | rfl
  · simp [Token.isInLine, dedents token found, Kind.isStructural]
  · simp [Token.isInLine, ends, Kind.isStructural]

theorem unknowns_finalPulls (final : Location) (levels : Levels) :
    unknownsOf (finalPulls final levels) = [] := by
  induction levels with
  | nil => rfl
  | cons width outer ih =>
    rw [finalPulls, ← List.singleton_append, unknownsOf_append, ih]
    rfl

/-- What a run shows of a text that stands behind another one. -/
structure Shows (file : String) (before text : List Char) (parts : List Part) (pulls : List Pull) :
    Prop where
  cut : Part.Cut text parts
  tokens : (pulls.map Pull.token).filter Token.isInLine = Part.tokens file before false parts
  unknowns : unknownsOf pulls = Part.unknowns file before parts

theorem shows_line {file : String} (levels : Levels) (line : Line) {before ending after : List Char}
    {parts : List Part} {pulls : List Pull}
    (here : placeAfter file before = placeIn file line line.column) (flat : '\n' ∉ line.content)
    (ends : ending = ['\n'] ∨ ending = ['\r', '\n'])
    (reaches : ReachesLineEnd line.content (ending ++ after))
    (later : Shows file (before ++ line.content ++ ending) after parts pulls) :
    Shows file before (line.content ++ ending ++ after)
      ((Segment.all line.content).map Part.ofSegment ++ Part.lineEnd ending :: parts)
      (lineOutput file levels line ++ pulls) := by
  obtain ⟨body, busy, read, goesOn⟩ := exists_tokens_line levels here flat
  have stands : (Part.lineEnd ending).Stands after := ends
  constructor
  · rw [List.append_assoc]
    exact Segment.cut_all reaches (.cons stands later.cut)
  · rw [List.map_append, List.filter_append, read, goesOn, Part.tokens, later.tokens,
      List.append_assoc]
  · rw [unknownsOf_append, later.unknowns, ← unknowns_line levels _ here flat]
    rfl

theorem shows_last {file : String} (levels : Levels) (line : Line) {before : List Char}
    {pulls : List Pull} (here : placeAfter file before = placeIn file line line.column)
    (flat : '\n' ∉ line.content) (none : (pulls.map Pull.token).filter Token.isInLine = [])
    (silent : unknownsOf pulls = []) :
    Shows file before line.content ((Segment.all line.content).map Part.ofSegment)
      (lineOutput file levels line ++ pulls) := by
  obtain ⟨body, busy, read, goesOn⟩ := exists_tokens_line levels here flat
  have reaches : ReachesLineEnd line.content [] := reachesLineEnd flat (.inl rfl) fun _ _ => by simp
  have cut := Segment.cut_all reaches .nil
  have tokens := goesOn []
  have faults := unknowns_line levels [] here flat
  rw [List.append_nil] at cut tokens faults
  constructor
  · rwa [List.append_nil] at cut
  · rw [List.map_append, List.filter_append, read, none, List.append_nil, tokens, Part.tokens]
  · rw [unknownsOf_append, silent, ← faults]
    rfl

theorem exists_shows_runLines {scanner : Scanner} {levels : Levels} {number : Nat}
    {texts : List (List Char)} {before : List Char} (some : texts ≠ [])
    (start : placeAfter scanner.file before = ⟨scanner.file, number, 1⟩)
    (flat : ∀ text ∈ texts, '\n' ∉ text)
    (done : (runLines scanner levels (Line.ofPieces number texts)).ending = .finished) :
    ∃ parts, Shows scanner.file before (['\n'].intercalate texts) parts
      (runLines scanner levels (Line.ofPieces number texts)).pulls := by
  induction texts generalizing levels number before with
  | nil => contradiction
  | cons piece rest ih =>
    rw [List.forall_mem_cons] at flat
    cases rest with
    | nil =>
      obtain ⟨after, -, same⟩ := exists_runLines_cons done
      rw [Line.ofPieces, same, List.intercalate_singleton]
      exact ⟨_, shows_last levels ⟨number, quotedLine piece, 1, piece⟩ start flat.1
        (tokens_finalPulls _ _) (unknowns_finalPulls _ _)⟩
    | cons next others =>
      obtain ⟨after, finished, same⟩ := exists_runLines_cons done
      obtain ⟨ending, ends, whole, flat', reaches⟩ :=
        exists_lineEnd flat.1 (['\n'].intercalate (next :: others))
      have fresh : placeAfter scanner.file (before ++ dropReturn piece ++ ending) =
          ⟨scanner.file, (number + 1 : Nat), 1⟩ := by
        rw [List.append_assoc, whole, ← List.append_assoc, placeAfter_lineFeed,
          placeAfter_append _ _ flat.1, start]
        rfl
      obtain ⟨parts, later⟩ := ih (List.cons_ne_nil _ _) fresh flat.2 finished
      have text : ['\n'].intercalate (piece :: next :: others) =
          dropReturn piece ++ ending ++ ['\n'].intercalate (next :: others) := by
        rw [List.intercalate_cons_cons, whole]
      rw [Line.ofPieces, same, text]
      · exact ⟨_, shows_line levels ⟨number, quotedLine piece, 1, dropReturn piece⟩ start flat' ends
          reaches later⟩
      · exact List.cons_ne_nil _ _

/-- The source of a scan that reaches its end falls into parts: blanks, comments, line ends, lexemes
that what follows them does not extend, and characters that start nothing. The tokens are those of the
lexemes, each at the place of its first character, with one end for each line that holds more than
blanks and comments; and each character that starts nothing is recorded once, at its place. -/
theorem scan_partitions_source {file : String} {limit : Int} {source : String}
    (done : (ofSource file limit source).run.ending = .finished) :
    ∃ parts : List Part, parts.flatMap Part.text = source.toList ∧ Part.Cut source.toList parts ∧
      (ofSource file limit source).run.tokens.filter Token.isInLine =
        Part.tokens file [] false parts ∧
      (problems (ofSource file limit source).run.journal).filterMap Diagnostic.unknown? =
        Part.unknowns file [] parts := by
  have start : placeAfter file [] = ⟨file, (1 : Nat), 1⟩ := rfl
  obtain ⟨parts, cut, tokens, unknowns⟩ := exists_shows_runLines (pieces_ne_nil source.toList) start
    (flat_of_mem_pieces source.toList) done
  rw [intercalate_pieces] at cut
  exact ⟨parts, cut.flatMap_text, cut, tokens, unknowns⟩

/-- Points that start no fraction, a bang alone, a comment, a lone return and lines without content. -/
def oddSource : String := "x = 1..5 # half\r\n\t\n  if !a != .5:\r\r\n   y=9999999999999999999"

theorem scan_partitions_source_odd :
    (ofSource "odd.mpy" 2 oddSource).run.ending = .finished ∧
    ∃ parts : List Part, parts.flatMap Part.text = oddSource.toList ∧ Part.Cut oddSource.toList parts ∧
      (ofSource "odd.mpy" 2 oddSource).run.tokens.filter Token.isInLine =
        Part.tokens "odd.mpy" [] false parts ∧
      (problems (ofSource "odd.mpy" 2 oddSource).run.journal).filterMap Diagnostic.unknown? =
        Part.unknowns "odd.mpy" [] parts := by
  have done : (ofSource "odd.mpy" 2 oddSource).run.ending = .finished := by decide +kernel
  exact ⟨done, scan_partitions_source done⟩

example :
    (problems (ofSource "odd.mpy" 2 oddSource).run.journal).filterMap Diagnostic.unknown? =
      [('.', some ⟨"odd.mpy", 1, 6⟩), ('!', some ⟨"odd.mpy", 3, 6⟩),
        ('\r', some ⟨"odd.mpy", 3, 15⟩)] := by
  decide +kernel

end Scanner

end Offside
