import Offside.Resolution
import Offside.Proofs.Scanner.Lines

/-!
What stands at the places of a scan. A lexeme and a character that starts nothing are at their first
character, the tokens and faults of a margin at the first character behind it, the end of a line at the
end of its content, and the tokens of the end of input behind the whole source. A fault quotes the line
that its place is in.
-/

namespace Offside

def StartsLine (before : List Char) : Prop := before = [] ∨ before.getLast? = some '\n'

/-- The place of the first character of a line that is neither a blank nor in a comment. -/
structure StartsContent (before after : List Char) : Prop where
  margin : ∃ lines blanks, before = lines ++ blanks ∧ StartsLine lines ∧
    ∀ c ∈ blanks, c = ' ' ∨ c = '\t'
  content : ∃ c rest, after = c :: rest ∧ c ≠ ' ' ∧ c ≠ '\t' ∧ c ≠ '#'
  inside : startsLineEnd after = false

structure EndsContent (before after : List Char) : Prop where
  ends : EndsLine after
  whole : before.getLast? = some '\r' → after.head? ≠ some '\n'

/-- What a token stands for in a source that is cut at its place. -/
def Token.Marks (before after : List Char) (token : Token) : Prop :=
  match token.kind with
  | .indent => StartsContent before after
  | .dedent => StartsContent before after ∨ after = []
  | .endOfLine => EndsContent before after
  | .endOfInput => after = []
  | kind => ∃ text rest, after = text ++ rest ∧ text ≠ [] ∧ Reads text kind token.payload rest

def Cause.Marks (before after : List Char) : Cause → Prop
  | unknownCharacter char => ∃ rest, after = char :: rest ∧ StartsNothing char rest
  | numberOutOfRange lexeme => ∃ kind payload rest, after = lexeme.toList ++ rest ∧
      (kind = .integer ∨ kind = .float) ∧ lexeme.toList ≠ [] ∧ Reads lexeme.toList kind payload rest
  | misalignedDedent _ _ | tooManyLevels _ => StartsContent before after
  | _ => False

def Location.Cuts (file : String) (source : String) (sides : List Char → List Char → Prop)
    (place : Location) : Prop :=
  ∃ before after, source.toList = before ++ after ∧ place = placeAfter file before ∧ sides before after

def Diagnostic.IsPlaced (file : String) (source : String) (problem : Diagnostic) : Prop :=
  ∃ place, problem.place = some place ∧ problem.line = lineAt? (quotedLines source) place.line ∧
    place.Cuts file source fun before after => problem.cause.Marks before after

/-- A token that is at its place, as are the faults found before it. -/
structure Pull.IsPlaced (file : String) (source : String) (pull : Pull) : Prop where
  token : pull.token.place.Cuts file source fun before after => pull.token.Marks before after
  faults : ∀ problem ∈ problems pull.journal, problem.IsPlaced file source

theorem Reads.ne_nil {text rest : List Char} {kind : Kind} {payload : Payload}
    (reads : Reads text kind payload rest) : text ≠ [] := by
  cases reads with
  | reserved listed stops =>
    have each : ∀ entry ∈ reservedWords, entry.1.toList ≠ [] := by decide
    exact each _ listed
  | name starts others free stops => exact List.cons_ne_nil _ _
  | integer some digits stops whole => exact some
  | float whole some fraction stops rounded =>
    exact List.append_ne_nil_of_right_ne_nil _ (List.cons_ne_nil _ _)
  | symbol listed stops =>
    have each : ∀ entry ∈ symbols, entry.1 ≠ [] := by decide
    exact each _ listed

theorem Reads.not_structural {text rest : List Char} {kind : Kind} {payload : Payload}
    (reads : Reads text kind payload rest) : kind.isStructural = false := by
  cases reads with
  | reserved listed stops =>
    have each : ∀ entry ∈ reservedWords, entry.2.1.isStructural = false := by decide
    exact each _ listed
  | symbol listed stops =>
    have each : ∀ entry ∈ symbols, entry.2.isStructural = false := by decide
    exact each _ listed
  | _ => rfl

theorem Token.marks_of_reads {token : Token} (before : List Char) {text rest : List Char}
    (reads : Reads text token.kind token.payload rest) : token.Marks before (text ++ rest) := by
  have plain := reads.not_structural
  unfold Marks
  split
  next kind => rw [kind] at plain; cases plain
  next kind => rw [kind] at plain; cases plain
  next kind => rw [kind] at plain; cases plain
  next kind => rw [kind] at plain; cases plain
  next => exact ⟨text, rest, rfl, reads.ne_nil, reads⟩

theorem Part.reads_of_stands {segment : Segment} {kind : Kind} {payload : Payload} {rest : List Char}
    (found : segment.token? = some (kind, payload)) (stands : (ofSegment segment).Stands rest) :
    Reads segment.text kind payload rest := by
  cases segment with
  | blank | comment | stray => cases found
  | _ =>
    cases found
    exact stands

namespace Line

/-- A line of a source, and the texts before and behind it. -/
structure Stands (file : String) (source : String) (before after : List Char) (line : Line) : Prop where
  whole : source.toList = before ++ line.content ++ after
  here : placeAfter file before = Scanner.placeIn file line line.column
  fresh : StartsLine before
  flat : '\n' ∉ line.content
  reaches : ReachesLineEnd line.content after
  quoted : lineAt? (quotedLines source) line.number = some line.quote

theorem exists_piece_of_mem {number : Nat} {texts : List (List Char)} {line : Line}
    (member : line ∈ ofPieces number texts) :
    ∃ early piece late, texts = early ++ piece :: late ∧
      line = ⟨number + early.length, quotedLine piece, 1,
        if late = [] then piece else dropReturn piece⟩ := by
  fun_induction ofPieces number texts with
  | case1 number => cases member
  | case2 number last =>
    cases List.mem_singleton.mp member
    exact ⟨[], last, [], rfl, rfl⟩
  | case3 number piece rest more ih =>
    rcases List.mem_cons.mp member with rfl | later
    · refine ⟨[], piece, rest, rfl, ?_⟩
      rw [if_neg fun none => more none]
      rfl
    · obtain ⟨early, other, late, same, found⟩ := ih later
      refine ⟨piece :: early, other, late, congrArg (piece :: ·) same, ?_⟩
      rw [found, List.length_cons, Nat.add_assoc, Nat.add_comm 1]

end Line

theorem intercalate_lineFeed (early : List (List Char)) (piece : List Char) (late : List (List Char)) :
    ['\n'].intercalate (early ++ piece :: late) =
      early.flatMap (· ++ ['\n']) ++ (piece ++ late.flatMap ('\n' :: ·)) := by
  have tail (piece : List Char) (late : List (List Char)) :
      ['\n'].intercalate (piece :: late) = piece ++ late.flatMap ('\n' :: ·) := by
    induction late generalizing piece with
    | nil => simp
    | cons next others ih => rw [List.intercalate_cons_cons, ih next]; simp
  induction early with
  | nil => exact tail piece late
  | cons first others ih =>
    obtain ⟨next, more, same⟩ : ∃ next more, others ++ piece :: late = next :: more := by
      cases others with
      | nil => exact ⟨_, _, rfl⟩
      | cons second rest => exact ⟨_, _, rfl⟩
    rw [List.cons_append, same, List.intercalate_cons_cons, ← same, ih, List.flatMap_cons]
    simp only [List.append_assoc]

theorem placeAfter_lines (file : String) (early : List (List Char)) (flat : ∀ piece ∈ early, '\n' ∉ piece) :
    placeAfter file (early.flatMap (· ++ ['\n'])) = ⟨file, early.length + 1, 1⟩ ∧
      StartsLine (early.flatMap (· ++ ['\n'])) := by
  induction early using List.reverseRecOn with
  | nil => exact ⟨rfl, .inl rfl⟩
  | append_singleton early piece ih =>
    rw [List.forall_mem_append, List.forall_mem_singleton] at flat
    have text : (early ++ [piece]).flatMap (· ++ ['\n']) =
        early.flatMap (· ++ ['\n']) ++ piece ++ ['\n'] := by
      rw [List.flatMap_append, List.flatMap_singleton, List.append_assoc]
    rw [text, placeAfter_lineFeed, placeAfter_append _ _ flat.2, (ih flat.1).1, List.length_append]
    exact ⟨rfl, .inr List.getLast?_concat⟩

theorem Line.exists_stands (file : String) {source : String} {line : Line}
    (member : line ∈ ofPieces 1 (pieces source.toList)) :
    ∃ before after, line.Stands file source before after := by
  obtain ⟨early, piece, late, cut, rfl⟩ := exists_piece_of_mem member
  have flat := flat_of_mem_pieces source.toList
  rw [cut, List.forall_mem_append, List.forall_mem_cons] at flat
  obtain ⟨start, fresh⟩ := placeAfter_lines file early flat.1
  have whole := intercalate_lineFeed early piece late
  rw [← cut, intercalate_pieces] at whole
  have here : placeAfter file (early.flatMap (· ++ ['\n'])) = ⟨file, (1 + early.length : Nat), 1⟩ := by
    rw [start, Nat.add_comm]
    rfl
  have quoted : lineAt? (quotedLines source) (1 + early.length : Nat) = some (quotedLine piece) := by
    have index : (((1 + early.length : Nat) : Int) - 1).toNat = early.length := by omega
    rw [lineAt?, if_pos (by omega), index, quotedLines, cut]
    simp
  cases late with
  | nil =>
    refine ⟨early.flatMap (· ++ ['\n']), [], ?_, here, fresh, flat.2.1, ?_, quoted⟩
    · rw [whole, if_pos rfl, List.flatMap_nil, List.append_assoc]
    · exact reachesLineEnd flat.2.1 (.inl rfl) fun _ _ => by simp
  | cons next others =>
    obtain ⟨ending, -, ended, flat', reaches⟩ :=
      exists_lineEnd flat.2.1 (next ++ others.flatMap ('\n' :: ·))
    refine ⟨early.flatMap (· ++ ['\n']), ending ++ (next ++ others.flatMap ('\n' :: ·)), ?_, here, fresh,
      flat', reaches, quoted⟩
    rw [if_neg (List.cons_ne_nil _ _), List.append_assoc, ← List.append_assoc (dropReturn piece), ended,
      whole, List.flatMap_cons, List.append_assoc]
    rfl

namespace Line.Stands

variable {file source : String} {before after : List Char} {line : Line}

theorem endsContent (stands : line.Stands file source before after) :
    EndsContent (before ++ line.content) after := by
  refine ⟨stands.reaches.ends, fun last feed => ?_⟩
  obtain ⟨rest, rfl⟩ : ∃ rest, after = '\n' :: rest := by
    cases after with
    | nil => cases feed
    | cons c rest => exact ⟨rest, congrArg (· :: rest) (Option.some.inj feed)⟩
  rcases List.eq_nil_or_concat line.content with empty | ⟨front, c, content⟩
  · rw [empty, List.append_nil] at last
    rcases stands.fresh with rfl | feed
    · cases last
    · rw [last] at feed
      cases feed
  · rw [List.concat_eq_append] at content
    rw [content, ← List.append_assoc, List.getLast?_concat] at last
    cases last
    have inside := stands.reaches.inside front ['\r'] content (List.cons_ne_nil _ _)
    cases inside

theorem startsContent (stands : line.Stands file source before after) (busy : line.isIdle = false) :
    StartsContent (before ++ line.content.takeWhile isMargin)
      (line.content.dropWhile isMargin ++ after) := by
  unfold isIdle at busy
  split at busy
  next => cases busy
  next c rest content =>
    have inside : isMargin c = false := by
      have head := List.head?_dropWhile_not isMargin line.content
      rw [content] at head
      simpa using head
    have visible : c ≠ ' ' ∧ c ≠ '\t' := by simpa [isMargin] using inside
    refine ⟨⟨before, _, rfl, stands.fresh, ?_⟩, ?_, ?_⟩
    · intro d found
      have blank := List.all_eq_true.mp List.all_takeWhile d found
      simpa [isMargin] using blank
    · exact ⟨c, rest ++ after, by rw [content]; rfl, visible.1, visible.2, by simpa using busy⟩
    · exact stands.reaches.inside _ _ List.takeWhile_append_dropWhile.symm (by simp [content])

theorem cuts_margin (stands : line.Stands file source before after) {sides : List Char → List Char → Prop}
    (found : sides (before ++ line.content.takeWhile isMargin) (line.content.dropWhile isMargin ++ after)) :
    (Scanner.placeIn file line (line.column + line.width)).Cuts file source sides := by
  refine ⟨_, _, ?_, (Scanner.placeAfter_margin stands.here stands.flat).symm, found⟩
  rw [List.append_assoc, ← List.append_assoc (line.content.takeWhile isMargin),
    List.takeWhile_append_dropWhile, stands.whole, List.append_assoc]

end Line.Stands

namespace Scanner

variable {file source : String} {line : Line}

theorem isPlaced_fault {column : Nat} {cause : Cause}
    (quoted : lineAt? (quotedLines source) line.number = some line.quote)
    (cuts : (placeIn file line column).Cuts file source fun before after => cause.Marks before after) :
    (fault file line column cause).IsPlaced file source :=
  ⟨placeIn file line column, rfl, quoted.symm, cuts⟩

theorem isPlaced_marginPulls (levels : Levels) {before after : List Char}
    (stands : line.Stands file source before after) (busy : line.isIdle = false) :
    ∀ pull ∈ marginPulls file line levels, pull.IsPlaced file source := by
  intro pull member
  have content := stands.startsContent busy
  constructor
  · have listed : pull.token ∈ marginTokens (placeIn file line (line.column + line.width)) levels
        line.width := by
      have handed := List.mem_map_of_mem (f := Pull.token) member
      rwa [marginPulls, tokens_handOut] at handed
    unfold marginTokens at listed
    split at listed
    · rw [List.mem_singleton.mp listed]
      exact stands.cuts_margin content
    · obtain ⟨width, -, same⟩ := List.mem_map.mp listed
      rw [← same]
      exact stands.cuts_margin (.inl content)
  · intro problem recorded
    obtain ⟨entry, found, read⟩ := List.mem_filterMap.mp recorded
    have happened : entry ∈ (marginPulls file line levels).flatMap Pull.journal :=
      List.mem_flatMap.mpr ⟨pull, member, found⟩
    rw [marginPulls, journal_handOut] at happened
    split at happened
    · cases happened
    unfold marginJournal at happened
    dsimp only at happened
    split at happened
    · cases List.mem_singleton.mp happened
      cases read
    · rw [List.mem_append] at happened
      rcases happened with closed | misaligned
      · obtain ⟨width, -, rfl⟩ := List.mem_map.mp closed
        cases read
      · split at misaligned
        · cases misaligned
        · cases List.mem_singleton.mp misaligned
          cases read
          exact isPlaced_fault stands.quoted (stands.cuts_margin content)

theorem isPlaced_segmentFaults {segment : Segment} {column : Nat} {before rest : List Char}
    (whole : source.toList = before ++ (segment.text ++ rest))
    (here : placeAfter file before = placeIn file line column)
    (stands : (Part.ofSegment segment).Stands rest)
    (quoted : lineAt? (quotedLines source) line.number = some line.quote) :
    ∀ problem ∈ problems (segmentFaults file line column segment), problem.IsPlaced file source := by
  intro problem recorded
  unfold segmentFaults at recorded
  split at recorded
  next char =>
    cases List.mem_singleton.mp recorded
    exact isPlaced_fault quoted ⟨before, char :: rest, whole, here.symm, rest, rfl, stands⟩
  next other =>
    split at recorded
    next far =>
      cases List.mem_singleton.mp recorded
      refine isPlaced_fault quoted ⟨before, segment.text ++ rest, whole, here.symm, ?_⟩
      simp only [Cause.Marks, String.toList_ofList]
      cases segment with
      | integer digits =>
        have reads := Part.reads_of_stands rfl stands
        exact ⟨.integer, _, rest, rfl, .inl rfl, reads.ne_nil, reads⟩
      | float whole fraction =>
        have reads := Part.reads_of_stands rfl stands
        exact ⟨.float, _, rest, rfl, .inr rfl, reads.ne_nil, reads⟩
      | _ => cases far
    next => cases recorded

theorem isPlaced_bodyPulls (levels : Levels) {count column : Nat} {waiting : List Entry}
    {before content after : List Char} (enough : content.length ≤ count)
    (whole : source.toList = before ++ content ++ after)
    (here : placeAfter file before = placeIn file line column) (flat : '\n' ∉ content)
    (reaches : ReachesLineEnd content after) (ends : EndsContent (before ++ content) after)
    (quoted : lineAt? (quotedLines source) line.number = some line.quote)
    (placed : ∀ problem ∈ problems waiting, problem.IsPlaced file source) :
    ∀ pull ∈ bodyPulls file line levels column waiting (Segment.upTo count content),
      pull.IsPlaced file source := by
  have finish {before : List Char} {column : Nat} {waiting : List Entry}
      (whole : source.toList = before ++ [] ++ after)
      (here : placeAfter file before = placeIn file line column)
      (ends : EndsContent (before ++ []) after)
      (placed : ∀ problem ∈ problems waiting, problem.IsPlaced file source) :
      ∀ pull ∈ bodyPulls file line levels column waiting [], pull.IsPlaced file source := by
    intro pull member
    rw [List.append_nil] at whole ends
    rw [List.mem_singleton.mp member]
    exact ⟨⟨before, after, whole, here.symm, ends⟩, placed⟩
  induction count generalizing content before column waiting with
  | zero =>
    rw [List.length_eq_zero_iff.mp (Nat.le_zero.mp enough)] at whole ends ⊢
    exact finish whole here ends placed
  | succ count ih =>
    cases content with
    | nil => exact finish whole here ends placed
    | cons c cs =>
      have parts : (Segment.next c cs).1.text ++ (Segment.next c cs).2 = c :: cs := Segment.text_next c cs
      have stands := Segment.stands_next reaches
      have shorter : (Segment.next c cs).2.length ≤ count :=
        Nat.le_trans (Segment.length_next_le c cs) (Nat.le_of_succ_le_succ enough)
      rw [Segment.upTo]
      generalize Segment.next c cs = step at parts stands shorter ⊢
      rw [← parts] at whole flat reaches ends
      rw [List.mem_append, not_or] at flat
      have split : source.toList = before ++ (step.1.text ++ (step.2 ++ after)) := by
        rw [whole]
        simp only [List.append_assoc]
      have faults := isPlaced_segmentFaults split here stands quoted
      have later {waiting : List Entry}
          (placed : ∀ problem ∈ problems waiting, problem.IsPlaced file source) :=
        ih shorter (by rw [whole]; simp only [List.append_assoc]) (placeAfter_inLine here flat.1) flat.2
          (reaches.of_append rfl) (by rwa [List.append_assoc]) placed
      have happened : ∀ problem ∈ problems (waiting ++ segmentFaults file line column step.1),
          problem.IsPlaced file source := by
        rw [problems_append, List.forall_mem_append]
        exact ⟨placed, faults⟩
      rw [bodyPulls_segment]
      cases found : step.1.token? with
      | none => exact later happened
      | some lexeme =>
        dsimp only
        rw [List.forall_mem_cons]
        refine ⟨⟨⟨before, _, split, here.symm, ?_⟩, happened⟩, later (List.forall_mem_nil _)⟩
        exact Token.marks_of_reads before (Part.reads_of_stands found stands)

theorem isPlaced_linePulls (levels : Levels) {before after : List Char}
    (stands : line.Stands file source before after) (busy : line.isIdle = false) :
    ∀ pull ∈ linePulls file levels line, pull.IsPlaced file source := by
  intro pull member
  rcases List.mem_append.mp member with margin | body
  · exact isPlaced_marginPulls levels stands busy pull margin
  · have parts : line.content.takeWhile Line.isMargin ++ line.afterMargin.content = line.content :=
      List.takeWhile_append_dropWhile
    refine isPlaced_bodyPulls _ (Nat.le_refl _) ?_ (placeAfter_margin stands.here stands.flat) ?_
      (stands.reaches.of_append parts.symm) ?_ stands.quoted (List.forall_mem_nil _) pull body
    · rw [List.append_assoc before, parts]
      exact stands.whole
    · exact fun found => stands.flat ((List.dropWhile_sublist _).subset found)
    · rw [List.append_assoc, parts]
      exact stands.endsContent

theorem placeAfter_source (file : String) (limit : Int) (source : String) :
    (ofSource file limit source).final = placeAfter file source.toList := by
  obtain ⟨early, last, cut⟩ := exists_pieces_concat source.toList
  rw [placeAfter_of_pieces file cut, ofSource, cut]
  simp

theorem isPlaced_finalPulls (levels : Levels) :
    ∀ pull ∈ finalPulls (placeAfter file source.toList) levels, pull.IsPlaced file source := by
  have behind : source.toList = source.toList ++ [] := (List.append_nil _).symm
  induction levels with
  | nil =>
    intro pull member
    rw [List.mem_singleton.mp member]
    exact ⟨⟨_, _, behind, rfl, rfl⟩, List.forall_mem_nil _⟩
  | cons width outer ih =>
    rw [finalPulls, List.forall_mem_cons]
    exact ⟨⟨⟨_, _, behind, rfl, .inr rfl⟩, List.forall_mem_nil _⟩, ih⟩

/-- The tokens of a scan, and the faults found before them, are at their places. -/
theorem isPlaced_run (file : String) (limit : Int) (source : String) :
    ∀ pull ∈ (ofSource file limit source).run.pulls, pull.IsPlaced file source := by
  apply forall_mem_runLines
  · intro line member busy levels
    obtain ⟨before, after, stands⟩ := Line.exists_stands file member
    exact isPlaced_linePulls levels stands busy
  · rw [placeAfter_source]
    exact isPlaced_finalPulls

theorem isPlaced_overflow {limit : Int} {problem : Diagnostic}
    (stopped : (ofSource file limit source).run.ending = .overflow problem) :
    problem.IsPlaced file source := by
  obtain ⟨line, member, busy, rfl⟩ := exists_line_of_overflow stopped
  obtain ⟨before, after, stands⟩ := Line.exists_stands file member
  exact isPlaced_fault stands.quoted (stands.cuts_margin (stands.startsContent busy))

end Scanner

end Offside
