import Offside.Proofs.Grammar.Relocation
import Offside.Proofs.Scanner.Places

/-!
Scans of lines that have come to other places. Blanks and a comment behind the content of a line end no
lexeme and start none, so they move nothing but the end of the line; lines without content give nothing
at all. A scan of lines that differ by such text is the same scan at other places.
-/

namespace Offside

/-- Blanks, and then a comment or nothing. -/
def IsIdle (text : List Char) : Prop := ∀ c ∈ (text.dropWhile Line.isMargin).head?, c = '#'

theorem Line.isIdle_iff (line : Line) : line.isIdle = true ↔ IsIdle line.content := by
  unfold Line.isIdle IsIdle
  cases line.content.dropWhile isMargin <;> simp

namespace IsIdle

theorem append {front back : List Char} (first : IsIdle front) (second : IsIdle back) :
    IsIdle (front ++ back) := by
  unfold IsIdle at *
  rw [List.dropWhile_append]
  cases rest : front.dropWhile Line.isMargin with
  | nil => simpa using second
  | cons c others =>
    rw [rest] at first
    simpa using first

theorem of_append {front back : List Char} (whole : IsIdle (front ++ back)) : IsIdle front := by
  unfold IsIdle at *
  rw [List.dropWhile_append] at whole
  cases rest : front.dropWhile Line.isMargin with
  | nil => simp
  | cons c others =>
    rw [rest] at whole
    simpa using whole

theorem head {text : List Char} (idle : IsIdle text) :
    ∀ c ∈ text.head?, Line.isMargin c = true ∨ c = '#' := by
  cases text with
  | nil => simp
  | cons c rest =>
    rintro d ⟨⟩
    by_cases margin : Line.isMargin c = true
    · exact .inl margin
    · rw [IsIdle, List.dropWhile_cons_of_neg margin] at idle
      exact .inr (idle c rfl)

theorem startsWith {text : List Char} (idle : IsIdle text) {isOf : Char → Bool}
    (none : isOf ' ' = false ∧ isOf '\t' = false ∧ isOf '#' = false) : startsWith isOf text = false := by
  cases text with
  | nil => rfl
  | cons c rest =>
    have cases : c = ' ' ∨ c = '\t' ∨ c = '#' := by
      simpa [Line.isMargin, or_assoc] using idle.head c rfl
    rcases cases with rfl | rfl | rfl
    · exact none.1
    · exact none.2.1
    · exact none.2.2

theorem idle_segments {text : List Char} (idle : IsIdle text) :
    ∀ segment ∈ Segment.all text, (Part.ofSegment segment).isContent = false :=
  @Segment.idle_of_isIdle ⟨0, "", 1, text⟩ ((Line.isIdle_iff _).mpr idle)

end IsIdle

theorem takeWhile_append_of_stops {isOf : Char → Bool} (front : List Char) {back : List Char}
    (stops : startsWith isOf back = false) :
    (front ++ back).takeWhile isOf = front.takeWhile isOf ∧
      (front ++ back).dropWhile isOf = front.dropWhile isOf ++ back := by
  have none : back.takeWhile isOf = [] ∧ back.dropWhile isOf = back := by
    cases back with
    | nil => exact ⟨rfl, rfl⟩
    | cons c rest =>
      have other : ¬ isOf c = true := by simpa [startsWith] using stops
      exact ⟨List.takeWhile_cons_of_neg other, List.dropWhile_cons_of_neg other⟩
  induction front with
  | nil => exact none
  | cons c rest ih =>
    by_cases within : isOf c = true
    · simp only [List.cons_append, List.takeWhile_cons_of_pos within, List.dropWhile_cons_of_pos within, ih,
        and_self]
    · simp only [List.cons_append, List.takeWhile_cons_of_neg within, List.dropWhile_cons_of_neg within,
        and_self]

theorem takeWhile_append_of_stopped {isOf : Char → Bool} {front : List Char} (back : List Char)
    (stopped : front.dropWhile isOf ≠ []) :
    (front ++ back).takeWhile isOf = front.takeWhile isOf ∧
      (front ++ back).dropWhile isOf = front.dropWhile isOf ++ back := by
  induction front with
  | nil => contradiction
  | cons c rest ih =>
    by_cases within : isOf c = true
    · rw [List.dropWhile_cons_of_pos within] at stopped
      simp only [List.cons_append, List.takeWhile_cons_of_pos within, List.dropWhile_cons_of_pos within,
        ih stopped, and_self]
    · simp only [List.cons_append, List.takeWhile_cons_of_neg within, List.dropWhile_cons_of_neg within,
        and_self]

namespace Segment

variable {extra : List Char}

theorem fraction?_append (text : List Char) (idle : IsIdle extra) :
    fraction? (text ++ extra) = (fraction? text).map fun (fraction, rest) => (fraction, rest ++ extra) := by
  have pointless : startsWith (· = '.') extra = false := idle.startsWith (by decide)
  have digitless : startsWith Char.isDigit extra = false := idle.startsWith (by decide)
  have single : fraction? ('.' :: extra) = none := by
    cases extra with
    | nil => rfl
    | cons c rest => exact if_neg (by simpa [startsWith] using digitless)
  have other {c : Char} (rest : List Char) (point : c ≠ '.') : fraction? (c :: rest) = none := by
    unfold fraction?
    split
    next same => exact absurd (List.cons.inj same).1 point
    next => rfl
  cases text with
  | nil =>
    cases extra with
    | nil => rfl
    | cons c rest => exact other rest (by simpa [startsWith] using pointless)
  | cons point more =>
    by_cases dot : point = '.'
    · subst dot
      cases more with
      | nil => exact single
      | cons c rest =>
        obtain ⟨digits, left⟩ := takeWhile_append_of_stops rest digitless
        simp only [List.cons_append, fraction?, digits, left]
        split <;> rfl
    · rw [List.cons_append, other _ dot, other _ dot]
      rfl

theorem number_append (c : Char) (cs : List Char) (idle : IsIdle extra) :
    number c (cs ++ extra) = ((number c cs).1, (number c cs).2 ++ extra) := by
  have digitless : startsWith Char.isDigit extra = false := idle.startsWith (by decide)
  obtain ⟨digits, left⟩ := takeWhile_append_of_stops cs digitless
  simp only [number, digits, left, fraction?_append _ idle]
  cases fraction? (cs.dropWhile Char.isDigit) <;> rfl

theorem symbolOrStray_of_unpaired {c : Char} {cs : List Char} (unpaired : ∀ rest, cs ≠ '=' :: rest) :
    symbolOrStray c cs = (singleOrStray c, cs) := by
  unfold symbolOrStray
  split
  next kind rest found => exact absurd rfl (unpaired rest)
  next => rfl

theorem symbolOrStray_append (c : Char) (cs : List Char) (idle : IsIdle extra) :
    symbolOrStray c (cs ++ extra) = ((symbolOrStray c cs).1, (symbolOrStray c cs).2 ++ extra) := by
  by_cases equals : ∃ rest, cs = '=' :: rest
  · obtain ⟨rest, rfl⟩ := equals
    unfold symbolOrStray
    cases pair? c <;> rfl
  · rw [not_exists] at equals
    have unequal : startsWith (· = '=') extra = false := idle.startsWith (by decide)
    have longer : ∀ rest, cs ++ extra ≠ '=' :: rest := by
      intro rest same
      cases cs with
      | nil =>
        rw [List.nil_append] at same
        rw [same] at unequal
        cases unequal
      | cons d others => exact equals others (congrArg (· :: others) (List.cons.inj same).1)
    rw [symbolOrStray_of_unpaired equals, symbolOrStray_of_unpaired longer]

theorem next_append {c : Char} {cs : List Char} (idle : IsIdle extra) (inside : Line.isMargin c = false)
    (read : c ≠ '#') : next c (cs ++ extra) = ((next c cs).1, (next c cs).2 ++ extra) := by
  have word : startsWith isWordPart extra = false := idle.startsWith (by decide)
  obtain ⟨part, left⟩ := takeWhile_append_of_stops cs word
  have outside : ¬ Line.isMargin c = true := by rw [inside]; exact Bool.false_ne_true
  unfold next
  simp only [if_neg outside, if_neg read]
  split
  next => rw [part, left]
  split
  next => exact number_append c cs idle
  rw [← List.cons_append, fraction?_append _ idle]
  cases fraction? (c :: cs) with
  | some found => rfl
  | none => exact symbolOrStray_append c cs idle

/-- Idle text behind a line changes nothing but the blanks and comments at its end. -/
theorem exists_all_append (content : List Char) (idle : IsIdle extra) :
    ∃ common rest rest', all content = common ++ rest ∧ all (content ++ extra) = common ++ rest' ∧
      (∀ segment ∈ rest, (Part.ofSegment segment).isContent = false) ∧
      ∀ segment ∈ rest', (Part.ofSegment segment).isContent = false := by
  have whole {content : List Char} (blank : IsIdle content) :
      ∃ common rest rest', all content = common ++ rest ∧ all (content ++ extra) = common ++ rest' ∧
        (∀ segment ∈ rest, (Part.ofSegment segment).isContent = false) ∧
        ∀ segment ∈ rest', (Part.ofSegment segment).isContent = false :=
    ⟨[], _, _, rfl, rfl, blank.idle_segments, (blank.append idle).idle_segments⟩
  -- By induction on the length: the text after the first segment is shorter.
  induction size : content.length using Nat.strongRecOn generalizing content with
  | ind bound ih =>
    cases content with
    | nil => exact whole (by simp [IsIdle])
    | cons c cs =>
      have shorter := length_next_le c cs
      rw [List.length_cons] at size
      -- The first segment stays as it is, and the rest is as told.
      have onward (same : next c (cs ++ extra) = ((next c cs).1, (next c cs).2 ++ extra)) :
          ∃ common rest rest', all (c :: cs) = common ++ rest ∧
            all (c :: cs ++ extra) = common ++ rest' ∧
            (∀ segment ∈ rest, (Part.ofSegment segment).isContent = false) ∧
            ∀ segment ∈ rest', (Part.ofSegment segment).isContent = false := by
        obtain ⟨common, rest, rest', all, all', blank, blank'⟩ :=
          ih (next c cs).2.length (by omega) (next c cs).2 rfl
        refine ⟨(next c cs).1 :: common, rest, rest', ?_, ?_, blank, blank'⟩
        · rw [all_cons, all, List.cons_append]
        · rw [List.cons_append, all_cons, same, all', List.cons_append]
      by_cases margin : Line.isMargin c = true
      · by_cases blank : cs.dropWhile Line.isMargin = []
        · apply whole
          rw [IsIdle, List.dropWhile_cons_of_pos margin, blank]
          simp
        · apply onward
          obtain ⟨taken, left⟩ := takeWhile_append_of_stopped extra blank
          simp only [next, if_pos margin, taken, left]
      · by_cases comment : c = '#'
        · apply whole
          rw [IsIdle, List.dropWhile_cons_of_neg margin]
          rintro d ⟨⟩
          exact comment
        · exact onward (next_append idle (Bool.eq_false_iff.mpr margin) comment)

theorem text_ne_nil_of_mem_all {text : List Char} {segment : Segment} (found : segment ∈ all text) :
    segment.text ≠ [] := by
  obtain ⟨c, cs, rfl⟩ := exists_next_of_mem_upTo found
  exact text_next_ne_nil c cs

end Segment

structure Line.Moves (file : String) (relocation : Relocation) (line line' : Line) : Prop where
  number : line'.number = relocation.renumber line.number
  column : line'.column = line.column
  content : ∃ extra, line'.content = line.content ++ extra ∧ IsIdle extra
  inside : ∀ column, column < line.column + line.content.length →
    relocation.move (Scanner.placeIn file line column) = Scanner.placeIn file line' column
  ends : relocation.move (Scanner.placeIn file line (line.column + line.content.length)) =
    Scanner.placeIn file line' (line'.column + line'.content.length)
  quoted : lineAt? relocation.lines line'.number = some line'.quote

/-- Lines that have come to other places, with idle lines between them. -/
inductive Line.AllMove (file : String) (relocation : Relocation) : List Line → List Line → Prop where
  | nil : AllMove file relocation [] []
  | cons {line line' : Line} {rest rest' : List Line} : line.Moves file relocation line' →
    AllMove file relocation rest rest' → AllMove file relocation (line :: rest) (line' :: rest')
  | idle {line' : Line} {lines rest' : List Line} : line'.isIdle = true →
    AllMove file relocation lines rest' → AllMove file relocation lines (line' :: rest')

theorem Line.AllMove.append {file : String} {relocation : Relocation} {early early' late late' : List Line}
    (first : AllMove file relocation early early') (second : AllMove file relocation late late') :
    AllMove file relocation (early ++ late) (early' ++ late') := by
  induction first with
  | nil => exact second
  | cons moves later ih => exact .cons moves ih
  | idle blank later ih => exact .idle blank ih

def Ending.relocate (relocation : Relocation) : Ending → Ending
  | finished => finished
  | overflow problem => overflow (problem.relocate relocation)

namespace Line.Moves

variable {file : String} {relocation : Relocation} {line line' : Line}

theorem isIdle_eq (moves : line.Moves file relocation line') : line'.isIdle = line.isIdle := by
  obtain ⟨extra, content, idle⟩ := moves.content
  rw [Bool.eq_iff_iff, isIdle_iff, isIdle_iff, content]
  exact ⟨fun whole => whole.of_append, fun blank => blank.append idle⟩

theorem margin (moves : line.Moves file relocation line') (busy : line.isIdle = false) :
    line'.width = line.width ∧ line.column + line.width < line.column + line.content.length ∧
      ∃ extra, line'.afterMargin.content = line.afterMargin.content ++ extra ∧ IsIdle extra := by
  obtain ⟨extra, content, idle⟩ := moves.content
  have some : line.content.dropWhile isMargin ≠ [] := by
    intro none
    have blank : line.isIdle = true := by rw [isIdle, none]
    rw [blank] at busy
    cases busy
  have split := List.takeWhile_append_dropWhile (p := isMargin) (l := line.content)
  obtain ⟨taken, dropped⟩ := takeWhile_append_of_stopped extra some
  refine ⟨?_, ?_, extra, ?_, idle⟩
  · rw [width, width, content, taken]
  · have lengths := congrArg List.length split
    have more := List.length_pos_iff.mpr some
    rw [List.length_append] at lengths
    unfold width
    omega
  · simp only [afterMargin, content, dropped]

theorem fault_eq (moves : line.Moves file relocation line') {column : Nat}
    (inside : column < line.column + line.content.length) (cause : Cause) :
    Scanner.fault file line' column cause = (Scanner.fault file line column cause).relocate relocation := by
  have here := moves.inside column inside
  simp only [Scanner.fault, Diagnostic.relocate, Option.map_some, Option.bind_some, here]
  exact congrArg _ moves.quoted.symm

end Line.Moves

namespace Scanner

variable {file : String} {relocation : Relocation} {line line' : Line}

theorem relocate_handOut (levels : Levels) (waiting : List Entry) (tokens : List Token) :
    handOut levels (waiting.map (Entry.relocate relocation))
        (tokens.map (Token.relocate relocation.move)) =
      (handOut levels waiting tokens).map (Pull.relocate relocation) := by
  induction tokens generalizing waiting with
  | nil => rfl
  | cons token owed ih => exact congrArg (_ :: ·) (ih [])

theorem relocate_marginPulls (levels : Levels) (moves : line.Moves file relocation line')
    (busy : line.isIdle = false) :
    marginPulls file line' levels = (marginPulls file line levels).map (Pull.relocate relocation) := by
  obtain ⟨width, inside, -⟩ := moves.margin busy
  have place : placeIn file line' (line'.column + line'.width) =
      relocation.move (placeIn file line (line.column + line.width)) := by
    rw [moves.column, width, moves.inside _ inside]
  have tokens : marginTokens (placeIn file line' (line'.column + line'.width)) levels line'.width =
      (marginTokens (placeIn file line (line.column + line.width)) levels line.width).map
        (Token.relocate relocation.move) := by
    rw [place, width]
    unfold marginTokens
    rw [apply_ite (List.map (Token.relocate relocation.move)), List.map_map]
    rfl
  have journal : marginJournal file line' levels =
      (marginJournal file line levels).map (Entry.relocate relocation) := by
    simp only [marginJournal, width, moves.column, moves.number]
    rw [apply_ite (List.map (Entry.relocate relocation)), List.map_append, List.map_map,
      apply_ite (List.map (Entry.relocate relocation)), moves.fault_eq inside]
    rfl
  rw [marginPulls, marginPulls, tokens, journal, width, relocate_handOut]

theorem relocate_segmentFaults (moves : line.Moves file relocation line') {column : Nat}
    (inside : column < line.column + line.content.length) (segment : Segment) :
    segmentFaults file line' column segment =
      (segmentFaults file line column segment).map (Entry.relocate relocation) := by
  unfold segmentFaults
  split
  next char =>
    rw [moves.fault_eq inside]
    rfl
  next =>
    rw [apply_ite (List.map (Entry.relocate relocation)), moves.fault_eq inside]
    rfl

theorem bodyPulls_of_idle (file : String) (line : Line) (levels : Levels) (column : Nat)
    (waiting : List Entry) {segments : List Segment}
    (idle : ∀ segment ∈ segments, (Part.ofSegment segment).isContent = false) :
    bodyPulls file line levels column waiting segments =
      [⟨waiting, ⟨.endOfLine, .none,
        placeIn file line (column + (segments.flatMap Segment.text).length)⟩, levels, []⟩] := by
  induction segments generalizing column with
  | nil => rfl
  | cons segment rest ih =>
    rw [List.forall_mem_cons] at idle
    rw [List.flatMap_cons, List.length_append, ← Nat.add_assoc, ← ih (column + segment.text.length) idle.2]
    cases segment with
    | blank | comment => rfl
    | _ => cases idle.1

/-- The segments that two lines have in common give the same at their places, and the idle ones after
them lead to the ends. -/
theorem relocate_bodyPulls (levels : Levels) (moves : line.Moves file relocation line') (column : Nat)
    (waiting : List Entry) {common rest rest' : List Segment}
    (some : ∀ segment ∈ common, segment.text ≠ [])
    (idle : ∀ segment ∈ rest, (Part.ofSegment segment).isContent = false)
    (idle' : ∀ segment ∈ rest', (Part.ofSegment segment).isContent = false)
    (ends : column + ((common ++ rest).flatMap Segment.text).length =
      line.column + line.content.length)
    (ends' : column + ((common ++ rest').flatMap Segment.text).length =
      line'.column + line'.content.length) :
    bodyPulls file line' levels column (waiting.map (Entry.relocate relocation)) (common ++ rest') =
      (bodyPulls file line levels column waiting (common ++ rest)).map (Pull.relocate relocation) := by
  induction common generalizing column waiting with
  | nil =>
    rw [List.nil_append] at ends ends' ⊢
    rw [List.nil_append, bodyPulls_of_idle _ _ _ _ _ idle, bodyPulls_of_idle _ _ _ _ _ idle', ends, ends',
      ← moves.ends]
    rfl
  | cons segment others ih =>
    rw [List.forall_mem_cons] at some
    rw [List.cons_append, List.flatMap_cons, List.length_append] at ends ends'
    have wide := List.length_pos_iff.mpr some.1
    have inside : column < line.column + line.content.length := by omega
    have later (waiting : List Entry) :=
      ih (column + segment.text.length) waiting some.2 (by omega) (by omega)
    rw [List.cons_append, List.cons_append, bodyPulls_segment, bodyPulls_segment,
      relocate_segmentFaults moves inside, ← List.map_append]
    cases segment.token? with
    | none => exact later _
    | some lexeme =>
      dsimp only
      rw [List.map_cons, ← later [], ← moves.inside column inside]
      rfl

theorem relocate_linePulls (levels : Levels) (moves : line.Moves file relocation line')
    (busy : line.isIdle = false) :
    linePulls file levels line' = (linePulls file levels line).map (Pull.relocate relocation) := by
  obtain ⟨width, inside, extra, content, idle⟩ := moves.margin busy
  obtain ⟨common, rest, rest', all, all', blank, blank'⟩ :=
    Segment.exists_all_append line.afterMargin.content idle
  have whole (line : Line) : line.afterMargin.column + line.afterMargin.content.length =
      line.column + line.content.length := by
    have split := congrArg List.length
      (List.takeWhile_append_dropWhile (p := Line.isMargin) (l := line.content))
    rw [List.length_append] at split
    simp only [Line.afterMargin, Line.width]
    omega
  have column : line'.afterMargin.column = line.afterMargin.column := by
    simp only [Line.afterMargin, width, moves.column]
  have some : ∀ segment ∈ common, segment.text ≠ [] := by
    intro segment found
    apply Segment.text_ne_nil_of_mem_all
    rw [all]
    exact List.mem_append_left _ found
  have body := relocate_bodyPulls (levels.after line.width) moves line.afterMargin.column [] some blank
    blank' (by rw [← all, Segment.flatMap_text_all, whole])
    (by rw [← all', Segment.flatMap_text_all, ← content, ← column, whole])
  rw [linePulls, linePulls, List.map_append, relocate_marginPulls levels moves busy, content, all, all',
    width, column, ← body]
  rfl

theorem relocate_finalPulls (final : Location) (levels : Levels) :
    finalPulls (relocation.move final) levels =
      (finalPulls final levels).map (Pull.relocate relocation) := by
  induction levels with
  | nil => rfl
  | cons width outer ih => exact congrArg (_ :: ·) ih

theorem relocate_runLines (scanner scanner' : Scanner) (file : scanner'.file = scanner.file)
    (limit : scanner'.limit = scanner.limit) (final : scanner'.final = relocation.move scanner.final)
    {lines lines' : List Line} (moved : Line.AllMove scanner.file relocation lines lines')
    (levels : Levels) :
    (runLines scanner' levels lines').pulls =
        (runLines scanner levels lines).pulls.map (Pull.relocate relocation) ∧
      (runLines scanner' levels lines').ending =
        (runLines scanner levels lines).ending.relocate relocation := by
  induction moved generalizing levels with
  | nil => exact ⟨by rw [runLines, runLines, final, relocate_finalPulls], rfl⟩
  | idle blank later ih =>
    rw [runLines, if_pos blank]
    exact ih levels
  | @cons line line' rest rest' moves later ih =>
    rw [runLines, runLines, moves.isIdle_eq]
    by_cases idle : line.isIdle = true
    · rw [if_pos idle, if_pos idle]
      exact ih levels
    · have busy := Bool.eq_false_iff.mpr idle
      obtain ⟨width, inside, -⟩ := moves.margin busy
      rw [if_neg idle, if_neg idle, limit, width, file]
      by_cases deep : overflows scanner.limit levels line.width = true
      · rw [if_pos deep, if_pos deep, moves.column, moves.fault_eq inside]
        exact ⟨rfl, rfl⟩
      · rw [if_neg deep, if_neg deep]
        obtain ⟨pulls, ending⟩ := ih (levels.after line.width)
        refine ⟨?_, ending⟩
        dsimp only
        rw [pulls, relocate_linePulls levels moves busy, List.map_append]

end Scanner

end Offside
