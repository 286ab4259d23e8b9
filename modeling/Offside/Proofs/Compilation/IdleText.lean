import Offside.Proofs.Compilation.Quoting
import Offside.Proofs.Compilation.Relocation

/-!
Text that says nothing. A line of blanks and a comment can be put before any line of a source, and blanks
and a comment behind any line, whatever the source: the same is read, and compiled to the same program
with the same faults. A new line moves what comes after it down by one line; text behind a line moves
nothing but the end of that line.
-/

namespace Offside

def Location.below (first : Int) (place : Location) : Location :=
  if first ≤ place.line then { place with line := place.line + 1 } else place

/-- Compilations that differ in places, and in the lines that their faults quote, at most. -/
structure Compilation.Matches (move : Location → Location) (compilation other : Compilation) : Prop where
  file : other.file = compilation.file
  statements : other.statements = Stmt.relocateAll move compilation.statements
  names : other.names = compilation.names
  tokenCount : other.tokenCount = compilation.tokenCount
  causes : other.problems.map Diagnostic.cause = compilation.problems.map Diagnostic.cause
  places : other.problems.map Diagnostic.place =
    compilation.problems.map fun problem => problem.place.map move
  succeeded : other.succeeded = compilation.succeeded
  code : other.code = compilation.code

theorem Compilation.matches_relocate (relocation : Relocation) (compilation : Compilation) :
    compilation.Matches relocation.move (compilation.relocate relocation) := by
  refine ⟨rfl, rfl, rfl, rfl, ?_, ?_, succeeded_relocate relocation compilation,
    code_relocate relocation compilation⟩
  · rw [relocate, List.map_map]
    rfl
  · rw [relocate, List.map_map]
    rfl

namespace Line

variable {file : String} {relocation : Relocation}

theorem quoted_of_mem {source : String} {line : Line} (member : line ∈ ofPieces 1 (pieces source.toList)) :
    lineAt? (quotedLines source) line.number = some line.quote := by
  obtain ⟨before, after, stands⟩ := exists_stands "" member
  exact stands.quoted

theorem mem_ofPieces {number : Nat} {texts : List (List Char)} {line : Line}
    (member : line ∈ ofPieces number texts) : line.column = 1 ∧ number ≤ line.number := by
  obtain ⟨early, piece, late, -, rfl⟩ := exists_piece_of_mem member
  exact ⟨rfl, Nat.le_add_right _ _⟩

theorem moves_renumbered {line : Line} {number : Nat} (renumber : relocation.renumber line.number = number)
    (move : ∀ column : Nat, relocation.move (Scanner.placeIn file line column) = ⟨file, number, column⟩)
    (quoted : lineAt? relocation.lines number = some line.quote) :
    line.Moves file relocation { line with number } where
  number := renumber.symm
  column := rfl
  content := ⟨[], (List.append_nil _).symm, by simp [IsIdle]⟩
  inside column _ := move column
  ends := move _
  quoted := quoted

theorem AllMove.map {lines : List Line} (other : Line → Line)
    (each : ∀ line ∈ lines, line.Moves file relocation (other line)) :
    AllMove file relocation lines (lines.map other) := by
  induction lines with
  | nil => exact .nil
  | cons line rest ih =>
    rw [List.forall_mem_cons] at each
    exact .cons each.1 (ih each.2)

theorem AllMove.self {lines : List Line} (renumber : ∀ line ∈ lines,
      relocation.renumber line.number = line.number)
    (move : ∀ line ∈ lines, ∀ column : Nat,
      relocation.move (Scanner.placeIn file line column) = Scanner.placeIn file line column)
    (quoted : ∀ line ∈ lines, lineAt? relocation.lines line.number = some line.quote) :
    AllMove file relocation lines lines := by
  have moved := AllMove.map (fun line => line) fun line found =>
    moves_renumbered (renumber line found) (move line found) (quoted line found)
  rwa [List.map_id'] at moved

end Line

theorem Scanner.relocate_ofSource {file : String} {source source' : String} {relocation : Relocation}
    (limit : Int) (moved : Line.AllMove file relocation (Line.ofPieces 1 (pieces source.toList))
      (Line.ofPieces 1 (pieces source'.toList)))
    (final : placeAfter file source'.toList = relocation.move (placeAfter file source.toList)) :
    (ofSource file limit source').run.pulls =
        (ofSource file limit source).run.pulls.map (Pull.relocate relocation) ∧
      (ofSource file limit source').run.ending =
        (ofSource file limit source).run.ending.relocate relocation := by
  have final' : (ofSource file limit source').final =
      relocation.move (ofSource file limit source).final := by
    rw [placeAfter_source, placeAfter_source, final]
  exact relocate_runLines (ofSource file limit source) (ofSource file limit source') rfl rfl final' moved []

section NewLine

variable {before after text ending : List Char}

theorem exists_pieces_of_startsLine (start : StartsLine before) :
    ∃ early, pieces before = early ++ [[]] ∧ early.length = before.count '\n' := by
  obtain ⟨early, last, cut⟩ := exists_pieces_concat before
  have here := placeAfter_of_pieces "" cut
  have fresh : placeAfter "" before = ⟨"", 1 + before.count '\n', 1⟩ := by
    rcases start with rfl | feed
    · rfl
    · obtain ⟨front, rfl⟩ : ∃ front, before = front ++ ['\n'] :=
        ⟨before.dropLast, (List.dropLast_append_getLast? _ feed).symm⟩
      simp [placeAfter]
  rw [fresh] at here
  have line := congrArg Location.line here
  have column := congrArg Location.column here
  dsimp only at line column
  have empty : last = [] := List.length_eq_zero_iff.mp (by omega)
  rw [empty] at cut
  exact ⟨early, cut, by omega⟩

theorem exists_pieces_newLine (after : List Char) (start : StartsLine before) (idle : IsIdle text) (flat : '\n' ∉ text)
    (ends : ending = ['\n'] ∨ ending = ['\r', '\n']) :
    ∃ early piece, early.length = before.count '\n' ∧ pieces (before ++ after) = early ++ pieces after ∧
      pieces (before ++ (text ++ ending ++ after)) = early ++ piece :: pieces after ∧
      IsIdle (dropReturn piece) := by
  obtain ⟨early, cut, count⟩ := exists_pieces_of_startsLine start
  have joined {rest : List Char} : pieces (before ++ rest) = early ++ pieces rest := by
    obtain ⟨first, late, more⟩ := exists_pieces_cons rest
    rw [pieces_append cut more, more, List.nil_append]
  rcases ends with rfl | rfl
  · refine ⟨early, text, count, joined, ?_, ?_⟩
    · rw [joined, List.append_assoc]
      exact congrArg _ (pieces_line flat after)
    · by_cases last : text.getLast? = some '\r'
      · obtain ⟨front, rfl⟩ : ∃ front, text = front ++ ['\r'] :=
          ⟨text.dropLast, (List.dropLast_append_getLast? _ last).symm⟩
        rw [dropReturn_concat]
        exact idle.of_append
      · rwa [dropReturn_of_last last]
  · refine ⟨early, text ++ ['\r'], count, joined, ?_, ?_⟩
    · have flat' : '\n' ∉ text ++ ['\r'] := by simpa using flat
      rw [joined, ← pieces_line flat' after]
      simp only [List.append_assoc, List.cons_append, List.nil_append]
    · rwa [dropReturn_concat]

def downBy (before : List Char) (source : String) : Relocation where
  move := Location.below (1 + before.count '\n')
  renumber number := if 1 + before.count '\n' ≤ number then number + 1 else number
  lines := quotedLines source

theorem Scanner.relocate_newLine (file : String) (limit : Int) (after : List Char) (start : StartsLine before)
    (idle : IsIdle text) (flat : '\n' ∉ text) (ends : ending = ['\n'] ∨ ending = ['\r', '\n']) :
    let source := String.ofList (before ++ after)
    let source' := String.ofList (before ++ (text ++ ending ++ after))
    (ofSource file limit source').run.pulls =
        (ofSource file limit source).run.pulls.map (Pull.relocate (downBy before source')) ∧
      (ofSource file limit source').run.ending =
        (ofSource file limit source).run.ending.relocate (downBy before source') := by
  intro source source'
  obtain ⟨early, piece, count, cut, cut', blank⟩ := exists_pieces_newLine after start idle flat ends
  have quoted : ∀ line ∈ Line.ofPieces 1 (pieces source'.toList),
      lineAt? (quotedLines source') line.number = some line.quote :=
    fun line member => Line.quoted_of_mem member
  have some : pieces after ≠ [] := pieces_ne_nil after
  rw [String.toList_ofList, cut', Line.ofPieces_append _ _ (List.cons_ne_nil _ _), Line.ofPieces_cons,
    if_neg some, Line.ofPieces_succ, List.forall_mem_append, List.forall_mem_cons] at quoted
  apply relocate_ofSource limit
  · rw [String.toList_ofList, String.toList_ofList, cut, cut', Line.ofPieces_append _ _ some,
      Line.ofPieces_append _ _ (List.cons_ne_nil _ _), Line.ofPieces_cons, if_neg some,
      Line.ofPieces_succ]
    apply Line.AllMove.append
    · -- The lines before the new one stay.
      apply Line.AllMove.self
      · intro line member
        obtain ⟨-, -, most⟩ := Line.mem_ended member
        exact if_neg (by omega)
      · intro line member column
        obtain ⟨-, -, most⟩ := Line.mem_ended member
        exact if_neg (by simp only [placeIn]; omega)
      · exact quoted.1
    · -- The new one gives nothing, and the others are one line further down.
      refine .idle ((Line.isIdle_iff _).mpr blank) (.map _ fun line member => ?_)
      obtain ⟨-, least⟩ := Line.mem_ofPieces member
      apply Line.moves_renumbered
      · exact if_pos (by omega)
      · intro column
        exact if_pos (by simp only [placeIn]; omega)
      · exact quoted.2.2 _ (List.mem_map_of_mem member)
  · obtain ⟨rest, last, split⟩ := exists_pieces_concat after
    rw [split, ← List.append_assoc early] at cut
    rw [split, ← List.cons_append, ← List.append_assoc early] at cut'
    rw [String.toList_ofList, String.toList_ofList, placeAfter_of_pieces file cut,
      placeAfter_of_pieces file cut', List.length_append, List.length_append, List.length_cons]
    simp only [downBy, Location.below]
    rw [if_pos (by omega)]
    rfl

theorem line_relocate_newLine (start : StartsLine before) (idle : IsIdle text) (flat : '\n' ∉ text)
    (ends : ending = ['\n'] ∨ ending = ['\r', '\n']) {file : String} {tokens : List Token}
    {place : Location} {front back piece : List Char} {problem : Diagnostic}
    (into : problem.PointsInto file (String.ofList (before ++ after)) tokens place front back piece) :
    (problem.relocate
        (downBy before (String.ofList (before ++ (text ++ ending ++ after))))).line = problem.line := by
  obtain ⟨early, inserted, count, cut, cut', -⟩ := exists_pieces_newLine after start idle flat ends
  have first := into.line.1
  simp only [Diagnostic.relocate, into.located, Option.bind_some, into.listed, downBy, Location.below,
    quotedLines, String.toList_ofList, cut, cut', List.map_append, List.map_cons]
  by_cases later : 1 + (before.count '\n' : Int) ≤ place.line
  · have index : (place.line + 1 - 1).toNat = (place.line - 1).toNat + 1 := by omega
    have behind : (early.map quotedLine).length ≤ (place.line - 1).toNat := by
      rw [List.length_map]
      omega
    rw [if_pos later, lineAt?, if_pos (by dsimp only; omega), index,
      List.getElem?_append_right (by omega), List.getElem?_append_right behind,
      Nat.sub_add_comm behind, List.getElem?_cons_succ]
  · have ahead : (place.line - 1).toNat < (early.map quotedLine).length := by
      rw [List.length_map]
      omega
    rw [if_neg later, lineAt?, if_pos (by omega), List.getElem?_append_left ahead,
      List.getElem?_append_left ahead]

end NewLine

section LongerLine

variable {before after text : List Char}

theorem getLast?_of_pieces {early : List (List Char)} {last : List Char} {c : Char}
    (cut : pieces before = early ++ [last]) (ends : last.getLast? = some c) : before.getLast? = some c := by
  have whole := intercalate_lineFeed early last []
  rw [← cut, intercalate_pieces, List.flatMap_nil, List.append_nil] at whole
  rw [whole, List.getLast?_append, ends]
  rfl

/-- The pieces of a source with idle text behind a line, and those without it. The line itself is the last
one before the text. -/
theorem exists_pieces_longerLine (ends : EndsContent before after) (idle : IsIdle text)
    (flat : '\n' ∉ text) :
    ∃ early last extra piece piece' late, pieces before = early ++ [last] ∧ IsIdle extra ∧
      pieces (before ++ after) = early ++ piece :: late ∧
      pieces (before ++ (text ++ after)) = early ++ piece' :: late ∧
      (if late = [] then piece else dropReturn piece) = last ∧
      (if late = [] then piece' else dropReturn piece') = last ++ extra := by
  obtain ⟨early, last, cut⟩ := exists_pieces_concat before
  cases after with
  | nil =>
    refine ⟨early, last, text, last, last ++ text, [], cut, idle, ?_, ?_, if_pos rfl, if_pos rfl⟩
    · rw [List.append_nil, cut]
    · rw [List.append_nil, pieces_append cut (pieces_of_flat flat)]
  | cons c others =>
    have starts : startsLineEnd (c :: others) = true := by
      rcases ends.ends with none | starts
      · cases none
      · exact starts
    unfold startsLineEnd at starts
    split at starts
    next rest same =>
      rw [same] at ends ⊢
      have unreturned : last.getLast? ≠ some '\r' :=
        fun returned => ends.whole (getLast?_of_pieces cut returned) rfl
      have some : pieces rest ≠ [] := pieces_ne_nil rest
      have whole : pieces (before ++ '\n' :: rest) = early ++ last :: pieces rest := by
        rw [pieces_append cut (show pieces ('\n' :: rest) = [] :: pieces rest from if_pos rfl),
          List.append_nil]
      have whole' : pieces (before ++ (text ++ '\n' :: rest)) = early ++ (last ++ text) :: pieces rest :=
        pieces_append cut (pieces_line flat rest)
      by_cases returned : (last ++ text).getLast? = Option.some '\r'
      · -- A return at the end of the comment goes with the line feed after it.
        obtain ⟨front, rfl⟩ : ∃ front, text = front ++ ['\r'] := by
          rw [List.getLast?_append, Option.or_eq_some_iff] at returned
          rcases returned with inside | ⟨-, before⟩
          · exact ⟨text.dropLast, (List.dropLast_append_getLast? _ inside).symm⟩
          · exact absurd before unreturned
        refine ⟨early, last, front, last, _, pieces rest, cut, idle.of_append, whole, whole', ?_, ?_⟩
        · rw [if_neg some, dropReturn_of_last unreturned]
        · rw [if_neg some, ← List.append_assoc, dropReturn_concat]
      · refine ⟨early, last, text, last, _, pieces rest, cut, idle, whole, whole', ?_, ?_⟩
        · rw [if_neg some, dropReturn_of_last unreturned]
        · rw [if_neg some, dropReturn_of_last returned]
    next rest same =>
      rw [same]
      have some : pieces rest ≠ [] := pieces_ne_nil rest
      have flat' : '\n' ∉ text ++ ['\r'] := by simpa using flat
      have longer : text ++ '\r' :: '\n' :: rest = text ++ ['\r'] ++ '\n' :: rest := List.append_cons _ _ _
      refine ⟨early, last, text, last ++ ['\r'], last ++ (text ++ ['\r']), pieces rest, cut, idle, ?_, ?_,
        ?_, ?_⟩
      · exact pieces_append cut (pieces_line (by decide : '\n' ∉ ['\r']) rest)
      · rw [longer]
        exact pieces_append cut (pieces_line flat' rest)
      · rw [if_neg some, dropReturn_concat]
      · rw [if_neg some, ← List.append_assoc, dropReturn_concat]
    next => cases starts

def stretchedBy (file : String) (before : List Char) (width : Nat) (source : String) : Relocation where
  move place := if place = placeAfter file before then { place with column := place.column + width } else place
  renumber number := number
  lines := quotedLines source

theorem Scanner.relocate_longerLine (file : String) (limit : Int) (ends : EndsContent before after)
    (idle : IsIdle text) (flat : '\n' ∉ text) :
    let source := String.ofList (before ++ after)
    let source' := String.ofList (before ++ (text ++ after))
    ∃ width, (ofSource file limit source').run.pulls =
        (ofSource file limit source).run.pulls.map
          (Pull.relocate (stretchedBy file before width source')) ∧
      (ofSource file limit source').run.ending =
        (ofSource file limit source).run.ending.relocate (stretchedBy file before width source') := by
  intro source source'
  obtain ⟨early, last, extra, piece, piece', late, cut, blank, whole, whole', content, content'⟩ :=
    exists_pieces_longerLine ends idle flat
  have here := placeAfter_of_pieces file cut
  have quoted : ∀ line ∈ Line.ofPieces 1 (pieces source'.toList),
      lineAt? (quotedLines source') line.number = some line.quote :=
    fun line member => Line.quoted_of_mem member
  rw [String.toList_ofList, whole', Line.ofPieces_append _ _ (List.cons_ne_nil _ _), Line.ofPieces_cons,
    content', List.forall_mem_append, List.forall_mem_cons] at quoted
  have stays {place : Location} (other : place ≠ ⟨file, early.length + 1, last.length + 1⟩) :
      (stretchedBy file before extra.length source').move place = place := by
    rw [← here] at other
    exact if_neg other
  refine ⟨extra.length, relocate_ofSource limit ?_ ?_⟩
  · rw [String.toList_ofList, String.toList_ofList, whole, whole',
      Line.ofPieces_append _ _ (List.cons_ne_nil _ _), Line.ofPieces_append _ _ (List.cons_ne_nil _ _),
      Line.ofPieces_cons, Line.ofPieces_cons, content, content']
    apply Line.AllMove.append
    · apply Line.AllMove.self
      · exact fun line member => rfl
      · intro line member column
        obtain ⟨-, -, most⟩ := Line.mem_ended member
        apply stays
        simp only [placeIn, ne_eq, Location.mk.injEq, not_and]
        omega
      · exact quoted.1
    · apply Line.AllMove.cons
      · refine ⟨rfl, rfl, ⟨extra, rfl, blank⟩, ?_, ?_, quoted.2.1⟩
        · intro column inside
          apply stays
          simp only [placeIn, ne_eq, Location.mk.injEq, not_and]
          dsimp only at inside
          omega
        · have atEnd : placeIn file ⟨1 + early.length, quotedLine piece, 1, last⟩ (1 + last.length) =
              placeAfter file before := by
            rw [here]
            simp only [placeIn, Location.mk.injEq, true_and]
            omega
          dsimp only [stretchedBy]
          rw [if_pos atEnd, atEnd, here]
          simp only [placeIn, Location.mk.injEq, List.length_append, true_and]
          omega
      · apply Line.AllMove.self
        · exact fun line member => rfl
        · intro line member column
          obtain ⟨-, least⟩ := Line.mem_ofPieces member
          apply stays
          simp only [placeIn, ne_eq, Location.mk.injEq, not_and]
          omega
        · exact quoted.2.2
  · rw [String.toList_ofList, String.toList_ofList]
    rcases List.eq_nil_or_concat late with rfl | ⟨rest, final, concat⟩
    · rw [if_pos rfl] at content content'
      rw [content] at whole
      rw [content'] at whole'
      rw [placeAfter_of_pieces file whole, placeAfter_of_pieces file whole', List.length_append]
      dsimp only [stretchedBy]
      rw [here, if_pos rfl]
      simp only [Location.mk.injEq, true_and]
      omega
    · rw [concat, List.concat_eq_append, ← List.cons_append, ← List.append_assoc] at whole
      rw [concat, List.concat_eq_append, ← List.cons_append, ← List.append_assoc early] at whole'
      rw [placeAfter_of_pieces file whole, placeAfter_of_pieces file whole', stays]
      · simp only [List.length_append, List.length_cons]
      · simp only [ne_eq, Location.mk.injEq, List.length_append, List.length_cons, not_and]
        omega

end LongerLine

/-- Blanks and a comment say nothing. A whole line of them can be put before any line of a source that is
compiled, and they can be put behind any of its lines: the tokens have the same kinds and payloads, and the
program, the variables, the number of tokens, the C text and what the faults say are the same. The new line
moves the places from the next line on down by one line and changes no quoted line; the text behind a line
moves no place but the end of that line. -/
theorem idle_text_is_invisible (options : Options) (file : Option String) (before after text : List Char)
    (idle : IsIdle text) (flat : '\n' ∉ text) {compilation : Compilation}
    (compiled : (compile options file (String.ofList (before ++ after))).result = .ok compilation) :
    (StartsLine before → ∀ ending, ending = ['\n'] ∨ ending = ['\r', '\n'] →
      let source' := String.ofList (before ++ (text ++ ending ++ after))
      let move := Location.below (1 + before.count '\n')
      ∃ compilation', (compile options file source').result = .ok compilation' ∧
        compilation.Matches move compilation' ∧
        compilation'.problems.map Diagnostic.line = compilation.problems.map Diagnostic.line ∧
        ∃ tokens faults faults',
          (scanSource options file (String.ofList (before ++ after))).result = .ok (tokens, faults) ∧
          (scanSource options file source').result =
            .ok (tokens.map (Token.relocate move), faults')) ∧
    (EndsContent before after →
      let source' := String.ofList (before ++ (text ++ after))
      ∃ move : Location → Location,
        (∀ place, place ≠ placeAfter (options.nameFor file) before → move place = place) ∧
        ∃ compilation', (compile options file source').result = .ok compilation' ∧
          compilation.Matches move compilation' ∧
          ∃ tokens faults faults',
            (scanSource options file (String.ofList (before ++ after))).result = .ok (tokens, faults) ∧
            (scanSource options file source').result =
              .ok (tokens.map (Token.relocate move), faults')) := by
  constructor
  · intro start ending ends source' move
    obtain ⟨pulls, ending'⟩ := Scanner.relocate_newLine (options.nameFor file) options.limit
      after start idle flat ends
    obtain ⟨compiled', tokens, faults, scanned, scanned'⟩ :=
      compile_relocate (downBy before source') rfl pulls ending' compiled
    refine ⟨_, compiled', compilation.matches_relocate (downBy before source'), ?_, tokens, faults, _, scanned, scanned'⟩
    rw [Compilation.relocate, List.map_map]
    apply List.map_congr_left
    intro problem found
    rw [problems_of_compiled compiled] at found
    obtain ⟨place, front, back, piece, into⟩ := Parsing.exists_pointsInto found
    exact line_relocate_newLine start idle flat ends into
  · intro ends source'
    obtain ⟨width, pulls, ending⟩ := Scanner.relocate_longerLine (options.nameFor file)
      options.limit ends idle flat
    obtain ⟨compiled', tokens, faults, scanned, scanned'⟩ :=
      compile_relocate (stretchedBy (options.nameFor file) before width source') rfl pulls ending compiled
    exact ⟨_, fun place other => if_neg other, _, compiled', compilation.matches_relocate (stretchedBy _ _ _ _),
      tokens, faults, _, scanned, scanned'⟩

/-- A block, a width that fits none, a variable without a value and a character that starts nothing. -/
def crookedSource : String := "if x:\n\t\ty = 1\n z = $\n"

theorem idle_text_is_invisible_crooked :
    ∃ compilation, (compile {} none crookedSource).result = .ok compilation ∧
      compilation.problems.length = 4 ∧
      (∃ compilation', (compile {} none "if x:\n\t\ty = 1\n  # note\r\n z = $\n").result = .ok compilation' ∧
        compilation.Matches (Location.below 3) compilation' ∧
        compilation'.problems.map Diagnostic.line = compilation.problems.map Diagnostic.line) ∧
      ∃ move compilation', (∀ place, place ≠ ⟨"<input>", 1, 6⟩ → move place = place) ∧
        (compile {} none "if x:\t# why\r\n\t\ty = 1\n z = $\n").result = .ok compilation' ∧
        compilation.Matches move compilation' := by
  have count : (compile {} none crookedSource).result.toOption.map (·.problems.length) = some 4 := by
    decide +kernel
  cases compiled : (compile {} none crookedSource).result with
  | error problem =>
    rw [compiled] at count
    cases count
  | ok compilation =>
    rw [compiled] at count
    have inBlock := (idle_text_is_invisible {} none "if x:\n\t\ty = 1\n".toList " z = $\n".toList
      "  # note".toList (by rintro c ⟨⟩; rfl) (by decide) compiled).1 (.inr rfl) ['\r', '\n'] (.inr rfl)
    have behindLine := (idle_text_is_invisible {} none "if x:".toList "\n\t\ty = 1\n z = $\n".toList
      "\t# why\r".toList (by rintro c ⟨⟩; rfl) (by decide) compiled).2 ⟨.inr rfl, by decide⟩
    obtain ⟨lower, compiled', matches', lines, -⟩ := inBlock
    obtain ⟨move, stays, wider, compiled'', matches'', -⟩ := behindLine
    exact ⟨compilation, rfl, Option.some.inj count, ⟨lower, compiled', matches', lines⟩, move, wider, stays,
      compiled'', matches''⟩

end Offside
