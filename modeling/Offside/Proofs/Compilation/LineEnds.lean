import Offside.Compilation
import Offside.Proofs.Scanner.Lines

/-!
A source whose lines end with a return and a line feed is compiled as the one whose lines end with a
line feed alone: the scanner is the same from the start, and so are the lines that faults quote.
-/

namespace Offside

def withReturns (source : String) : String :=
  String.ofList (source.toList.flatMap fun c => if c = '\n' then ['\r', '\n'] else [c])

theorem pieces_withReturns {source : String} {early : List (List Char)} {last : List Char}
    (cut : pieces source.toList = early ++ [last]) :
    pieces (withReturns source).toList = early.map (· ++ ['\r']) ++ [last] := by
  rw [withReturns, String.toList_ofList]
  generalize source.toList = text at cut ⊢
  induction text generalizing early last with
  | nil =>
    obtain ⟨rfl, same⟩ := List.append_inj' ((List.nil_append _).trans cut).symm rfl
    rw [same]
    rfl
  | cons c rest ih =>
    obtain ⟨early', last', shorter⟩ := exists_pieces_concat rest
    have later := ih shorter
    rw [pieces, shorter] at cut
    by_cases feed : c = '\n'
    · rw [if_pos feed] at cut
      obtain ⟨rfl, same⟩ := List.append_inj' (List.cons_append.trans cut).symm rfl
      rw [feed, List.flatMap_cons, if_pos rfl, same]
      simp only [List.cons_append, List.nil_append, pieces, later]
      rfl
    · rw [if_neg feed] at cut
      rw [List.flatMap_cons, if_neg feed, List.singleton_append, pieces, if_neg feed, later]
      cases early' with
      | nil =>
        obtain ⟨rfl, same⟩ := List.append_inj' ((List.nil_append _).trans cut).symm rfl
        rw [same]
        rfl
      | cons piece others =>
        obtain ⟨rfl, same⟩ := List.append_inj' (List.cons_append.trans cut).symm rfl
        rw [same]
        rfl

theorem quotedLine_return {piece : List Char} (plain : '\r' ∉ piece) :
    quotedLine (piece ++ ['\r']) = quotedLine piece := by
  have kept : piece.reverse.dropWhile (· = '\r') = piece.reverse := by
    cases back : piece.reverse with
    | nil => rfl
    | cons c others =>
      have other : c ≠ '\r' := by
        rintro rfl
        apply plain
        rw [← List.mem_reverse, back]
        exact List.mem_cons_self
      rw [List.dropWhile_cons_of_neg (by simpa using other)]
  rw [quotedLine, quotedLine, dropReturns, dropReturns, List.reverse_append, List.reverse_singleton,
    List.singleton_append, List.dropWhile_cons_of_pos (by decide), kept]

theorem dropReturn_return {piece : List Char} (plain : '\r' ∉ piece) :
    dropReturn (piece ++ ['\r']) = dropReturn piece := by
  rw [dropReturn_concat, dropReturn_of_last fun last => plain (List.mem_of_getLast? last)]

theorem Line.ended_returns (number : Nat) {texts : List (List Char)}
    (plain : ∀ piece ∈ texts, '\r' ∉ piece) :
    ended number (texts.map (· ++ ['\r'])) = ended number texts := by
  induction texts generalizing number with
  | nil => rfl
  | cons piece rest ih =>
    rw [List.forall_mem_cons] at plain
    rw [List.map_cons, ended, ended, quotedLine_return plain.1, dropReturn_return plain.1, ih _ plain.2]

theorem mem_of_mem_pieces {text piece : List Char} {c : Char} (found : piece ∈ pieces text)
    (inside : c ∈ piece) : c ∈ text := by
  induction text generalizing piece with
  | nil =>
    rw [List.mem_singleton.mp found] at inside
    exact inside
  | cons first rest ih =>
    obtain ⟨head, late, same⟩ := exists_pieces_cons rest
    rw [same] at ih
    rw [pieces, same] at found
    by_cases feed : first = '\n'
    · rw [if_pos feed, List.mem_cons] at found
      rcases found with rfl | later
      · cases inside
      · exact List.mem_cons_of_mem _ (ih later inside)
    · rw [if_neg feed, List.mem_cons] at found
      rcases found with rfl | later
      · rcases List.mem_cons.mp inside with rfl | inner
        · exact List.mem_cons_self
        · exact List.mem_cons_of_mem _ (ih List.mem_cons_self inner)
      · exact List.mem_cons_of_mem _ (ih (List.mem_cons_of_mem _ later) inside)

/-- Without returns in the source, the pieces with a return behind them are the lines. -/
theorem exists_pieces_withReturns {source : String} (plain : '\r' ∉ source.toList) :
    ∃ early last, pieces source.toList = early ++ [last] ∧ (∀ piece ∈ early, '\r' ∉ piece) ∧
      pieces (withReturns source).toList = early.map (· ++ ['\r']) ++ [last] := by
  obtain ⟨early, last, cut⟩ := exists_pieces_concat source.toList
  refine ⟨early, last, cut, ?_, pieces_withReturns cut⟩
  intro piece found inside
  apply plain
  apply mem_of_mem_pieces _ inside
  rw [cut]
  exact List.mem_append_left _ found

theorem Scanner.ofSource_withReturns (file : String) (limit : Int) {source : String}
    (plain : '\r' ∉ source.toList) :
    ofSource file limit (withReturns source) = ofSource file limit source := by
  obtain ⟨early, last, cut, each, returned⟩ := exists_pieces_withReturns plain
  have lines : Line.ofPieces 1 (early.map (· ++ ['\r']) ++ [last]) =
      Line.ofPieces 1 (early ++ [last]) := by
    rw [Line.ofPieces_append _ _ (List.cons_ne_nil _ _), Line.ofPieces_append _ _ (List.cons_ne_nil _ _),
      Line.ended_returns _ each, List.length_map]
  simp only [ofSource, returned, cut, lines, List.length_append, List.length_map,
    List.getLastD_concat]

theorem quotedLines_withReturns {source : String} (plain : '\r' ∉ source.toList) :
    quotedLines (withReturns source) = quotedLines source := by
  obtain ⟨early, last, cut, each, returned⟩ := exists_pieces_withReturns plain
  rw [quotedLines, quotedLines, returned, cut, List.map_append, List.map_append, List.map_map]
  congr 1
  apply List.map_congr_left
  intro piece found
  exact quotedLine_return (each piece found)

/-- Line ends with a return change nothing: the tokens and their places, the program, the variables,
the faults with the lines they quote, and the log are the same, and so is the failure of a source with
too many levels. -/
theorem compile_withReturns (options : Options) (file : Option String) {source : String}
    (plain : '\r' ∉ source.toList) :
    compile options file (withReturns source) = compile options file source ∧
      scanSource options file (withReturns source) = scanSource options file source := by
  have scanner := Scanner.ofSource_withReturns (options.nameFor file) options.limit plain
  have parsing : Parsing.ofSource (options.nameFor file) options.limit .empty (withReturns source) =
      Parsing.ofSource (options.nameFor file) options.limit .empty source := by
    unfold Parsing.ofSource
    rw [scanner, quotedLines_withReturns plain]
  constructor
  · simp only [compile, parsing]
  · simp only [scanSource, scanner]

/-- A block with a comment, a line of blanks, a width that fits no block and a character that starts
nothing. -/
def unevenSource : String := "if x: # test\n\ty = 1\n  \n z = $"

theorem compile_withReturns_uneven :
    '\r' ∉ unevenSource.toList ∧
      withReturns unevenSource = "if x: # test\r\n\ty = 1\r\n  \r\n z = $" ∧
      compile {} none (withReturns unevenSource) = compile {} none unevenSource ∧
      scanSource {} none (withReturns unevenSource) = scanSource {} none unevenSource := by
  have plain : '\r' ∉ unevenSource.toList := by decide
  exact ⟨plain, by decide, compile_withReturns {} none plain⟩

end Offside
