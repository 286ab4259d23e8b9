import Offside.Proofs.Compilation.IdleText

/-!
Sources with other margins. Of the widths of the lines with content only the order matters: the leading
blanks of all lines can be replaced, by spaces or tabs, as long as the order of the widths is kept and
lines that are not indented stay so. Blank lines and comments can get any margin.
-/

namespace Offside

def withMargins (margins : List (List Char)) (source : String) : String :=
  String.ofList (['\n'].intercalate (List.zipWith
    (fun margin piece => margin ++ piece.dropWhile Line.isMargin) margins (pieces source.toList)))

/-- A margin that a line can get. A line with content gets one of the width that `f` gives. -/
structure Line.Admits (f : Nat → Nat) (line : Line) (margin : List Char) : Prop where
  blanks : margin.all isMargin = true
  width : line.isIdle = false → margin.length = f line.width

def marginAt (source : String) (number : Int) : Nat :=
  ((pieces source.toList)[(number - 1).toNat]?.getD []).takeWhile Line.isMargin |>.length

/-- Where a place comes to when its line gets another margin. -/
def Location.reindent (source source' : String) (place : Location) : Location :=
  { place with column := place.column + marginAt source' place.line - marginAt source place.line }

theorem dropReturn_margin {margin : List Char} (blanks : margin.all Line.isMargin = true)
    (rest : List Char) : dropReturn (margin ++ rest) = margin ++ dropReturn rest := by
  by_cases last : rest.getLast? = some '\r'
  · obtain ⟨front, rfl⟩ : ∃ front, rest = front ++ ['\r'] :=
      ⟨rest.dropLast, (List.dropLast_append_getLast? _ last).symm⟩
    rw [← List.append_assoc, dropReturn_concat, dropReturn_concat]
  · have whole : (margin ++ rest).getLast? ≠ some '\r' := by
      intro returned
      rw [List.getLast?_append, Option.or_eq_some_iff] at returned
      rcases returned with inside | ⟨-, before⟩
      · exact last inside
      · have blank := List.all_eq_true.mp blanks '\r' (List.mem_of_getLast? before)
        cases blank
    rw [dropReturn_of_last last, dropReturn_of_last whole]

theorem startsWith_dropReturn {isOf : Char → Bool} {rest : List Char}
    (stops : startsWith isOf rest = false) : startsWith isOf (dropReturn rest) = false := by
  by_cases last : rest.getLast? = some '\r'
  · obtain ⟨front, rfl⟩ : ∃ front, rest = front ++ ['\r'] :=
      ⟨rest.dropLast, (List.dropLast_append_getLast? _ last).symm⟩
    rw [dropReturn_concat]
    cases front with
    | nil => rfl
    | cons c others => exact stops
  · rwa [dropReturn_of_last last]

theorem span_margin {margin rest : List Char} (blanks : margin.all Line.isMargin = true)
    (stops : startsWith Line.isMargin rest = false) :
    (margin ++ rest).takeWhile Line.isMargin = margin ∧
      (margin ++ rest).dropWhile Line.isMargin = rest := by
  have each := List.all_eq_true.mp blanks
  have whole : (margin ++ []).takeWhile Line.isMargin = margin ++ [] := List.takeWhile_append_of_pos each
  have none : (margin ++ []).dropWhile Line.isMargin = [] := List.dropWhile_append_of_pos each
  rw [List.append_nil] at whole none
  obtain ⟨taken, left⟩ := takeWhile_append_of_stops margin stops
  rw [taken, left, whole, none]
  exact ⟨rfl, rfl⟩

theorem margin_content {margin rest : List Char} (blanks : margin.all Line.isMargin = true)
    (stops : startsWith Line.isMargin rest = false) (last : Prop) [Decidable last] :
    let content := if last then margin ++ rest else dropReturn (margin ++ rest)
    content.takeWhile Line.isMargin = margin ∧
      content.dropWhile Line.isMargin = if last then rest else dropReturn rest := by
  by_cases ends : last
  · simp only [if_pos ends]
    exact span_margin blanks stops
  · simp only [if_neg ends, dropReturn_margin blanks]
    exact span_margin blanks (startsWith_dropReturn stops)

namespace Line

structure Resembles (f : Nat → Nat) (line line' : Line) : Prop where
  number : line'.number = line.number
  column : line'.column = line.column
  rest : line'.content.dropWhile isMargin = line.content.dropWhile isMargin
  width : line.isIdle = false → line'.width = f line.width

theorem length_ofPieces (number : Nat) (texts : List (List Char)) :
    (ofPieces number texts).length = texts.length := by
  induction texts generalizing number with
  | nil => rfl
  | cons piece rest ih => rw [ofPieces_cons, List.length_cons, ih, List.length_cons]

theorem resembles_ofPieces {f : Nat → Nat} (number : Nat) {texts margins : List (List Char)}
    (admitted : List.Forall₂ (Admits f) (ofPieces number texts) margins) :
    List.Forall₂ (Resembles f) (ofPieces number texts) (ofPieces number (List.zipWith
      (fun margin piece => margin ++ piece.dropWhile isMargin) margins texts)) := by
  induction texts generalizing number margins with
  | nil =>
    cases admitted
    exact .nil
  | cons piece rest ih =>
    rw [ofPieces_cons] at admitted
    obtain _ | ⟨admits, later⟩ := admitted
    rename_i margin others
    have ends : List.zipWith (fun margin piece => margin ++ piece.dropWhile isMargin) others rest = [] ↔
        rest = [] := by
      have lengths := later.length_eq
      rw [length_ofPieces] at lengths
      rw [← List.length_eq_zero_iff, ← List.length_eq_zero_iff, List.length_zipWith]
      omega
    have stops := startsWith_dropWhile isMargin piece
    have before := margin_content (List.all_takeWhile (l := piece)) stops (rest = [])
    have after := margin_content admits.blanks stops (rest = [])
    rw [List.takeWhile_append_dropWhile] at before
    rw [List.zipWith_cons_cons, ofPieces_cons, ofPieces_cons]
    simp only [ends]
    refine .cons ⟨rfl, rfl, ?_, ?_⟩ (ih _ later)
    · dsimp only
      rw [before.2, after.2]
    · intro busy
      rw [width, after.1]
      exact admits.width busy

theorem marginAt_of_mem {source : String} {line : Line} (member : line ∈ ofPieces 1 (pieces source.toList)) :
    marginAt source line.number = line.width := by
  obtain ⟨early, piece, late, cut, rfl⟩ := exists_piece_of_mem member
  have index : (((1 + early.length : Nat) : Int) - 1).toNat = early.length := by omega
  have spans := margin_content (List.all_takeWhile (l := piece)) (startsWith_dropWhile isMargin piece)
    (late = [])
  rw [List.takeWhile_append_dropWhile] at spans
  rw [marginAt, index, cut, List.getElem?_append_right (Nat.le_refl _), Nat.sub_self,
    List.getElem?_cons_zero, Option.getD_some, width, spans.1]

theorem length_content (line : Line) :
    line.content.length = line.width + (line.content.dropWhile isMargin).length := by
  rw [width, ← List.length_append, List.takeWhile_append_dropWhile]

def reindentation (source source' : String) : Relocation where
  move := Location.reindent source source'
  renumber number := number
  lines := quotedLines source'

theorem Resembles.reindents {f : Nat → Nat} {source source' : String} {line line' : Line}
    (resembles : line.Resembles f line') (file : String)
    (member : line ∈ ofPieces 1 (pieces source.toList))
    (member' : line' ∈ ofPieces 1 (pieces source'.toList)) :
    line.Reindents f file (reindentation source source') line' where
  number := resembles.number
  rest := resembles.rest
  width := resembles.width
  places offset := by
    have before := marginAt_of_mem member
    have after := marginAt_of_mem member'
    rw [resembles.number] at after
    simp only [reindentation, Location.reindent, Scanner.placeIn, before, after, resembles.number,
      resembles.column, Location.mk.injEq, true_and]
    omega
  quoted := quoted_of_mem member'

end Line

namespace Scanner

theorem exists_last_line (file : String) (limit : Int) (source : String) :
    ∃ front last, Line.ofPieces 1 (pieces source.toList) = front ++ [last] ∧
      (ofSource file limit source).final = placeIn file last (last.column + last.content.length) := by
  obtain ⟨early, last, cut⟩ := exists_pieces_concat source.toList
  refine ⟨Line.ended 1 early, ⟨1 + early.length, quotedLine last, 1, last⟩, ?_, ?_⟩
  · rw [cut, Line.ofPieces_append _ _ (List.cons_ne_nil _ _)]
    rfl
  · rw [placeAfter_source, placeAfter_of_pieces file cut]
    simp only [placeIn, Location.mk.injEq, true_and]
    omega

end Scanner

section

variable {f : Nat → Nat} {source : String} {margins : List (List Char)}

theorem Line.blanks_of_admitted {lines : List Line} (admitted : List.Forall₂ (Line.Admits f) lines margins) :
    ∀ margin ∈ margins, margin.all isMargin = true := by
  induction admitted with
  | nil => exact List.forall_mem_nil _
  | cons admits later ih => exact List.forall_mem_cons.mpr ⟨admits.blanks, ih⟩

theorem pieces_withMargins
    (admitted : List.Forall₂ (Line.Admits f) (Line.ofPieces 1 (pieces source.toList)) margins) :
    pieces (withMargins margins source).toList = List.zipWith
      (fun margin piece => margin ++ piece.dropWhile Line.isMargin) margins (pieces source.toList) := by
  have lengths := admitted.length_eq
  rw [Line.length_ofPieces] at lengths
  rw [withMargins, String.toList_ofList, pieces_lineFeeds]
  · rw [ne_eq, ← List.length_eq_zero_iff, List.length_zipWith, ← lengths, Nat.min_self,
      List.length_eq_zero_iff]
    exact pieces_ne_nil _
  · intro text found
    rw [← List.map_uncurry_zip_eq_zipWith, List.mem_map] at found
    obtain ⟨⟨margin, piece⟩, paired, rfl⟩ := found
    obtain ⟨listed, among⟩ := List.of_mem_zip paired
    have blanks := List.all_eq_true.mp (Line.blanks_of_admitted admitted margin listed)
    intro feed
    rcases List.mem_append.mp feed with before | inside
    · have blank := blanks '\n' before
      cases blank
    · exact flat_of_mem_pieces _ piece among ((List.dropWhile_sublist _).subset inside)

theorem Scanner.reindent_ofSource (file : String) (limit : Int) (increasing : StrictMono f) (base : f 0 = 0)
    (admitted : List.Forall₂ (Line.Admits f) (Line.ofPieces 1 (pieces source.toList)) margins) :
    let source' := withMargins margins source
    (ofSource file limit source').run.pulls = (ofSource file limit source).run.pulls.map
        (Pull.reindent f (Line.reindentation source source')) ∧
      (ofSource file limit source').run.ending =
        (ofSource file limit source).run.ending.relocate (Line.reindentation source source') := by
  intro source'
  have resembling := Line.resembles_ofPieces 1 admitted
  rw [← pieces_withMargins admitted] at resembling
  have reindented : List.Forall₂ (Line.Reindents f file (Line.reindentation source source'))
      (Line.ofPieces 1 (pieces source.toList)) (Line.ofPieces 1 (pieces source'.toList)) := by
    rw [List.forall₂_iff_zip] at resembling ⊢
    refine ⟨resembling.1, fun paired => ?_⟩
    obtain ⟨member, member'⟩ := List.of_mem_zip paired
    exact (resembling.2 paired).reindents file member member'
  have final : (ofSource file limit source').final =
      (Line.reindentation source source').move (ofSource file limit source).final := by
    obtain ⟨front, last, lines, ends⟩ := exists_last_line file limit source
    obtain ⟨front', last', lines', ends'⟩ := exists_last_line file limit source'
    have backwards := reindented
    rw [lines, lines', ← List.forall₂_reverse_iff, List.reverse_concat, List.reverse_concat] at backwards
    obtain _ | ⟨reindents, -⟩ := backwards
    have places := reindents.places (last.content.dropWhile Line.isMargin).length
    rw [ends, ends', Line.length_content last, Line.length_content last', reindents.rest, ← Nat.add_assoc,
      ← Nat.add_assoc, places]
  exact reindent_runLines increasing base (ofSource file limit source) (ofSource file limit source') rfl rfl
    final reindented []

end

/-- Of the widths of lines only the order matters. When the lines of a source with content get margins
whose widths are those before, mapped by an increasing function that keeps zero, and the other lines get
any margins, the scan gives the same kinds and payloads, ends in the same way at the same line, and
records the same faults at the same lines, with the widths that they name mapped. So the program, the
variables and the C text are the same. -/
theorem widths_matter_by_order (options : Options) (file : Option String) {f : Nat → Nat} {source : String}
    {margins : List (List Char)} (increasing : StrictMono f) (base : f 0 = 0)
    (admitted : List.Forall₂ (Line.Admits f) (Line.ofPieces 1 (pieces source.toList)) margins) :
    let source' := withMargins margins source
    let move := Location.reindent source source'
    let scan := (Scanner.ofSource (options.nameFor file) options.limit source).run
    let scan' := (Scanner.ofSource (options.nameFor file) options.limit source').run
    (scan'.tokens = scan.tokens.map (Token.relocate move) ∧
      (problems scan'.journal).map Diagnostic.cause = (problems scan.journal).map (·.cause.rewiden f) ∧
      (problems scan'.journal).map Diagnostic.place = (problems scan.journal).map (·.place.map move)) ∧
    (∀ problem, (compile options file source).result = .error problem →
      ∃ problem', (compile options file source').result = .error problem' ∧
        problem'.cause = problem.cause ∧ problem'.place = problem.place.map move) ∧
    ∀ compilation, (compile options file source).result = .ok compilation →
      ∃ compilation', (compile options file source').result = .ok compilation' ∧
        compilation'.statements = Stmt.relocateAll move compilation.statements ∧
        compilation'.names = compilation.names ∧ compilation'.tokenCount = compilation.tokenCount ∧
        compilation'.problems.map Diagnostic.cause = compilation.problems.map (·.cause.rewiden f) ∧
        compilation'.problems.map Diagnostic.place = compilation.problems.map (·.place.map move) ∧
        compilation'.code = compilation.code := by
  intro source' move scan scan'
  obtain ⟨pulls, ending⟩ := Scanner.reindent_ofSource (options.nameFor file) options.limit increasing base
    admitted
  have faults : problems scan'.journal = (problems scan.journal).map
      (Diagnostic.reindent f (Line.reindentation source source')) := by
    rw [Scan.journal, pulls, problems_pulls_reindent]
    rfl
  refine ⟨⟨?_, ?_, ?_⟩, ?_, ?_⟩
  · rw [Scan.tokens, pulls, List.map_map, Scan.tokens, List.map_map]
    rfl
  · rw [faults, List.map_map]
    rfl
  · rw [faults, List.map_map]
    rfl
  · intro problem failed
    cases done : (Scanner.ofSource (options.nameFor file) options.limit source).run.ending with
    | finished =>
      rw [compile_of_finished done] at failed
      cases failed
    | overflow fault =>
      rw [done] at ending
      rw [compile_of_overflow done] at failed
      cases failed
      exact ⟨_, compile_of_overflow ending, rfl, rfl⟩
  · intro compilation compiled
    obtain ⟨compiled', -⟩ := compile_reindent f (Line.reindentation source source') rfl pulls ending compiled
    refine ⟨_, compiled', rfl, rfl, rfl, ?_, ?_, Compilation.code_reindent _ _ compilation⟩
    · rw [Compilation.reindent, List.map_map]
      rfl
    · rw [Compilation.reindent, List.map_map]
      rfl

/-- Two blocks, a comment, and a line between the widths of the blocks. -/
def steppedSource : String := "if x:\n  if x:\n    y = 1\n # why\n   w = 2\n"

/-- Margins whose widths are squares of those before, and others for the lines without content. -/
def squaredMargins : List (List Char) :=
  [[], List.replicate 4 '\t', List.replicate 16 ' ', ['\t', '\t'], ' ' :: List.replicate 8 '\t', [' ']]

theorem widths_matter_by_order_squared :
    StrictMono (fun width : Nat => width * width) ∧
      List.Forall₂ (Line.Admits fun width => width * width)
        (Line.ofPieces 1 (pieces steppedSource.toList)) squaredMargins ∧
      withMargins squaredMargins steppedSource =
        "if x:\n\t\t\t\tif x:\n                y = 1\n\t\t# why\n \t\t\t\t\t\t\t\tw = 2\n " ∧
      ∃ compilation compilation', (compile {} none steppedSource).result = .ok compilation ∧
        compilation.problems[2]?.map Diagnostic.cause = some (.misalignedDedent 3 2) ∧
        (compile {} none (withMargins squaredMargins steppedSource)).result = .ok compilation' ∧
        compilation'.statements = Stmt.relocateAll
          (Location.reindent steppedSource (withMargins squaredMargins steppedSource)) compilation.statements ∧
        compilation'.problems[2]?.map Diagnostic.cause = some (.misalignedDedent 9 4) := by
  have increasing : StrictMono (fun width : Nat => width * width) :=
    fun _ _ less => Nat.mul_self_lt_mul_self less
  have admitted : List.Forall₂ (Line.Admits fun width => width * width)
      (Line.ofPieces 1 (pieces steppedSource.toList)) squaredMargins :=
    .cons ⟨rfl, fun _ => rfl⟩ <| .cons ⟨rfl, fun _ => rfl⟩ <| .cons ⟨rfl, fun _ => rfl⟩ <|
      .cons ⟨rfl, fun busy => by cases busy⟩ <| .cons ⟨rfl, fun _ => rfl⟩ <|
      .cons ⟨rfl, fun busy => by cases busy⟩ .nil
  have fault : (compile {} none steppedSource).result.toOption.map
      (·.problems[2]?.map Diagnostic.cause) = some (some (.misalignedDedent 3 2)) := by
    decide +kernel
  refine ⟨increasing, admitted, by decide +kernel, ?_⟩
  cases compiled : (compile {} none steppedSource).result with
  | error problem =>
    rw [compiled] at fault
    cases fault
  | ok compilation =>
    rw [compiled] at fault
    have told : compilation.problems[2]?.map Diagnostic.cause = some (.misalignedDedent 3 2) :=
      Option.some.inj fault
    obtain ⟨compilation', compiled', statements, -, -, causes, -⟩ :=
      (widths_matter_by_order {} none increasing rfl admitted).2.2 compilation compiled
    refine ⟨compilation, compilation', rfl, told, compiled', statements, ?_⟩
    have third := congrArg (·[2]?) causes
    simp only [List.getElem?_map] at third
    obtain ⟨problem, found, cause⟩ := Option.map_eq_some_iff.mp told
    rw [third, found, Option.map_some, cause]
    rfl

end Offside
