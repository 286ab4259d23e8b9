import Offside.Proofs.Grammar.Interleaving
import Offside.Proofs.Scanner.Places

/-!
Where the faults of a compilation point. The faults of reading carry the line that was being read, those
of grammar and of names the line that has the number of their token; both are the line of the source
that the place of the fault is in, and the caret stands under what the fault is about.
-/

namespace Offside

/-- What a fault points at in a source that is cut at its place: what a fault of reading is about, or
else a token that was read there and that the fault names. -/
def Diagnostic.PointsAt (tokens : List Token) (before after : List Char) (problem : Diagnostic) : Prop :=
  problem.cause.Marks before after ∨
    ∃ token ∈ tokens, problem.place = some token.place ∧ token.Marks before after ∧
      (problem.cause.Accuses token ∨ token.kind = .name ∧
        ∃ similar, problem.cause = .undefinedVariable token.payload.shown similar)

/-- A fault at a place of a source, and how it is shown. The piece is the line of the place with all
its returns. -/
structure Diagnostic.PointsInto (file source : String) (tokens : List Token) (place : Location)
    (before after piece : List Char) (problem : Diagnostic) : Prop where
  located : problem.place = some place
  cut : source.toList = before ++ after
  behind : place = placeAfter file before
  line : 1 ≤ place.line ∧ place.line ≤ (quotedLines source).length
  inLine : (pieces source.toList)[(place.line - 1).toNat]? = some piece
  column : 1 ≤ place.column ∧ place.column ≤ piece.length + 1
  rest : piece.drop (place.column - 1).toNat = after.takeWhile (· ≠ '\n')
  quoted : problem.line = some (quotedLine piece)
  listed : problem.line = (quotedLines source)[(place.line - 1).toNat]?
  points : problem.PointsAt tokens before after
  shown : problem.text = "\n".intercalate
    ([place.text ++ ": error: " ++ problem.cause.message, "    " ++ quotedLine piece,
      String.ofList (List.replicate (4 + (place.column - 1).toNat) ' ' ++ ['^'])] ++
      (problem.cause.hint.map ("hint: " ++ ·)).toList)

/-- The faults of a parsing: those that it records, and the one that ends it early. -/
def Parsing.faults (parsing : Parsing) : List Diagnostic :=
  problems parsing.journal ++
    match parsing.result with
    | .ok _ => []
    | .error problem => [problem]

theorem takeWhile_of_pieces {text first : List Char} {late : List (List Char)}
    (cut : pieces text = first :: late) : text.takeWhile (· ≠ '\n') = first := by
  induction text generalizing first late with
  | nil => exact (List.cons.inj cut).1
  | cons c rest ih =>
    obtain ⟨next, others, shorter⟩ := exists_pieces_cons rest
    rw [pieces, shorter] at cut
    by_cases feed : c = '\n'
    · rw [if_pos feed] at cut
      rw [List.takeWhile_cons_of_neg (by simp [feed])]
      exact (List.cons.inj cut).1
    · rw [if_neg feed] at cut
      rw [List.takeWhile_cons_of_pos (by simp [feed]), ih shorter]
      exact (List.cons.inj cut).1

theorem exists_piece_of_cut (file : String) {source before after : List Char}
    (cut : source = before ++ after) :
    ∃ early last first late, pieces source = early ++ (last ++ first) :: late ∧
      placeAfter file before = ⟨file, early.length + 1, last.length + 1⟩ ∧
      after.takeWhile (· ≠ '\n') = first := by
  obtain ⟨early, last, ended⟩ := exists_pieces_concat before
  obtain ⟨first, late, started⟩ := exists_pieces_cons after
  refine ⟨early, last, first, late, ?_, placeAfter_of_pieces file ended, takeWhile_of_pieces started⟩
  rw [cut]
  exact pieces_append ended started

theorem Cause.hint_ne_empty {cause : Cause} {hint : String} (given : cause.hint = some hint)
    (own : ∀ stage message hint, cause ≠ .general stage message hint) : hint ≠ "" := by
  unfold Cause.hint at given
  split at given
  next stage message hint => exact absurd rfl (own stage message hint)
  next => cases given; simp
  next => cases given; simp
  next expected =>
    split at given
    · cases given
    · cases given; simp
  next => cases given; simp
  next => cases given; simp
  next similar =>
    split at given
    · cases given
    · cases given; simp
  next => cases given

namespace Diagnostic

theorem PointsAt.own {tokens : List Token} {before after : List Char} {problem : Diagnostic}
    (points : problem.PointsAt tokens before after) :
    (∀ stage message hint, problem.cause ≠ .general stage message hint) ∧
      ∀ report, problem.cause ≠ .failed report := by
  constructor
  · rintro stage message hint cause
    rcases points with marks | ⟨token, _, _, _, accuses | ⟨_, similar, undefined⟩⟩
    · rw [cause] at marks
      exact marks
    · rw [cause] at accuses
      exact accuses
    · rw [cause] at undefined
      cases undefined
  · rintro report cause
    rcases points with marks | ⟨token, _, _, _, accuses | ⟨_, similar, undefined⟩⟩
    · rw [cause] at marks
      exact marks
    · rw [cause] at accuses
      exact accuses
    · rw [cause] at undefined
      cases undefined

theorem text_of_located {problem : Diagnostic} {place : Location} {line : String}
    (located : problem.place = some place) (quoted : problem.line = some line)
    (column : 1 ≤ place.column)
    (plain : ∀ stage message hint, problem.cause ≠ .general stage message hint)
    (single : ∀ report, problem.cause ≠ .failed report) :
    problem.text = "\n".intercalate
      ([place.text ++ ": error: " ++ problem.cause.message, "    " ++ line,
        String.ofList (List.replicate (4 + (place.column - 1).toNat) ' ' ++ ['^'])] ++
        (problem.cause.hint.map ("hint: " ++ ·)).toList) := by
  have header : problem.header = place.text ++ ": error: " ++ problem.cause.message := by
    rw [Diagnostic.header, located]
  have excerpt : problem.excerpt = ["    " ++ line,
      String.ofList (List.replicate (4 + (place.column - 1).toNat) ' ' ++ ['^'])] := by
    have width : 4 + place.column.toNat - 1 = 4 + (place.column - 1).toNat := by omega
    rw [Diagnostic.excerpt, located, quoted]
    dsimp only
    rw [caret, if_pos (by omega), width]
  have advice : problem.advice = (problem.cause.hint.map ("hint: " ++ ·)).toList := by
    unfold Diagnostic.advice
    cases given : problem.cause.hint with
    | none => rfl
    | some hint => exact if_neg (Cause.hint_ne_empty given plain)
  unfold text
  split
  next report failed => exact absurd failed (single report)
  next => rw [header, excerpt, advice]

theorem exists_pointsInto {file source : String} {tokens : List Token} {problem : Diagnostic}
    {place : Location} (located : problem.place = some place)
    (quoted : problem.line = lineAt? (quotedLines source) place.line)
    (cuts : place.Cuts file source fun before after => problem.PointsAt tokens before after) :
    ∃ before after piece, problem.PointsInto file source tokens place before after piece := by
  obtain ⟨before, after, cut, behind, points⟩ := cuts
  obtain ⟨early, last, first, late, lines, here, rest⟩ := exists_piece_of_cut file cut
  have line : place.line = early.length + 1 := by rw [behind, here]
  have column : place.column = last.length + 1 := by rw [behind, here]
  have number : (place.line - 1).toNat = early.length := by omega
  have offset : (place.column - 1).toNat = last.length := by omega
  have listed : (quotedLines source)[(place.line - 1).toNat]? = some (quotedLine (last ++ first)) := by
    rw [quotedLines, lines, number]
    simp
  have quote : problem.line = some (quotedLine (last ++ first)) := by
    rw [quoted, lineAt?, if_pos (by omega), listed]
  refine ⟨before, after, last ++ first, located, cut, behind, ⟨by omega, ?_⟩, ?_, ⟨by omega, ?_⟩, ?_,
    quote, quote.trans listed.symm, points, ?_⟩
  · rw [quotedLines, lines, List.length_map, List.length_append, List.length_cons]
    omega
  · rw [lines, number]
    simp
  · rw [List.length_append]
    omega
  · rw [offset, List.drop_left, rest]
  · exact text_of_located located quote (by omega) points.own.1 points.own.2

end Diagnostic

theorem Event.IsAbout.exists_place {event : Event} {token : Token} (about : event.IsAbout token)
    {lines : List String} {scope : Scope} {problem : Diagnostic}
    (recorded : problem ∈ problems (event.resolve lines scope).1) :
    problem.place = some token.place ∧ problem.line = lineAt? lines token.place.line ∧
      (problem.cause.Accuses token ∨ token.kind = .name ∧
        ∃ similar, problem.cause = .undefinedVariable token.payload.shown similar) := by
  cases event with
  | noted entry => exact about.elim
  | rejected cause accused =>
    obtain ⟨rfl, accuses⟩ := about
    cases List.mem_singleton.mp recorded
    exact ⟨rfl, rfl, .inl accuses⟩
  | used name =>
    obtain ⟨rfl, kind⟩ := about
    simp only [resolve] at recorded
    split at recorded
    · cases recorded
    · cases List.mem_singleton.mp recorded
      exact ⟨rfl, rfl, .inr ⟨kind, _, rfl⟩⟩
  | assigned target =>
    simp only [resolve] at recorded
    split at recorded <;> cases recorded
  | recovered skipped => cases recorded

theorem Parse.exists_pointsInto {file source : String} {pulls : List Pull}
    (placed : ∀ pull ∈ pulls, pull.IsPlaced file source) {scope : Scope} {problem : Diagnostic}
    (recorded : problem ∈
      problems (Event.resolveAll (quotedLines source) scope (initial.run pulls).2).1) :
    ∃ place before after piece,
      problem.PointsInto file source (pulls.map Pull.token) place before after piece := by
  obtain ⟨event, listed, reached, recorded⟩ := Event.exists_event_of_problem recorded
  have said : ∀ pull ∈ pulls, ∀ event : Event, event.IsAbout pull.token →
      ∃ pull ∈ pulls, event.IsAbout pull.token :=
    fun pull member event about => ⟨pull, member, about⟩
  rcases mem_run (List.forall_mem_nil _) said listed with ⟨pull, member, entry, happened, rfl⟩ | ⟨pull, member, about⟩
  · have read : problem ∈ problems pull.journal := by
      obtain ⟨other, found, fault⟩ := List.mem_filterMap.mp recorded
      rw [List.mem_singleton.mp found] at fault
      exact List.mem_filterMap.mpr ⟨entry, happened, fault⟩
    obtain ⟨place, located, quoted, before, after, cut, behind, marks⟩ :=
      (placed pull member).faults problem read
    exact ⟨place, Diagnostic.exists_pointsInto located quoted
      ⟨before, after, cut, behind, .inl marks⟩⟩
  · obtain ⟨located, quoted, accused⟩ := about.exists_place recorded
    obtain ⟨before, after, cut, behind, marks⟩ := (placed pull member).token
    exact ⟨pull.token.place, Diagnostic.exists_pointsInto located quoted ⟨before, after, cut, behind,
      .inr ⟨pull.token, List.mem_map_of_mem member, located, marks, accused⟩⟩⟩

theorem Parsing.exists_pointsInto {file : String} {limit : Int} {scope : Scope} {source : String}
    {problem : Diagnostic} (found : problem ∈ (ofSource file limit scope source).faults) :
    ∃ place before after piece, problem.PointsInto file source
      (Scanner.ofSource file limit source).run.tokens place before after piece := by
  have placed := Scanner.isPlaced_run file limit source
  cases ending : (Scanner.ofSource file limit source).run.ending with
  | finished =>
    obtain ⟨inner, last, tokens, ends, inside, _⟩ := Scanner.exists_tokens_run ending
    simp only [ofSource, ending, faults, List.append_nil,
      Parsed.ofPulls_eq_run file tokens inside ends] at found
    exact Parse.exists_pointsInto placed found
  | overflow fault =>
    simp only [ofSource, ending, faults, List.mem_append, List.mem_singleton] at found
    rcases found with recorded | rfl
    · exact Parse.exists_pointsInto placed recorded
    · obtain ⟨place, located, quoted, before, after, cut, behind, marks⟩ :=
        Scanner.isPlaced_overflow ending
      exact ⟨place, Diagnostic.exists_pointsInto located quoted
        ⟨before, after, cut, behind, .inl marks⟩⟩

theorem problems_of_compiled {options : Options} {file : Option String} {source : String}
    {compilation : Compilation} (compiled : (compile options file source).result = .ok compilation) :
    compilation.problems =
      (Parsing.ofSource (options.nameFor file) options.limit .empty source).faults := by
  simp only [compile] at compiled
  split at compiled
  next => cases compiled
  next parsed parsing =>
    cases compiled
    simp only [Parsing.faults, parsing, List.append_nil]

/-- Every fault of a compilation has a place in the source, with a line that the source has and a column
of that line or right behind it; it quotes that line, points at the first character of what it is about,
and is shown by its message, the line, a caret under the column and its hint. So is the fault of a source
with too many levels, and those that were recorded before it. -/
theorem faults_point_into_source (options : Options) (file : Option String) (source : String) :
    let name := options.nameFor file
    let faults := (Parsing.ofSource name options.limit .empty source).faults
    (∀ problem ∈ faults, ∃ place before after piece, problem.PointsInto name source
      (Scanner.ofSource name options.limit source).run.tokens place before after piece) ∧
    (∀ compilation, (compile options file source).result = .ok compilation →
      compilation.problems = faults) ∧
    ∀ problem, (compile options file source).result = .error problem → problem ∈ faults := by
  refine ⟨fun problem found => Parsing.exists_pointsInto found,
    fun compilation => problems_of_compiled, ?_⟩
  intro problem compiled
  simp only [compile] at compiled
  split at compiled
  next fault parsing =>
    cases compiled
    simp only [Parsing.faults, parsing]
    exact List.mem_append_right _ List.mem_cons_self
  next => cases compiled

/-- Characters that start nothing, two of them returns, a number that is too large, a variable without a
value, a stray block, and lines that end too early and too late. -/
def stainedSource : String := "if $x: # t\r\n\tz = 9999999999999999999\r\r\n y = (z\n  z = 2 3\r"

def stainedFault : String :=
  "<input>:4:9: error: syntax error at '3'\n      z = 2 3\n            ^\nhint: expected end of line"

def steepSource : String := "x = 1 +\r\nif x:\n  if x:\n\t\t\ty\r"

theorem faults_point_into_source_stained :
    (∃ compilation problem place before after piece,
      (compile {} none stainedSource).result = .ok compilation ∧ compilation.problems.length = 8 ∧
      problem ∈ compilation.problems ∧
      problem.text = stainedFault ∧
      problem.PointsInto "<input>" stainedSource
        (Scanner.ofSource "<input>" 100 stainedSource).run.tokens place before after piece) ∧
    ∃ problem place before after piece,
      (compile { limit := 1 } none steepSource).result = .error problem ∧
      problem.PointsInto "<input>" steepSource
        (Scanner.ofSource "<input>" 1 steepSource).run.tokens place before after piece := by
  constructor
  · obtain ⟨points, all, -⟩ := faults_point_into_source {} none stainedSource
    have told : (compile {} none stainedSource).result.toOption.map (fun compilation =>
        (compilation.problems.length, (compilation.problems.map Diagnostic.text)[6]?)) =
          some (8, some stainedFault) := by
      decide +kernel
    cases compiled : (compile {} none stainedSource).result with
    | error problem =>
      rw [compiled] at told
      cases told
    | ok compilation =>
      rw [compiled] at told
      obtain ⟨count, text⟩ := Prod.mk.inj (Option.some.inj told)
      rw [List.getElem?_map, Option.map_eq_some_iff] at text
      obtain ⟨problem, found, text⟩ := text
      have member := List.mem_of_getElem? found
      have fault := member
      rw [all compilation compiled] at fault
      obtain ⟨place, before, after, piece, into⟩ := points problem fault
      exact ⟨compilation, problem, place, before, after, piece, rfl, count, member, text, into⟩
  · obtain ⟨points, -, last⟩ := faults_point_into_source { limit := 1 } none steepSource
    have stops : (compile { limit := 1 } none steepSource).result.toOption.isNone = true := by
      decide +kernel
    cases compiled : (compile { limit := 1 } none steepSource).result with
    | error problem =>
      obtain ⟨place, before, after, piece, into⟩ := points problem (last problem compiled)
      exact ⟨problem, place, before, after, piece, rfl, into⟩
    | ok compilation =>
      rw [compiled] at stops
      cases stops

end Offside
