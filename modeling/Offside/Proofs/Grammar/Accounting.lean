import Offside.Compilation
import Offside.Proofs.Grammar.MachineSound
import Offside.Proofs.Scanner.Layout

/-!
A parse without a fault of grammar accounts for its tokens: written out, the program is the tokens that
were read. Where a whole compilation succeeds, these are all the tokens of the source, since a line
with content that gives no lexeme records a fault.
-/

namespace Offside

namespace Token

theorem withoutEmptyLines_margin {margin : List Token}
    (kinds : ∀ token ∈ margin, token.kind = .indent ∨ token.kind = .dedent) (rest : List Token) :
    withoutEmptyLines true (margin ++ rest) = margin ++ withoutEmptyLines true rest := by
  induction margin with
  | nil => rfl
  | cons token others ih =>
    rw [List.forall_mem_cons] at kinds
    rcases kinds.1 with kind | kind <;>
      simp [withoutEmptyLines, kind, Kind.isStructural, ih kinds.2]

theorem withoutEmptyLines_inside {body : List Token} {last : Token}
    (plain : ∀ token ∈ body, token.kind.isStructural = false) (ends : last.kind = .endOfLine)
    (rest : List Token) :
    withoutEmptyLines false (body ++ last :: rest) = body ++ last :: withoutEmptyLines true rest := by
  induction body with
  | nil => simp [withoutEmptyLines, ends, Kind.isStructural]
  | cons token others ih =>
    rw [List.forall_mem_cons] at plain
    simp [withoutEmptyLines, plain.1, ih plain.2]

theorem withoutEmptyLines_line {body : List Token} {last : Token} (nonempty : body ≠ [])
    (plain : ∀ token ∈ body, token.kind.isStructural = false) (ends : last.kind = .endOfLine)
    (rest : List Token) :
    withoutEmptyLines true (body ++ last :: rest) = body ++ last :: withoutEmptyLines true rest := by
  cases body with
  | nil => contradiction
  | cons token others =>
    rw [List.forall_mem_cons] at plain
    have inside : token.kind ≠ .endOfLine := by
      intro kind
      rw [kind] at plain
      cases plain.1
    simp [withoutEmptyLines, inside, plain.1, withoutEmptyLines_inside plain.2 ends]

end Token

namespace Scanner

/-- The tokens of a run to the end: one end of input, and before it no empty line unless a fault was
recorded. -/
theorem exists_tokens_runLines {scanner : Scanner} {levels : Levels} {lines : List Line}
    (done : (runLines scanner levels lines).ending = .finished) :
    ∃ inner last, (runLines scanner levels lines).tokens = inner ++ [last] ∧
      last.kind = .endOfInput ∧ (∀ token ∈ inner, token.kind ≠ .endOfInput) ∧
      (problems (runLines scanner levels lines).journal = [] →
        Token.withoutEmptyLines true inner = inner) := by
  fun_induction runLines scanner levels lines with
  | case1 levels =>
    obtain ⟨inner, last, same, _, closing, ends⟩ := exists_tokens_finalPulls scanner.final levels
    refine ⟨inner, last, same, ends, ?_, fun _ => ?_⟩
    · intro token found
      rw [closing token found]
      decide
    · have whole := Token.withoutEmptyLines_margin (fun token found => .inr (closing token found)) []
      rwa [List.append_nil, Token.withoutEmptyLines, List.append_nil] at whole
  | case2 levels line rest idle ih => exact ih done
  | case3 levels line rest busy deep problem => cases done
  | case4 levels line rest busy fits later ih =>
    rw [Bool.not_eq_true] at busy
    obtain ⟨inner, final, same, ends, inside, full⟩ := ih done
    obtain ⟨body, last, tokens, lineEnds, plain, nonempty⟩ :=
      exists_tokens_linePulls scanner.file levels busy
    refine ⟨marginTokens (placeIn scanner.file line (line.column + line.width)) levels line.width ++
      (body ++ last :: inner), final, ?_, ends, ?_, ?_⟩
    · change (linePulls _ _ _ ++ later.pulls).map Pull.token = _
      rw [List.map_append, tokens, show later.pulls.map Pull.token = inner ++ [final] from same]
      simp only [List.append_assoc, List.cons_append, List.nil_append]
    · intro token found kind
      rw [List.mem_append, List.mem_append, List.mem_cons] at found
      rcases found with margin | found | rfl | found
      · rcases marginTokens_kind margin with other | other <;> rw [kind] at other <;> cases other
      · have := plain token found
        rw [kind] at this
        cases this
      · rw [kind] at lineEnds
        cases lineEnds
      · exact inside token found kind
    · intro clean
      change problems ((linePulls _ _ _ ++ later.pulls).flatMap Pull.journal) = [] at clean
      rw [List.flatMap_append, problems_append, List.append_eq_nil_iff] at clean
      rw [Token.withoutEmptyLines_margin fun token found => marginTokens_kind found,
        Token.withoutEmptyLines_line (nonempty clean.1) plain lineEnds, full clean.2]

theorem exists_tokens_run {scanner : Scanner} (done : scanner.run.ending = .finished) :
    ∃ inner last, scanner.run.tokens = inner ++ [last] ∧ last.kind = .endOfInput ∧
      (∀ token ∈ inner, token.kind ≠ .endOfInput) ∧
      (problems scanner.run.journal = [] → Token.withoutEmptyLines true inner = inner) :=
  exists_tokens_runLines done

end Scanner

theorem Parse.noted_mem_run (parse : Parse) {pulls : List Pull} {pull : Pull} {entry : Entry}
    (member : pull ∈ pulls) (found : entry ∈ pull.journal) :
    .noted entry ∈ (parse.run pulls).2 := by
  induction pulls generalizing parse with
  | nil => cases member
  | cons first rest ih =>
    simp only [run, List.append_assoc, List.mem_append]
    rcases List.mem_cons.mp member with rfl | later
    · exact .inl (List.mem_map_of_mem found)
    · exact .inr (.inr (ih _ later))

namespace Parsed

theorem kind_of_mem_before {tokens : List Token} {token : Token} (found : token ∈ before tokens) :
    token.kind ≠ .endOfInput := by
  simpa using List.all_eq_true.mp List.all_takeWhile token found

theorem exists_clean_drive (file : String) (pulls : List Pull) (lines : List String) (scope : Scope)
    (faultless : ∀ problem ∈ problems (Event.resolveAll lines scope (ofPulls file pulls).events).1,
      problem.cause.stage ≠ some .grammatical) :
    ∃ last : Token, last.kind = .endOfInput ∧
      (ofPulls file pulls).statements =
        (Machine.initial.drive (before (pulls.map Pull.token) ++ [last])).1.statements.reverse ∧
      Machine.Clean (Machine.initial.drive (before (pulls.map Pull.token) ++ [last])).2 ∧
      (ofPulls file pulls).events.filter Event.isQuiet =
        (Machine.initial.drive (before (pulls.map Pull.token) ++ [last])).2.filter Event.isQuiet := by
  obtain ⟨last, ends, sameStatements, sameEvents⟩ := ofPulls_eq_drive file pulls
  refine ⟨last, ends, sameStatements, ?_, sameEvents Event.isQuiet fun _ _ _ _ => rfl⟩
  intro event found
  rw [Bool.eq_false_iff]
  intro fault
  have kept := List.mem_filter.mpr ⟨found, fault⟩
  rw [← sameEvents Event.isFault fun _ _ _ _ => rfl] at kept
  have sound := Event.isFault_eq_false faultless (List.mem_filter.mp kept).1
  rw [fault] at sound
  cases sound

/-- A parse without a fault of grammar gives a canonical program, which written out is the tokens
before the end of the input, empty lines apart. -/
theorem lexemes_of_faultless (file : String) (pulls : List Pull) (lines : List String) (scope : Scope)
    (faultless : ∀ problem ∈ problems (Event.resolveAll lines scope (ofPulls file pulls).events).1,
      problem.cause.stage ≠ some .grammatical) :
    (Token.withoutEmptyLines true (before (pulls.map Pull.token))).map Token.lexeme =
        Stmt.lexemesOfAll (ofPulls file pulls).statements ∧
      Stmt.CanonicalAll (ofPulls file pulls).statements := by
  obtain ⟨last, ends, sameStatements, clean, -⟩ :=
    exists_clean_drive file pulls lines scope faultless
  rw [Machine.drive_append] at clean sameStatements
  have inside : ∀ token ∈ before (pulls.map Pull.token), token.kind ≠ .endOfInput :=
    fun _ => kind_of_mem_before
  obtain ⟨valid, accounted⟩ := Machine.drive_lexemes Machine.valid_initial inside clean.left
  obtain ⟨canonical, spelled⟩ := Machine.react_end valid ends clean.right.left.left
  rw [sameStatements]
  exact ⟨accounted.symm.trans spelled.symm, canonical⟩

end Parsed

theorem Parsed.journal_faultless {file : String} {pulls : List Pull} {inner : List Token}
    {last : Token} {lines : List String} {scope : Scope}
    (tokens : pulls.map Pull.token = inner ++ [last])
    (inside : ∀ token ∈ inner, token.kind ≠ .endOfInput) (ends : last.kind = .endOfInput)
    (nothing : problems (Event.resolveAll lines scope (ofPulls file pulls).events).1 = []) :
    problems (pulls.flatMap Pull.journal) = [] := by
  rw [List.eq_nil_iff_forall_not_mem]
  intro problem member
  obtain ⟨entry, listed, fault⟩ := List.mem_filterMap.mp member
  obtain ⟨pull, among, read⟩ := List.mem_flatMap.mp listed
  have noted : .noted entry ∈ (ofPulls file pulls).events := by
    rw [ofPulls_eq_run file tokens inside ends]
    exact Parse.noted_mem_run .initial among read
  have kept := Event.mem_problems_of_noted lines scope noted fault
  rw [nothing] at kept
  cases kept

theorem Parsing.ofSource_of_finished {file : String} {limit : Int} {source : String}
    (done : (Scanner.ofSource file limit source).run.ending = .finished) (scope : Scope) :
    let parsed := Parsed.ofPulls file (Scanner.ofSource file limit source).run.pulls
    let resolved := Event.resolveAll (quotedLines source) scope parsed.events
    ofSource file limit scope source = ⟨resolved.1, resolved.2, .ok parsed⟩ := by
  simp only [ofSource, done]

theorem Parsing.ofSource_of_ok {file : String} {limit : Int} {scope : Scope} {source : String}
    {parsed : Parsed} (result : (ofSource file limit scope source).result = .ok parsed) :
    let scan := (Scanner.ofSource file limit source).run
    scan.ending = .finished ∧ parsed = Parsed.ofPulls file scan.pulls ∧
      (ofSource file limit scope source).journal =
        (Event.resolveAll (quotedLines source) scope parsed.events).1 := by
  cases ending : (Scanner.ofSource file limit source).run.ending with
  | finished =>
    simp only [ofSource_of_finished ending scope, Except.ok.injEq] at result ⊢
    exact ⟨ending, result.symm, by rw [result]⟩
  | overflow problem =>
    simp only [ofSource, ending] at result
    cases result

/-- A scan to the end whose parse records nothing: it recorded nothing itself, and none of its lines
is empty. -/
theorem Scanner.exists_tokens_of_faultless {scanner : Scanner} {file : String} {lines : List String}
    {scope : Scope} (done : scanner.run.ending = .finished)
    (nothing : problems
      (Event.resolveAll lines scope (Parsed.ofPulls file scanner.run.pulls).events).1 = []) :
    ∃ inner last, scanner.run.tokens = inner ++ [last] ∧ last.kind = .endOfInput ∧
      problems scanner.run.journal = [] ∧
      Token.withoutEmptyLines true (Parsed.before (scanner.run.pulls.map Pull.token)) = inner := by
  obtain ⟨inner, last, tokens, ends, inside, full⟩ := exists_tokens_run done
  have scanned : problems scanner.run.journal = [] :=
    Parsed.journal_faultless tokens inside ends nothing
  refine ⟨inner, last, tokens, ends, scanned, ?_⟩
  rw [show scanner.run.pulls.map Pull.token = inner ++ [last] from tokens,
    Parsed.before_append inside ends, full scanned]

theorem exists_parsed_of_compiled {options : Options} {file : Option String} {source : String}
    {compilation : Compilation} (result : (compile options file source).result = .ok compilation) :
    let parsing := Parsing.ofSource (options.nameFor file) options.limit .empty source
    ∃ parsed, parsing.result = .ok parsed ∧ compilation.statements = parsed.statements ∧
      compilation.names = parsing.scope.names ∧ compilation.problems = problems parsing.journal := by
  simp only [compile] at result
  split at result
  next => cases result
  next parsed found =>
    rw [Except.ok.injEq] at result
    rw [← result]
    exact ⟨parsed, found, rfl, rfl, rfl⟩

theorem scanned_of_succeeded {options : Options} {file : Option String} {source : String}
    {compilation : Compilation} (result : (compile options file source).result = .ok compilation)
    (succeeded : compilation.succeeded = true) :
    let scan := (Scanner.ofSource (options.nameFor file) options.limit source).run
    let parsed := Parsed.ofPulls (options.nameFor file) scan.pulls
    scan.ending = .finished ∧ compilation.statements = parsed.statements ∧
      problems (Event.resolveAll (quotedLines source) .empty parsed.events).1 = [] := by
  obtain ⟨parsed, found, sameStatements, -, sameProblems⟩ := exists_parsed_of_compiled result
  obtain ⟨done, same, journal⟩ := Parsing.ofSource_of_ok found
  have nothing := List.isEmpty_iff.mp succeeded
  rw [sameProblems, journal, same] at nothing
  rw [same] at sameStatements
  exact ⟨done, sameStatements, nothing⟩

/-- Whatever tokens are parsed, if no fault of grammar is recorded then the program is canonical and,
written out, is the tokens before the end of the input, but for line ends where a statement is
expected. Names and literals keep their payloads in this. Where a source is compiled without a fault,
its program is all the tokens of the scan, which has no fault either. -/
theorem program_accounts_for_tokens :
    (∀ (file : String) (pulls : List Pull) (lines : List String) (scope : Scope),
      (∀ problem ∈ problems (Event.resolveAll lines scope (Parsed.ofPulls file pulls).events).1,
        problem.cause.stage ≠ some .grammatical) →
      (Token.withoutEmptyLines true (Parsed.before (pulls.map Pull.token))).map Token.lexeme =
          Stmt.lexemesOfAll (Parsed.ofPulls file pulls).statements ∧
        Stmt.CanonicalAll (Parsed.ofPulls file pulls).statements) ∧
    (∀ token : Token, Lexeme.IsTyped (token.kind, token.payload) →
      token.kind ∈ [Kind.name, .integer, .float, .boolean] →
      token.lexeme = (token.kind, token.payload)) ∧
    ∀ (options : Options) (file : Option String) (source : String) (compilation : Compilation),
      (compile options file source).result = .ok compilation → compilation.succeeded = true →
      ∃ tokens, (scanSource options file source).result = .ok (tokens, []) ∧
        tokens.map Token.lexeme =
          Stmt.lexemesOfAll compilation.statements ++ [Kind.endOfInput.bare] ∧
        Stmt.CanonicalAll compilation.statements := by
  refine ⟨fun file pulls lines scope => Parsed.lexemes_of_faultless file pulls lines scope,
    fun token typed valued => Token.lexeme_payload typed valued, ?_⟩
  intro options file source compilation result succeeded
  obtain ⟨done, same, nothing⟩ := scanned_of_succeeded result succeeded
  obtain ⟨inner, last, tokens, ends, scanned, full⟩ := Scanner.exists_tokens_of_faultless done nothing
  obtain ⟨spelled, canonical⟩ := Parsed.lexemes_of_faultless (options.nameFor file) _
    (quotedLines source) .empty fun problem recorded => by
      rw [nothing] at recorded
      cases recorded
  rw [← same] at canonical
  rw [full, ← same] at spelled
  refine ⟨inner ++ [last], ?_, ?_, canonical⟩
  · simp only [scanSource, done, scanned, tokens]
  · rw [List.map_append, spelled, List.map_singleton, Token.lexeme_eq_bare ends (by decide)]

/-- Tokens with two empty lines and no end of input. -/
def negatedSumTokens : List Token :=
  let place := Location.top "sample"
  [⟨.endOfLine, .none, place⟩, ⟨.name, .text "x", place⟩, ⟨.assign, .text "=", place⟩,
    ⟨.minus, .text "-", place⟩, ⟨.float, .float (.finite false 1 1), place⟩,
    ⟨.plus, .text "+", place⟩, ⟨.boolean, .integer 1, place⟩, ⟨.endOfLine, .none, place⟩,
    ⟨.endOfLine, .none, place⟩]

def loopSource : String := "b = 1\n\n# forever\nwhile not b < 0 :\n  b = -b\n"

theorem program_accounts_for_tokens_negatedSum :
    let parsed := Parsed.ofTokens "sample" negatedSumTokens
    ((∀ problem ∈ problems (Event.resolveAll [] .empty parsed.events).1,
        problem.cause.stage ≠ some .grammatical) ∧
      (Token.withoutEmptyLines true (Parsed.before negatedSumTokens)).map Token.lexeme =
        Stmt.lexemesOfAll parsed.statements ∧
      Stmt.CanonicalAll parsed.statements) ∧
    ∃ compilation tokens, (compile {} none loopSource).result = .ok compilation ∧
      compilation.succeeded = true ∧
      (scanSource {} none loopSource).result = .ok (tokens, []) ∧
      tokens.map Token.lexeme =
        Stmt.lexemesOfAll compilation.statements ++ [Kind.endOfInput.bare] ∧
      Stmt.CanonicalAll compilation.statements := by
  have faultless : ∀ problem ∈ problems
      (Event.resolveAll [] .empty (Parsed.ofTokens "sample" negatedSumTokens).events).1,
      problem.cause.stage ≠ some .grammatical := by decide +kernel
  have compiled :
      (compile {} none loopSource).result.toOption.map Compilation.succeeded = some true := by
    decide +kernel
  refine ⟨⟨faultless, program_accounts_for_tokens.1 "sample" (negatedSumTokens.map Pull.ofToken) []
    .empty faultless⟩, ?_⟩
  cases result : (compile {} none loopSource).result with
  | error problem =>
    rw [result] at compiled
    cases compiled
  | ok compilation =>
    rw [result] at compiled
    have succeeded : compilation.succeeded = true := Option.some.inj compiled
    obtain ⟨tokens, scanned, spelled, canonical⟩ :=
      program_accounts_for_tokens.2.2 {} none loopSource compilation result succeeded
    exact ⟨compilation, tokens, rfl, succeeded, scanned, spelled, canonical⟩

end Offside
