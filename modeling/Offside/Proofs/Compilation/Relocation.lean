import Offside.Proofs.Grammar.Interleaving
import Offside.Proofs.Scanner.Margins

/-!
Compilations at other places. When a scan gives the same tokens at other places, the compilation is the
same with its places moved, and its C program is the very same, since C text holds no places. The widths
of blocks are noted while tokens are read and are not looked at again, so they may be mapped as well.
-/

namespace Offside

variable {move : Location → Location}

namespace Expr

theorem isBinary_relocate (expr : Expr) : (expr.relocate move).isBinary = expr.isBinary := by
  cases expr <;> rfl

theorem cWords_relocate (expr : Expr) (later : List String) :
    (expr.relocate move).cWords later = expr.cWords later := by
  induction expr generalizing later with
  | literal value place => rfl
  | name text place => rfl
  | unary op operand place ih => simp only [relocate, cWords, isBinary_relocate, ih]
  | binary op left right ihLeft ihRight => simp only [relocate, cWords, ihLeft, ihRight]
  | group inner place ih => simp only [relocate, cWords, ih]

theorem cText_relocate (expr : Expr) : (expr.relocate move).cText = expr.cText := by
  rw [cText, cText, cWords_relocate]

end Expr

namespace Stmt

mutual

theorem cLines_relocate (statement : Stmt) (depth : Nat) :
    (statement.relocate move).cLines depth = statement.cLines depth := by
  cases statement with
  | assign target value place => simp only [relocate, cLines, Expr.cText_relocate]
  | choose arms place => simp only [relocate, cLines, cLinesOfArms_relocate arms]
  | loop condition body place =>
    simp only [relocate, cLines, Expr.cText_relocate, cLinesOfAll_relocate body]
  | leave place => rfl

theorem cLinesOfAll_relocate (statements : List Stmt) (depth : Nat) :
    cLinesOfAll depth (relocateAll move statements) = cLinesOfAll depth statements := by
  cases statements with
  | nil => rfl
  | cons first rest =>
    simp only [relocateAll, cLinesOfAll, cLines_relocate first, cLinesOfAll_relocate rest]

theorem cLinesOfArms_relocate (arms : Arms Expr Stmt) (depth : Nat) (opening : String) :
    cLinesOfArms depth opening (relocateArms move arms) = cLinesOfArms depth opening arms := by
  cases arms with
  | done => rfl
  | otherwise body => simp only [relocateArms, cLinesOfArms, cLinesOfAll_relocate body]
  | arm guard body rest =>
    simp only [relocateArms, cLinesOfArms, Expr.cText_relocate, cLinesOfAll_relocate body,
      cLinesOfArms_relocate rest]

end

theorem cProgram_relocate (names : List String) (statements : List Stmt) :
    cProgram names (relocateAll move statements) = cProgram names statements := by
  rw [cProgram, cProgram, cLinesOfAll_relocate]

end Stmt

namespace Compilation

def relocate (relocation : Relocation) (compilation : Compilation) : Compilation :=
  ⟨compilation.file, Stmt.relocateAll relocation.move compilation.statements, compilation.names,
    compilation.tokenCount, compilation.problems.map (Diagnostic.relocate relocation)⟩

theorem succeeded_relocate (relocation : Relocation) (compilation : Compilation) :
    (compilation.relocate relocation).succeeded = compilation.succeeded := by
  rw [succeeded, succeeded, relocate, List.isEmpty_map]

theorem code_relocate (relocation : Relocation) (compilation : Compilation) :
    (compilation.relocate relocation).code = compilation.code := by
  unfold code
  rw [succeeded_relocate, relocate, Stmt.cProgram_relocate]

end Compilation

def Diagnostic.reindent (f : Nat → Nat) (relocation : Relocation) (problem : Diagnostic) : Diagnostic :=
  (problem.relocate relocation).rewiden f

theorem problems_rewiden (f : Nat → Nat) (journal : List Entry) :
    problems (journal.map (Entry.rewiden f)) = (problems journal).map (Diagnostic.rewiden f) := by
  rw [problems, problems, List.filterMap_map, List.map_filterMap]
  congr 1
  funext entry
  cases entry <;> rfl

theorem problems_reindent (f : Nat → Nat) (relocation : Relocation) (journal : List Entry) :
    problems ((journal.map (Entry.relocate relocation)).map (Entry.rewiden f)) =
      (problems journal).map (Diagnostic.reindent f relocation) := by
  rw [problems_rewiden, problems_relocate, List.map_map]
  rfl

theorem problems_pulls_reindent (f : Nat → Nat) (relocation : Relocation) (pulls : List Pull) :
    problems ((pulls.map (Pull.reindent f relocation)).flatMap Pull.journal) =
      (problems (pulls.flatMap Pull.journal)).map (Diagnostic.reindent f relocation) := by
  rw [← problems_reindent, List.map_flatMap, List.map_flatMap, List.flatMap_map]
  rfl

namespace Event

def rewiden (f : Nat → Nat) : Event → Event
  | noted entry => noted (entry.rewiden f)
  | rejected cause token => rejected (cause.rewiden f) token
  | event => event

theorem IsVoiced.rewiden_eq {event : Event} (voiced : event.IsVoiced) (f : Nat → Nat) :
    event.rewiden f = event := by
  cases event with
  | noted entry => exact voiced.elim
  | rejected cause token =>
    have stage : cause.stage = some .grammatical := voiced
    cases cause with
    | misalignedDedent width enclosing => cases stage
    | _ => rfl
  | used token => rfl
  | assigned token => rfl
  | recovered skipped => rfl

theorem resolve_rewiden (f : Nat → Nat) (lines : List String) (scope : Scope) (event : Event) :
    (event.rewiden f).resolve lines scope =
      ((event.resolve lines scope).1.map (Entry.rewiden f), (event.resolve lines scope).2) := by
  cases event with
  | noted entry => rfl
  | rejected cause token => rfl
  | used token =>
    simp only [rewiden, resolve]
    split <;> rfl
  | assigned token =>
    simp only [rewiden, resolve]
    split <;> rfl
  | recovered skipped => rfl

theorem resolveAll_rewiden (f : Nat → Nat) (lines : List String) (scope : Scope) (events : List Event) :
    resolveAll lines scope (events.map (rewiden f)) =
      ((resolveAll lines scope events).1.map (Entry.rewiden f), (resolveAll lines scope events).2) := by
  induction events generalizing scope with
  | nil => rfl
  | cons event rest ih => simp only [List.map_cons, resolveAll, resolve_rewiden, ih, List.map_append]

end Event

theorem Parse.run_rewiden (f : Nat → Nat) (parse : Parse) (pulls : List Pull)
    (voiced : ∀ event ∈ parse.deferred, event.IsVoiced) :
    parse.run (pulls.map (Pull.rewiden f)) =
      ((parse.run pulls).1, (parse.run pulls).2.map (Event.rewiden f)) := by
  induction pulls generalizing parse with
  | nil => rfl
  | cons pull rest ih =>
    have reacts := parse.machine.voiced_react pull.token
    have later := ih (parse.step pull.token).1 fun event found =>
      reacts event (List.mem_append_right _ found)
    have said : (parse.step pull.token).2.map (Event.rewiden f) = (parse.step pull.token).2 := by
      refine (List.map_congr_left fun event found => ?_).trans (List.map_id _)
      rcases List.mem_append.mp found with waited | now
      · exact (voiced event waited).rewiden_eq f
      · exact (reacts event (List.mem_append_left _ now)).rewiden_eq f
    have read : (pull.rewiden f).journal.map Event.noted =
        (pull.journal.map Event.noted).map (Event.rewiden f) := by
      rw [Pull.rewiden, List.map_map, List.map_map]
      rfl
    have token : (pull.rewiden f).token = pull.token := rfl
    simp only [List.map_cons, run, token, later, read, said, List.map_append]

theorem Parse.reindent_run (f : Nat → Nat) (relocation : Relocation) (pulls : List Pull) :
    initial.run (pulls.map (Pull.reindent f relocation)) =
      ((initial.run pulls).1.relocate relocation,
        ((initial.run pulls).2.map (Event.relocate relocation)).map (Event.rewiden f)) := by
  have started : initial.relocate relocation = initial := rfl
  have moved := relocate_run relocation initial pulls
  have mapped := run_rewiden f initial (pulls.map (Pull.relocate relocation)) (List.forall_mem_nil _)
  rw [started] at moved
  rw [moved, List.map_map] at mapped
  exact mapped

theorem Parsed.reindent_ofPulls (f : Nat → Nat) (relocation : Relocation) (file : String)
    {scanner scanner' : Scanner} (done : scanner.run.ending = .finished)
    (done' : scanner'.run.ending = .finished)
    (pulls : scanner'.run.pulls = scanner.run.pulls.map (Pull.reindent f relocation)) :
    ofPulls file scanner'.run.pulls =
      ⟨Stmt.relocateAll relocation.move (ofPulls file scanner.run.pulls).statements,
        (ofPulls file scanner.run.pulls).tokenCount,
        ((ofPulls file scanner.run.pulls).events.map (Event.relocate relocation)).map
          (Event.rewiden f)⟩ := by
  obtain ⟨inner, last, tokens, ends, inside, _⟩ := Scanner.exists_tokens_run done
  obtain ⟨inner', last', tokens', ends', inside', _⟩ := Scanner.exists_tokens_run done'
  rw [ofPulls_eq_run file tokens inside ends, ofPulls_eq_run file tokens' inside' ends', pulls,
    Parse.reindent_run, List.length_map]
  simp only [Parse.statements, Parse.relocate, Machine.relocate, Stmt.relocateAll_eq_map, List.map_reverse]

namespace Compilation

/-- A compilation with its places moved and the widths in its faults mapped. Each fault quotes the line of
its new place. -/
def reindent (f : Nat → Nat) (relocation : Relocation) (compilation : Compilation) : Compilation :=
  { compilation.relocate relocation with
    problems := compilation.problems.map (Diagnostic.reindent f relocation) }

theorem succeeded_reindent (f : Nat → Nat) (relocation : Relocation) (compilation : Compilation) :
    (compilation.reindent f relocation).succeeded = compilation.succeeded := by
  rw [succeeded, succeeded, reindent, List.isEmpty_map]

theorem code_reindent (f : Nat → Nat) (relocation : Relocation) (compilation : Compilation) :
    (compilation.reindent f relocation).code = compilation.code := by
  unfold code
  rw [succeeded_reindent, reindent, relocate, Stmt.cProgram_relocate]

end Compilation

theorem compile_of_overflow {options : Options} {file : Option String} {source : String}
    {problem : Diagnostic} (stopped :
      (Scanner.ofSource (options.nameFor file) options.limit source).run.ending = .overflow problem) :
    (compile options file source).result = .error problem := by
  simp only [compile, Parsing.ofSource, stopped]

/-- Where a scan gives the same at other places and with other widths, so does a compilation. -/
theorem compile_reindent {options : Options} {file : Option String} {source source' : String}
    (f : Nat → Nat) (relocation : Relocation) (lines : relocation.lines = quotedLines source')
    (pulls : (Scanner.ofSource (options.nameFor file) options.limit source').run.pulls =
      (Scanner.ofSource (options.nameFor file) options.limit source).run.pulls.map
        (Pull.reindent f relocation))
    (ending : (Scanner.ofSource (options.nameFor file) options.limit source').run.ending =
      (Scanner.ofSource (options.nameFor file) options.limit source).run.ending.relocate relocation)
    {compilation : Compilation} (compiled : (compile options file source).result = .ok compilation) :
    (compile options file source').result = .ok (compilation.reindent f relocation) ∧
      ∃ tokens faults, (scanSource options file source).result = .ok (tokens, faults) ∧
        (scanSource options file source').result =
          .ok (tokens.map (Token.relocate relocation.move),
            faults.map (Diagnostic.reindent f relocation)) := by
  cases done : (Scanner.ofSource (options.nameFor file) options.limit source).run.ending with
  | overflow problem =>
    rw [compile_of_overflow done] at compiled
    cases compiled
  | finished =>
    rw [done] at ending
    have parsed := Parsed.reindent_ofPulls f relocation (options.nameFor file) done ending pulls
    have resolved := Event.resolveAll_relocate relocation (quotedLines source) .empty
      (Parsed.ofPulls (options.nameFor file)
        (Scanner.ofSource (options.nameFor file) options.limit source).run.pulls).events
    have started : Scope.empty.relocate relocation.move = Scope.empty := rfl
    rw [lines, started] at resolved
    rw [compile_of_finished done] at compiled
    rw [compile_of_finished ending, parsed]
    cases compiled
    dsimp only
    rw [Event.resolveAll_rewiden, resolved, problems_reindent, Scope.names_relocate]
    have scanned : (scanSource options file source).result = .ok
        ((Scanner.ofSource (options.nameFor file) options.limit source).run.tokens,
          problems (Scanner.ofSource (options.nameFor file) options.limit source).run.journal) := by
      simp only [scanSource, done]
    refine ⟨by rw [Compilation.reindent, Compilation.relocate], _, _, scanned, ?_⟩
    simp only [scanSource, ending, Ending.relocate, Scan.tokens, Scan.journal, pulls, List.map_map,
      problems_pulls_reindent]
    rfl

theorem compile_relocate {options : Options} {file : Option String} {source source' : String}
    (relocation : Relocation) (lines : relocation.lines = quotedLines source')
    (pulls : (Scanner.ofSource (options.nameFor file) options.limit source').run.pulls =
      (Scanner.ofSource (options.nameFor file) options.limit source).run.pulls.map
        (Pull.relocate relocation))
    (ending : (Scanner.ofSource (options.nameFor file) options.limit source').run.ending =
      (Scanner.ofSource (options.nameFor file) options.limit source).run.ending.relocate relocation)
    {compilation : Compilation} (compiled : (compile options file source).result = .ok compilation) :
    (compile options file source').result = .ok (compilation.relocate relocation) ∧
      ∃ tokens faults, (scanSource options file source).result = .ok (tokens, faults) ∧
        (scanSource options file source').result =
          .ok (tokens.map (Token.relocate relocation.move), faults.map (Diagnostic.relocate relocation)) := by
  have same : Diagnostic.reindent id relocation = Diagnostic.relocate relocation := by
    funext problem
    rw [Diagnostic.reindent, Diagnostic.rewiden_id]
  have result := compile_reindent id relocation lines (by simpa only [Pull.reindent_id] using pulls)
    ending compiled
  simpa only [Compilation.reindent, Compilation.relocate, same] using result

end Offside
