import Offside.Proofs.Grammar.BadLine
import Offside.Proofs.Grammar.Orderly

/-!
Faults stay local. Malformed lines may stand wherever a statement may start: each brings one fault, at
a token of its own, and the program around them is parsed as it is without them.
-/

namespace Offside

namespace Stmt

def gappedBlock (body : List (Option Lexeme)) : List (Option Lexeme) :=
  some Kind.colon.bare :: some Kind.endOfLine.bare :: some Kind.indent.bare :: body ++
    [some Kind.dedent.bare]

mutual

def gapped : Stmt → List (Option Lexeme)
  | assign target value place => (assign target value place).lexemes.map some
  | choose arms _ => gappedArms .ifWord arms
  | loop condition body _ =>
    (Kind.whileWord.bare :: condition.lexemes).map some ++ gappedBlock (gappedAll body)
  | leave place => (leave place).lexemes.map some

/-- The lexemes of statements, with a gap before each of them and one after the last. -/
def gappedAll : List Stmt → List (Option Lexeme)
  | [] => [none]
  | first :: rest => none :: first.gapped ++ gappedAll rest

def gappedArms (word : Kind) : Arms Expr Stmt → List (Option Lexeme)
  | .done => []
  | .otherwise body => some Kind.elseWord.bare :: gappedBlock (gappedAll body)
  | .arm guard body rest =>
    (word.bare :: guard.lexemes).map some ++ gappedBlock (gappedAll body) ++
      gappedArms .elifWord rest

end

theorem filterMap_map_some (lexemes : List Lexeme) :
    (lexemes.map some).filterMap id = lexemes := by
  rw [List.filterMap_map]
  exact List.filterMap_some

theorem filterMap_gappedBlock {body : List (Option Lexeme)} {lexemes : List Lexeme}
    (same : body.filterMap id = lexemes) :
    (gappedBlock body).filterMap id = blockLexemes lexemes := by
  subst same
  simp [gappedBlock, blockLexemes]

mutual

theorem filterMap_gapped : (stmt : Stmt) → stmt.gapped.filterMap id = stmt.lexemes
  | assign target value place => by rw [gapped, filterMap_map_some]
  | choose arms place => by rw [gapped, lexemes, filterMap_gappedArms]
  | loop condition body place => by
    rw [gapped, lexemes, List.filterMap_append, filterMap_map_some,
      filterMap_gappedBlock (filterMap_gappedAll body)]
  | leave place => by rw [gapped, filterMap_map_some]

theorem filterMap_gappedAll : (body : List Stmt) → (gappedAll body).filterMap id = lexemesOfAll body
  | [] => rfl
  | first :: rest => by
    rw [gappedAll, lexemesOfAll, List.cons_append, List.filterMap_cons_none rfl,
      List.filterMap_append, filterMap_gapped first, filterMap_gappedAll rest]

theorem filterMap_gappedArms (word : Kind) : (arms : Arms Expr Stmt) →
    (gappedArms word arms).filterMap id = lexemesOfArms word arms
  | .done => rfl
  | .otherwise body => by
    rw [gappedArms, lexemesOfArms, ← filterMap_gappedBlock (filterMap_gappedAll body)]
    rfl
  | .arm guard body rest => by
    rw [gappedArms, lexemesOfArms, List.filterMap_append, List.filterMap_append, filterMap_map_some,
      filterMap_gappedBlock (filterMap_gappedAll body), filterMap_gappedArms .elifWord rest]

end

def startsAfresh (lexeme : Lexeme) : Prop := lexeme.1 ∉ [Kind.indent, .elifWord, .elseWord]

/-- Every gap comes at the start of a line, and before a statement or the end of a block; `fresh` says
that a line starts. -/
def Spaced : Bool → List (Option Lexeme) → Prop
  | _, [] => True
  | _, some lexeme :: rest => Spaced lexeme.1.isStructural rest
  | fresh, none :: rest =>
    fresh = true ∧ (∀ lexeme ∈ (rest.filterMap id).head?, startsAfresh lexeme) ∧ Spaced fresh rest

theorem spaced_map_some {fresh : Bool} {front : List Lexeme} {last : Lexeme}
    {rest : List (Option Lexeme)} (spaced : Spaced last.1.isStructural rest) :
    Spaced fresh (front.map some ++ some last :: rest) := by
  induction front generalizing fresh with
  | nil => exact spaced
  | cons first others ih => exact ih

theorem startsAfresh_lexemes {stmt : Stmt} (canonical : stmt.Canonical) :
    ∃ first rest, stmt.lexemes = first :: rest ∧ startsAfresh first := by
  cases stmt with
  | assign target value place => exact ⟨_, _, rfl, by simp [startsAfresh]⟩
  | choose arms place =>
    cases arms with
    | arm guard body rest => exact ⟨_, _, rfl, by simp [startsAfresh, Kind.bare]⟩
    | done => cases canonical.1
    | otherwise body => cases canonical.1
  | loop condition body place => exact ⟨_, _, rfl, by simp [startsAfresh, Kind.bare]⟩
  | leave place => exact ⟨_, _, rfl, by simp [startsAfresh, Kind.bare]⟩

theorem spaced_gappedBlock {fresh : Bool} (front : List Lexeme) {body rest : List (Option Lexeme)}
    (inside : Spaced true (body ++ some Kind.dedent.bare :: rest)) :
    Spaced fresh (front.map some ++ gappedBlock body ++ rest) := by
  simp only [gappedBlock, List.append_assoc, List.cons_append, List.nil_append]
  apply spaced_map_some
  exact inside

mutual

theorem spaced_gapped : (stmt : Stmt) → stmt.Canonical → {rest : List (Option Lexeme)} →
    Spaced true rest → Spaced true (stmt.gapped ++ rest)
  | assign target value place, _, rest, spaced => by
    rw [gapped, lexemes, List.map_append, List.append_assoc]
    exact spaced_map_some spaced
  | choose arms place, canonical, rest, spaced => spaced_gappedArms .ifWord arms canonical.2 spaced
  | loop condition body place, canonical, rest, spaced =>
    spaced_gappedBlock (Kind.whileWord.bare :: condition.lexemes)
      (spaced_gappedAll body canonical.2 spaced (by simp [startsAfresh, Kind.bare]))
  | leave place, _, rest, spaced => spaced

theorem spaced_gappedAll : (body : List Stmt) → CanonicalAll body →
    {rest : List (Option Lexeme)} → Spaced true rest →
    (∀ lexeme ∈ (rest.filterMap id).head?, startsAfresh lexeme) → Spaced true (gappedAll body ++ rest)
  | [], _, rest, spaced, starts => ⟨rfl, starts, spaced⟩
  | first :: others, canonical, rest, spaced, starts => by
    have later := spaced_gappedAll others canonical.2 spaced starts
    obtain ⟨head, tail, written, afresh⟩ := startsAfresh_lexemes canonical.1
    rw [gappedAll, List.append_assoc, List.cons_append]
    refine ⟨rfl, ?_, spaced_gapped first canonical.1 later⟩
    rw [List.filterMap_append, filterMap_gapped, written]
    intro lexeme found
    cases Option.some.inj found
    exact afresh

theorem spaced_gappedArms (word : Kind) : (arms : Arms Expr Stmt) → CanonicalArms arms →
    {rest : List (Option Lexeme)} → Spaced true rest → Spaced true (gappedArms word arms ++ rest)
  | .done, _, rest, spaced => spaced
  | .otherwise body, canonical, rest, spaced =>
    spaced_gappedBlock [Kind.elseWord.bare]
      (spaced_gappedAll body canonical spaced (by simp [startsAfresh, Kind.bare]))
  | .arm guard body others, canonical, rest, spaced => by
    rw [gappedArms, List.append_assoc]
    exact spaced_gappedBlock (word.bare :: guard.lexemes)
      (spaced_gappedAll body canonical.2.1 (spaced_gappedArms .elifWord others canonical.2.2 spaced)
        (by simp [startsAfresh, Kind.bare]))

end

end Stmt

/-- Tokens for lexemes with gaps: its own token for each lexeme, and any number of malformed lines for
each gap; with the own tokens alone, the malformed lines, and all tokens. -/
inductive Token.Fills : List (Option Lexeme) → List Token → List (List Token) → List Token → Prop where
  | nil : Fills [] [] [] []
  | own (token : Token) {gapped : List (Option Lexeme)} {own all : List Token}
    {lines : List (List Token)} (rest : Fills gapped own lines all) :
    Fills (some token.lexeme :: gapped) (token :: own) lines (token :: all)
  | gap {gapped : List (Option Lexeme)} {own all : List Token} {lines : List (List Token)}
    (rest : Fills gapped own lines all) : Fills (none :: gapped) own lines all
  | line {line : List Token} (malformed : Token.Malformed line) {gapped : List (Option Lexeme)}
    {own all : List Token} {lines : List (List Token)} (rest : Fills (none :: gapped) own lines all) :
    Fills (none :: gapped) own (line :: lines) (line ++ all)

theorem Token.Fills.stretch (tokens : List Token) {gapped : List (Option Lexeme)}
    {own all : List Token} {lines : List (List Token)} (fills : Token.Fills gapped own lines all) :
    Token.Fills (tokens.map (fun token => some token.lexeme) ++ gapped) (tokens ++ own) lines
      (tokens ++ all) := by
  induction tokens with
  | nil => exact fills
  | cons token rest ih => exact .own token ih

theorem Token.Fills.lexemes {gapped : List (Option Lexeme)} {own all : List Token}
    {lines : List (List Token)} (fills : Token.Fills gapped own lines all) :
    own.map Token.lexeme = gapped.filterMap id := by
  induction fills with
  | nil => rfl
  | own token rest ih => rw [List.map_cons, ih]; rfl
  | gap rest ih => rw [ih]; rfl
  | line malformed rest ih => rw [ih]

theorem Token.Fills.ne_end {gapped : List (Option Lexeme)} {own all : List Token}
    {lines : List (List Token)} (fills : Token.Fills gapped own lines all)
    (inside : ∀ token ∈ own, token.kind ≠ .endOfInput) :
    ∀ token ∈ all, token.kind ≠ .endOfInput := by
  induction fills with
  | nil => exact inside
  | own token rest ih =>
    rw [List.forall_mem_cons] at inside ⊢
    exact ⟨inside.1, ih inside.2⟩
  | gap rest ih => exact ih inside
  | line malformed rest ih =>
    obtain ⟨body, last, rfl, -, plain, ends⟩ := malformed.ended
    rw [List.forall_mem_append, List.forall_mem_append, List.forall_mem_singleton]
    refine ⟨⟨?_, by rw [ends]; decide⟩, ih inside⟩
    intro token member kind
    have inner := plain token member
    rw [kind] at inner
    cases inner

inductive Event.Mixes : List Event → List (List Token) → List Event → Prop where
  | nil : Mixes [] [] []
  | own (event : Event) {own all : List Event} {lines : List (List Token)}
    (rest : Mixes own lines all) : Mixes (event :: own) lines (event :: all)
  | line {line : List Token} {events : List Event} (blames : Event.Blames line events)
    {own all : List Event} {lines : List (List Token)} (rest : Mixes own lines all) :
    Mixes own (line :: lines) (events ++ all)

theorem Event.Mixes.append (front : List Event) {own all : List Event} {lines : List (List Token)}
    (mixes : Event.Mixes own lines all) : Event.Mixes (front ++ own) lines (front ++ all) := by
  induction front with
  | nil => exact mixes
  | cons event rest ih => exact .own event ih

namespace Machine

/-- The machine of a run with malformed lines beside the one of the run without them: it is the same,
or a chain has been taken to be over already. -/
inductive Abreast (machine : Machine) : List Token → Machine → Prop where
  | same (tokens : List Token) : Abreast machine tokens machine
  | settled {enclosing : List Enclosing} {statements : List Stmt} {token : Token} (rest : List Token)
    (ready : machine.settled = ⟨.start, enclosing, statements⟩)
    (noElif : token.kind ≠ .elifWord) (noElse : token.kind ≠ .elseWord) :
    Abreast machine (token :: rest) ⟨.start, enclosing, statements⟩

theorem Abreast.react {machine other : Machine} {token : Token} {rest : List Token}
    (abreast : Abreast machine (token :: rest) other) : other.react token = machine.react token := by
  cases abreast with
  | same => rfl
  | settled _ ready noElif noElse => exact (react_of_settled ready noElif noElse).symm

theorem Abreast.ready {machine other : Machine} {tokens : List Token} {enclosing : List Enclosing}
    {statements : List Stmt} (abreast : Abreast machine tokens other)
    (ready : machine.settled = ⟨.start, enclosing, statements⟩) :
    other.settled = ⟨.start, enclosing, statements⟩ := by
  cases abreast with
  | same => exact ready
  | settled _ ready' => exact ready'.symm.trans ready

theorem exists_afresh {own : List Token} {last : Token} {lexemes : List Lexeme}
    (ends : last.kind = .endOfInput) (written : own.map Token.lexeme = lexemes)
    (starts : ∀ lexeme ∈ lexemes.head?, Stmt.startsAfresh lexeme) :
    ∃ token rest, own ++ [last] = token :: rest ∧
      token.kind ∉ [Kind.indent, .elifWord, .elseWord] := by
  cases own with
  | nil => exact ⟨last, [], rfl, by rw [ends]; decide⟩
  | cons token rest =>
    rw [← written] at starts
    have afresh := starts token.lexeme rfl
    rw [Stmt.startsAfresh, token.lexeme_kind] at afresh
    exact ⟨token, rest ++ [last], rfl, afresh⟩

/-- Where a line starts, a token that brings no fault and opens no block comes at the start of a
statement. -/
theorem exists_ready {machine : Machine} {token : Token} (fresh : machine.mode.isFresh = true)
    (notIndent : token.kind ≠ .indent)
    (clean : Clean ((machine.react token).now ++ (machine.react token).later)) :
    ∃ enclosing statements, machine.settled = ⟨.start, enclosing, statements⟩ := by
  obtain ⟨mode, enclosing, statements⟩ := machine
  rcases Mode.cases_of_isFresh fresh with rfl | ⟨header, rfl⟩ | ⟨place, arms, rfl⟩
  · exact ⟨enclosing, statements, rfl⟩
  · simp only [react, notIndent, ↓reduceIte] at clean
    exact absurd clean.left (not_clean_refuse _ token "indented block")
  · exact ⟨enclosing, _, rfl⟩

/-- With malformed lines in its gaps, a run without a fault says the same, and what the lines bring. -/
theorem mixes_drive {gapped : List (Option Lexeme)} {own all : List Token}
    {lines : List (List Token)} (fills : Token.Fills gapped own lines all) {machine other : Machine}
    {last : Token} (valid : machine.Valid) (spaced : Stmt.Spaced machine.mode.isFresh gapped)
    (ends : last.kind = .endOfInput) (inside : ∀ token ∈ own, token.kind ≠ .endOfInput)
    (clean : Clean (machine.drive (own ++ [last])).2)
    (abreast : Abreast machine (own ++ [last]) other) :
    (other.drive (all ++ [last])).1 = (machine.drive (own ++ [last])).1 ∧
      Event.Mixes (machine.drive (own ++ [last])).2 lines (other.drive (all ++ [last])).2 := by
  induction fills generalizing machine other with
  | nil =>
    simp only [List.nil_append, drive, abreast.react, true_and]
    have unmixed := Event.Mixes.nil.append
      ((machine.react last).now ++ (machine.react last).later)
    simpa only [List.append_nil] using unmixed
  | own token rest ih =>
    simp only [List.cons_append, drive] at clean ⊢
    have accounts := accounts_react valid (inside token (by simp)) clean.left
    rw [Stmt.Spaced, token.lexeme_kind, ← accounts.fresh] at spaced
    obtain ⟨reached, mixes⟩ := ih accounts.valid spaced
      (fun other found => inside other (by simp [found])) clean.right (.same _)
    rw [abreast.react]
    exact ⟨reached, mixes.append _⟩
  | gap rest ih => exact ih valid spaced.2.2 inside clean abreast
  | @line line malformed gapped own all lines rest ih =>
    obtain ⟨token, others, split, afresh⟩ := exists_afresh ends rest.lexemes spaced.2.1
    simp only [List.mem_cons, List.not_mem_nil, or_false, not_or] at afresh
    obtain ⟨notIndent, noElif, noElse⟩ := afresh
    have first : Clean ((machine.react token).now ++ (machine.react token).later) := by
      rw [split] at clean
      exact clean.left
    obtain ⟨enclosing, statements, ready⟩ := exists_ready spaced.1 notIndent first
    obtain ⟨resumed, blames⟩ := spoils_line malformed (abreast.ready ready)
    have settled : Abreast machine (own ++ [last]) ⟨.start, enclosing, statements⟩ := by
      rw [split]
      exact .settled others ready noElif noElse
    obtain ⟨reached, mixes⟩ := ih valid spaced inside clean settled
    rw [List.append_assoc, drive_append, resumed]
    exact ⟨reached, .line blames mixes⟩

end Machine

def Diagnostic.IsFaultIn (line : List Token) (problem : Diagnostic) : Prop :=
  problem.cause.stage = some .grammatical ∧ ∃ token ∈ line, problem.place = some token.place

def Diagnostic.IsUndefinedIn (line : List Token) (problem : Diagnostic) : Prop :=
  ∃ token ∈ line, token.kind = .name ∧ problem.place = some token.place ∧
    ∃ similar, problem.cause = .undefinedVariable token.payload.shown similar

/-- The faults of a program with malformed lines: its own undefined variables, and for each line,
after the undefined variables in it, one fault of grammar. -/
inductive Diagnostic.Mixes : List Diagnostic → List (List Token) → List Diagnostic → Prop where
  | nil : Mixes [] [] []
  | own {problem : Diagnostic} {name : String} {similar : List String}
    (isUndefined : problem.cause = .undefinedVariable name similar) {own all : List Diagnostic}
    {lines : List (List Token)} (rest : Mixes own lines all) :
    Mixes (problem :: own) lines (problem :: all)
  | line {line : List Token} {undefined : List Diagnostic} {fault : Diagnostic}
    (names : ∀ problem ∈ undefined, problem.IsUndefinedIn line) (isFault : fault.IsFaultIn line)
    {own all : List Diagnostic} {lines : List (List Token)} (rest : Mixes own lines all) :
    Mixes own (line :: lines) (undefined ++ fault :: all)

theorem Diagnostic.Mixes.append {front own all : List Diagnostic} {lines : List (List Token)}
    (undefined : ∀ problem ∈ front, ∃ name similar, problem.cause = .undefinedVariable name similar)
    (mixes : Diagnostic.Mixes own lines all) :
    Diagnostic.Mixes (front ++ own) lines (front ++ all) := by
  induction front with
  | nil => exact mixes
  | cons problem rest ih =>
    rw [List.forall_mem_cons] at undefined
    obtain ⟨⟨name, similar, same⟩, later⟩ := undefined
    exact .own same (ih later)

namespace Event

theorem Blames.resolveAll {line : List Token} {events : List Event} (blames : Blames line events)
    (source : List String) (scope : Scope) :
    (Event.resolveAll source scope events).2 = scope ∧
      ∃ undefined fault, problems (Event.resolveAll source scope events).1 = undefined ++ [fault] ∧
        (∀ problem ∈ undefined, problem.IsUndefinedIn line) ∧ fault.IsFaultIn line := by
  induction blames with
  | @used token events inLine isName rest ih =>
    obtain ⟨same, undefined, fault, recorded, names, isFault⟩ := ih
    by_cases known : scope.contains token.payload.shown = true
    · simp only [Event.resolveAll, resolve, known, ↓reduceIte, List.nil_append]
      exact ⟨same, undefined, fault, recorded, names, isFault⟩
    · simp only [Event.resolveAll, resolve, known, Bool.false_eq_true, ↓reduceIte]
      let problem : Diagnostic := ⟨.undefinedVariable token.payload.shown
        (scope.similar token.payload.shown), some token.place, lineAt? source token.place.line⟩
      refine ⟨same, problem :: undefined, fault, congrArg (problem :: ·) recorded, ?_, isFault⟩
      rw [List.forall_mem_cons]
      exact ⟨⟨token, inLine, isName, rfl, _, rfl⟩, names⟩
  | @fault cause token inLine grammatical skipped =>
    exact ⟨rfl, [], _, rfl, List.forall_mem_nil _, grammatical, token, inLine, rfl⟩

theorem Mixes.resolveAll {own all : List Event} {lines : List (List Token)}
    (mixes : Mixes own lines all) (quiet : ∀ event ∈ own, event.isQuiet = true)
    (source : List String) (scope : Scope) :
    (Event.resolveAll source scope all).2 = (Event.resolveAll source scope own).2 ∧
      Diagnostic.Mixes (problems (Event.resolveAll source scope own).1) lines
        (problems (Event.resolveAll source scope all).1) := by
  induction mixes generalizing scope with
  | nil => exact ⟨rfl, .nil⟩
  | own event rest ih =>
    rw [List.forall_mem_cons] at quiet
    obtain ⟨same, mixed⟩ := ih quiet.2 (event.resolve source scope).2
    simp only [Event.resolveAll, problems_append]
    refine ⟨same, mixed.append ?_⟩
    have alone := undefined_of_quiet source scope [event] (by simpa using quiet.1)
    simpa only [Event.resolveAll, List.append_nil] using alone
  | line blames rest ih =>
    obtain ⟨kept, undefined, fault, recorded, names, isFault⟩ := blames.resolveAll source scope
    obtain ⟨same, mixed⟩ := ih quiet scope
    rw [resolveAll_append, kept]
    refine ⟨same, ?_⟩
    rw [problems_append, recorded, List.append_assoc]
    exact .line names isFault mixed

end Event

namespace Parsed

theorem ofTokens_eq_drive (file : String) {front : List Token} {last : Token}
    (inside : ∀ token ∈ front, token.kind ≠ .endOfInput) (ends : last.kind = .endOfInput) :
    (ofTokens file (front ++ [last])).statements =
        (Machine.initial.drive (front ++ [last])).1.statements.reverse ∧
      (ofTokens file (front ++ [last])).events = (Machine.initial.drive (front ++ [last])).2 := by
  have tokens : ((front ++ [last]).map Pull.ofToken).map Pull.token = front ++ [last] := by
    rw [List.map_map]
    exact List.map_id _
  have machine := Parse.run_machine .initial ((front ++ [last]).map Pull.ofToken)
  have nothing : (Parse.initial.run ((front ++ [last]).map Pull.ofToken)).1.deferred = [] := by
    rw [List.map_append, List.map_singleton, Parse.run_concat]
    exact Machine.later_of_endOfInput _ ends
  have events := Parse.run_events .initial _ (omits_ofToken (fun _ => true) (front ++ [last]))
  rw [nothing, tokens] at events
  rw [tokens] at machine
  rw [ofTokens, ofPulls_eq_run file tokens inside ends, Parse.statements, machine]
  have whole (events : List Event) : events.filter (fun _ => true) = events :=
    List.filter_eq_self.mpr fun _ _ => rfl
  rw [whole, whole, whole, whole, List.append_nil] at events
  exact ⟨rfl, events⟩

/-- A canonical program with malformed lines in its gaps is parsed to the same program with the same
variables. Each line brings one fault of grammar, at a token of its own; all other faults are the
undefined variables of the program, as without the lines, and undefined variables within the lines. -/
theorem malformed_lines_stay_local {program : List Stmt} {own all : List Token}
    {lines : List (List Token)} {last : Token} (canonical : Stmt.CanonicalAll program)
    (fills : Token.Fills (Stmt.gappedAll program) own lines all) (ends : last.kind = .endOfInput)
    (file : String) (source : List String) (scope : Scope) :
    (ofTokens file (all ++ [last])).statements = (ofTokens file (own ++ [last])).statements ∧
      Stmt.allAgree (ofTokens file (all ++ [last])).statements program = true ∧
      (Event.resolveAll source scope (ofTokens file (all ++ [last])).events).2 =
        (Event.resolveAll source scope (ofTokens file (own ++ [last])).events).2 ∧
      Diagnostic.Mixes
        (problems (Event.resolveAll source scope (ofTokens file (own ++ [last])).events).1) lines
        (problems (Event.resolveAll source scope (ofTokens file (all ++ [last])).events).1) := by
  have written : own.map Token.lexeme = Stmt.lexemesOfAll program := by
    rw [fills.lexemes, Stmt.filterMap_gappedAll]
  have inside : ∀ token ∈ own, token.kind ≠ .endOfInput := by
    intro token member
    rw [← token.lexeme_kind]
    exact Stmt.lexemesOfAll_ne_end program _ (written ▸ List.mem_map_of_mem member)
  obtain ⟨result, same, runs⟩ := Machine.exists_runsAll program canonical own written
  obtain ⟨machine, goes, ready⟩ := runs .initial [] [] rfl
  obtain ⟨reached, quiet⟩ := goes.append (Machine.goes_end ready ends)
  have spaced : Stmt.Spaced true (Stmt.gappedAll program ++ []) :=
    Stmt.spaced_gappedAll program canonical trivial (by simp)
  rw [List.append_nil] at spaced
  obtain ⟨final, mixes⟩ := Machine.mixes_drive fills Machine.valid_initial spaced ends inside
    (Machine.clean_of_quiet quiet) (.same _)
  obtain ⟨ownStatements, ownEvents⟩ := ofTokens_eq_drive file inside ends
  obtain ⟨allStatements, allEvents⟩ := ofTokens_eq_drive file (fills.ne_end inside) ends
  rw [allStatements, allEvents, ownStatements, ownEvents, final, reached, List.append_nil,
    List.reverse_reverse]
  exact ⟨rfl, same, mixes.resolveAll quiet source scope⟩

/-- The program of `if x: break`. -/
def lonelyBreak : List Stmt :=
  [.choose (.arm (.name "x" ⟨"sample", 2, 4⟩) [.leave ⟨"sample", 4, 5⟩] .done) ⟨"sample", 2, 1⟩]

/-- The line `y = ( z`. -/
def unclosedLine : List Token :=
  [⟨.name, .text "y", ⟨"sample", 1, 1⟩⟩, ⟨.assign, .text "=", ⟨"sample", 1, 3⟩⟩,
    ⟨.openParen, .text "(", ⟨"sample", 1, 5⟩⟩, ⟨.name, .text "z", ⟨"sample", 1, 7⟩⟩] ++
    [⟨.endOfLine, .none, ⟨"sample", 1, 8⟩⟩]

/-- The line `1`, within the block. -/
def numberLine : List Token :=
  [⟨.integer, .integer 1, ⟨"sample", 3, 5⟩⟩] ++ [⟨.endOfLine, .none, ⟨"sample", 3, 6⟩⟩]

/-- The line `break break`, after the block. -/
def doubledLine : List Token :=
  [⟨.breakWord, .text "break", ⟨"sample", 5, 1⟩⟩, ⟨.breakWord, .text "break", ⟨"sample", 5, 7⟩⟩] ++
    [⟨.endOfLine, .none, ⟨"sample", 5, 12⟩⟩]

def lonelyHeader : List Token :=
  [⟨.ifWord, .text "if", ⟨"sample", 2, 1⟩⟩, ⟨.name, .text "x", ⟨"sample", 2, 4⟩⟩,
    ⟨.colon, .text ":", ⟨"sample", 2, 5⟩⟩, ⟨.endOfLine, .none, ⟨"sample", 2, 6⟩⟩,
    ⟨.indent, .none, ⟨"sample", 3, 1⟩⟩]

def lonelyBody : List Token :=
  [⟨.breakWord, .text "break", ⟨"sample", 4, 5⟩⟩, ⟨.endOfLine, .none, ⟨"sample", 4, 10⟩⟩]

def lonelyDedent : Token := ⟨.dedent, .none, ⟨"sample", 5, 1⟩⟩

theorem malformed_lines_stay_local_lonelyBreak :
    let own := lonelyHeader ++ (lonelyBody ++ [lonelyDedent])
    let all := unclosedLine ++
      (lonelyHeader ++ (numberLine ++ (lonelyBody ++ lonelyDedent :: (doubledLine ++ []))))
    let lines := [unclosedLine, numberLine, doubledLine]
    let last : Token := ⟨.endOfInput, .none, ⟨"sample", 6, 1⟩⟩
    Stmt.CanonicalAll lonelyBreak ∧
      Token.Fills (Stmt.gappedAll lonelyBreak) own lines all ∧
      (ofTokens "sample" (all ++ [last])).statements =
        (ofTokens "sample" (own ++ [last])).statements ∧
      Stmt.allAgree (ofTokens "sample" (all ++ [last])).statements lonelyBreak = true ∧
      (Event.resolveAll [] .empty (ofTokens "sample" (all ++ [last])).events).2 =
        (Event.resolveAll [] .empty (ofTokens "sample" (own ++ [last])).events).2 ∧
      Diagnostic.Mixes
        (problems (Event.resolveAll [] .empty (ofTokens "sample" (own ++ [last])).events).1) lines
        (problems (Event.resolveAll [] .empty (ofTokens "sample" (all ++ [last])).events).1) := by
  intro own all lines last
  have canonical : Stmt.CanonicalAll lonelyBreak := by
    simp only [lonelyBreak, Stmt.CanonicalAll, Stmt.Canonical, Stmt.CanonicalArms]
    decide
  have unclosed : Token.Malformed unclosedLine :=
    Machine.malformed_of_fault (by decide) (by decide) rfl (by decide)
      (by unfold Machine.Clean; decide)
  have number : Token.Malformed numberLine :=
    Machine.malformed_of_fault (by decide) (by decide) rfl (by decide)
      (by unfold Machine.Clean; decide)
  have doubled : Token.Malformed doubledLine :=
    Machine.malformed_of_fault (by decide) (by decide) rfl (by decide)
      (by unfold Machine.Clean; decide)
  have fills : Token.Fills (Stmt.gappedAll lonelyBreak) own lines all :=
    .line unclosed (.gap (.stretch lonelyHeader (.line number (.gap (.stretch lonelyBody
      (.gap (.own lonelyDedent (.line doubled (.gap .nil)))))))))
  exact ⟨canonical, fills, malformed_lines_stay_local canonical fills rfl "sample" [] .empty⟩

end Parsed

end Offside
