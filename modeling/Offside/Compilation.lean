import Offside.CText
import Offside.Options
import Offside.Grammar.Parse
import Offside.Resolution
import Offside.Tree.Node

/-!
Whole compilations: a source is scanned, parsed and resolved, and written as C when no
fault was recorded. Too many nested blocks end a run at once.
-/

namespace Offside

/-- A source parsed in a scope: what happened, the variables declared afterwards, and the program,
unless the run ended early. -/
structure Parsing where
  journal : List Entry
  scope : Scope
  result : Except Diagnostic Parsed

/-- Tokens parsed in a scope; `lines` are quoted by the faults. -/
def Parsing.ofTokens (file : String) (lines : List String) (scope : Scope) (tokens : List Token) : Parsing :=
  let parsed := Parsed.ofTokens file tokens
  let (journal, final) := Event.resolveAll lines scope parsed.events
  ⟨journal, final, .ok parsed⟩

def Parsing.ofSource (file : String) (limit : Int) (scope : Scope) (source : String) : Parsing :=
  let scan := (Scanner.ofSource file limit source).run
  let lines := quotedLines source
  match scan.ending with
  | .finished =>
    let parsed := Parsed.ofPulls file scan.pulls
    let (journal, final) := Event.resolveAll lines scope parsed.events
    ⟨journal, final, .ok parsed⟩
  | .overflow problem =>
    let (_, events) := Parse.initial.run scan.pulls
    let (journal, final) := Event.resolveAll lines scope events
    ⟨journal, final, .error problem⟩

structure Compilation where
  file : String
  statements : List Stmt
  names : List String
  tokenCount : Nat
  problems : List Diagnostic

namespace Compilation

def succeeded (compilation : Compilation) : Bool := compilation.problems.isEmpty

def code (compilation : Compilation) : String :=
  if compilation.succeeded then Stmt.cProgram compilation.names compilation.statements else ""

def outline (compilation : Compilation) : String :=
  (Node.program (Stmt.nodes compilation.statements)).outline

def report (compilation : Compilation) : String := Diagnostic.report compilation.problems

def parsedText (compilation : Compilation) : String :=
  "Parsed " ++ toString compilation.statements.length ++ " top-level statements from "
    ++ toString compilation.tokenCount ++ " tokens, " ++ toString compilation.problems.length
    ++ " errors"

def doneText (compilation : Compilation) : String :=
  "Translated " ++ compilation.file ++ ": " ++ toString compilation.tokenCount ++ " tokens, "
    ++ toString compilation.names.length ++ " variables"

def failedText (compilation : Compilation) : String :=
  "Translation of " ++ compilation.file ++ " failed with "
    ++ toString compilation.problems.length ++ " errors"

end Compilation

structure Run (Product : Type) where
  log : List String
  result : Except Diagnostic Product

def compile (options : Options) (file : Option String) (source : String) : Run Compilation :=
  let name := options.nameFor file
  let parsing := Parsing.ofSource name options.limit .empty source
  let log := parsing.journal.map Entry.text
  match parsing.result with
  | .error problem => ⟨log, .error problem⟩
  | .ok parsed =>
    let compilation : Compilation :=
      ⟨name, parsed.statements, parsing.scope.names, parsed.tokenCount, problems parsing.journal⟩
    let outcome := if compilation.succeeded then compilation.doneText else compilation.failedText
    ⟨log ++ [compilation.parsedText, outcome], .ok compilation⟩

def scanSource (options : Options) (file : Option String) (source : String) :
    Run (List Token × List Diagnostic) :=
  let scan := (Scanner.ofSource (options.nameFor file) options.limit source).run
  let log := scan.journal.map Entry.text
  match scan.ending with
  | .overflow problem => ⟨log, .error problem⟩
  | .finished => ⟨log, .ok (scan.tokens, problems scan.journal)⟩

def compileToC (options : Options) (file : Option String) (source : String) :
    Except Diagnostic String :=
  match (compile options file source).result with
  | .error problem => .error problem
  | .ok compilation =>
    if compilation.succeeded then .ok compilation.code
    else .error ⟨.failed compilation.report, none, none⟩

end Offside
