import Offside.Command.Arguments
import Offside.Command.Failure
import Offside.Command.Help
import Offside.Compilation
import Offside.Text.Plain

/-!
Runs of the command. A run depends on its arguments, the files, standard input and one environment
variable; it gives an exit status, what it prints, and at most one file to write.
-/

namespace Offside

/-- What a run of the command produces. The file is written as a whole or not at all. -/
structure Outcome where
  exit : ExitCode
  stdout : String
  stderr : String
  written : Option (String × String)
deriving DecidableEq, Repr

def endLines (lines : List String) : String := String.join (lines.map (· ++ "\n"))

def compileFile (files : Files) (options : Options) (path : String) :
    Except Failure Compilation :=
  match files.read (tidyPath path) with
  | .error .missing | .error .notDirectory => .error (.noSource path)
  | .error problem => .error (.ofFile problem (tidyPath path))
  | .ok bytes =>
    match Text.ofBytes bytes with
    | .error error => .error (.undecodable error)
    | .ok source => (compile options (some path) source).result.mapError .fault

def compileFileTo (files : Files) (options : Options) (path : String) (output : Option String) :
    Except Failure (String × Option String) := do
  let compilation ← compileFile files options path
  if compilation.succeeded then
    match output.filter (· ≠ "") with
    | none => .ok (compilation.code, none)
    | some output =>
      match files.writeProblem? (tidyPath output) with
      | some problem => .error (.ofFile problem (tidyPath output))
      | none => .ok (compilation.code, some (tidyPath output))
  else .error (.fault ⟨.failed compilation.report, none, none⟩)

namespace Command

def debug (line : String) : String := "DEBUG: " ++ line

def info (line : String) : String := "INFO: " ++ line

/-- Standard error: lines of the log, and then messages. Only these lose their control sequences. -/
def errorText (log lines : List String) : String :=
  Text.withLineFeeds (endLines (log ++ lines.map Text.withoutSequences))

def messages (request : Request) (log lines : List String) : String :=
  errorText (if request.verbose then log else []) lines

def failed (request : Request) (log : List String) (failure : Failure) : Outcome :=
  ⟨failure.exitCode, "", messages request log (failure.lines request.verbose), none⟩

def display (request : Request) (log : List String) (shown : List String)
    (problems : List Diagnostic) : Outcome :=
  if problems.isEmpty then ⟨.success, endLines shown, messages request log [], none⟩
  else ⟨.faults, endLines shown, messages request log [Diagnostic.report problems], none⟩

def showTokens (request : Request) (options : Options) (file source : String)
    (log : List String) : Outcome :=
  let run := scanSource options (some file) source
  let log := log ++ run.log.map debug
  match run.result with
  | .error problem => failed request log (.fault problem)
  | .ok (tokens, problems) => display request log (tokens.map Token.text) problems

def deliver (files : Files) (request : Request) (compilation : Compilation) (log : List String) :
    Outcome :=
  let done := info compilation.doneText
  match request.output.map tidyPath with
  | none => ⟨.success, compilation.code, messages request (log ++ [done]) [], none⟩
  | some path =>
    match files.writeProblem? path with
    | some problem => failed request log (.ofFile problem path)
    | none =>
      let wrote := info ("Wrote " ++ toString compilation.code.length ++ " bytes to " ++ path)
      ⟨.success, "", messages request (log ++ [wrote, done]) [], some (path, compilation.code)⟩

def showCompilation (files : Files) (request : Request) (options : Options)
    (file source : String) (log : List String) : Outcome :=
  let run := compile options (some file) source
  let log := log ++ run.log.map debug
  match run.result with
  | .error problem => failed request log (.fault problem)
  | .ok compilation =>
    if request.ast then display request log [compilation.outline] compilation.problems
    else if compilation.succeeded then deliver files request compilation log
    else display request log [] compilation.problems

def perform (files : Files) (environment : Option String) (request : Request)
    (bytes : ByteArray) : Outcome :=
  let (defaults, ignored) := Options.ofEnvironment environment
  let options := { defaults with limit := request.limit.getD defaults.limit }
  let file := request.input.getD "<stdin>"
  let log := ignored.map debug
  match Text.ofBytes bytes with
  | .error error => failed request log (.undecodable error)
  | .ok source =>
    let log := log ++
      [info ("Translating " ++ file ++ " (max indent " ++ toString options.limit ++ ")")]
    if request.tokens then showTokens request options file source log
    else showCompilation files request options file source log

def misused (error : UsageError) : Outcome := ⟨.badInput, "", errorText [] error.lines, none⟩

def inputBytes (files : Files) (stdin : ByteArray) (request : Request) : ByteArray :=
  match request.input with
  | none => stdin
  | some path => (files.read path).toOption.getD ByteArray.empty

def run (files : Files) (stdin : ByteArray) (environment : Option String)
    (args : List String) : Outcome :=
  match Arguments.ofList args with
  | .error error => misused error
  | .ok arguments =>
    match arguments.notice? with
    | some .version => ⟨.success, versionText, "", none⟩
    | some _ => ⟨.success, endLines helpLines, "", none⟩
    | none =>
      match Request.ofArguments files arguments with
      | .error error => misused error
      | .ok request => perform files environment request (inputBytes files stdin request)

end Command

end Offside
