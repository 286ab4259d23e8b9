import Offside.Command.Files
import Offside.Diagnostic
import Offside.Text.Quoted
import Offside.Text.Utf8

/-! Failures that end a run of the command: how they are shown, and the exit status they give. -/

namespace Offside

inductive ExitCode where
  | success
  | faults
  | badInput
  | internal
  | aborted
deriving DecidableEq, Repr

def ExitCode.number : ExitCode → Nat
  | success => 0
  | faults => 1
  | badInput => 2
  | internal => 3
  | aborted => 4

inductive Failure where
  | fault (problem : Diagnostic)
  | undecodable (error : Text.Utf8Error)
  /-- The source file of a compilation is not there. -/
  | noSource (path : String)
  /-- The system refuses a request, with the number and the wording of its error. -/
  | system (code : Int) (message : String) (path : Option String)
  | unknown (message : String)

namespace Failure

def ofFile (problem : FileProblem) (path : String) : Failure :=
  system problem.code problem.message (some path)

def message : Failure → String
  | fault problem => problem.text
  | undecodable error => error.message
  | noSource path => "Source file not found: " ++ path
  | system code message path =>
    "[Errno " ++ toString code ++ "] " ++ message ++
      match path with
      | some path => ": " ++ Text.quoted path
      | none => ""
  | unknown message => message

def exitCode : Failure → ExitCode
  | fault problem =>
    match problem.cause with
    | .tooManyLevels _ => .aborted
    | _ => .faults
  | undecodable _ | noSource _ | system _ _ _ => .badInput
  | unknown _ => .internal

def lines (failure : Failure) (verbose : Bool) : List String :=
  match failure with
  | fault _ =>
    if failure.exitCode = .aborted then [failure.message, "translation aborted"]
    else [failure.message]
  | undecodable _ => ["Error: cannot decode input: " ++ failure.message]
  | noSource _ | system _ _ _ => ["Error: " ++ failure.message]
  | unknown _ =>
    ("Internal error: " ++ failure.message) :: if verbose then ["NoneType: None"] else []

end Failure

end Offside
