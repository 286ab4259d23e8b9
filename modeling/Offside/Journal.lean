import Offside.Diagnostic

/-! What happens in a run, in order. -/

namespace Offside

inductive Entry where
  | pushed (line width : Nat)
  | popped (line width : Nat)
  | closed (width : Nat)
  | recorded (problem : Diagnostic)
  | declared (name : String) (place : Option Location)
  | recovered (skipped : Nat)
deriving DecidableEq, Repr

namespace Entry

def problem? : Entry → Option Diagnostic
  | recorded problem => some problem
  | _ => none

def text : Entry → String
  | pushed line width => "Line " ++ toString line ++ ": pushed indentation level " ++ toString width
  | popped line width => "Line " ++ toString line ++ ": popped indentation level " ++ toString width
  | closed width => "Closed indentation level " ++ toString width ++ " at end of input"
  | recorded problem => "Recorded " ++ problem.cause.label ++ ": " ++ problem.cause.message
  | declared name place =>
    "Declared symbol '" ++ name ++ "' at " ++ (place.map Location.text).getD "None"
  | recovered skipped => "Error recovery skipped " ++ toString skipped ++ " tokens"

end Entry

def problems (journal : List Entry) : List Diagnostic := journal.filterMap Entry.problem?

end Offside
