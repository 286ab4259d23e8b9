/-! Files as the command sees them: what reading and writing a path gives. -/

namespace Offside

inductive FileProblem where
  | missing
  | isDirectory
  | notDirectory
  | nameTooLong
deriving DecidableEq, Repr

namespace FileProblem

def code : FileProblem → Int
  | missing => 2
  | notDirectory => 20
  | isDirectory => 21
  | nameTooLong => 36

def message : FileProblem → String
  | missing => "No such file or directory"
  | notDirectory => "Not a directory"
  | isDirectory => "Is a directory"
  | nameTooLong => "File name too long"

end FileProblem

/-- The files around a run: the bytes that a path gives, and why writing it would fail, if it
would. -/
structure Files where
  read : String → Except FileProblem ByteArray
  writeProblem? : String → Option FileProblem

namespace Files

def isDirectory (files : Files) (path : String) : Bool :=
  match files.read path with
  | .error .isDirectory => true
  | _ => false

end Files

def pathParts (path : String) : List String :=
  (path.toList.splitOn '/').map String.ofList

/-- The slashes at the start of a path: none, one, or two where exactly two are written. -/
def leadingSlashes (path : String) : String :=
  match (path.toList.takeWhile (· = '/')).length with
  | 0 => ""
  | 2 => "//"
  | _ => "/"

def tidyPath (path : String) : String :=
  let parts := (pathParts path).filter fun part => part ≠ "" && part ≠ "."
  let tidied := leadingSlashes path ++ "/".intercalate parts
  if tidied = "" then "." else tidied

end Offside
