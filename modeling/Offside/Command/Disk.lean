import Offside.Command.Files

/-!
A small file tree held in memory. Paths start in its top directory. Above that there are
directories, named by `..` parts, of which nothing else is known.
-/

namespace Offside

inductive Item where
  | file (bytes : ByteArray)
  | directory

structure Disk where
  items : List (List String × Item)

namespace Disk

def isTop (names : List String) : Bool := names.all (· = "..")

def above (names : List String) : List String :=
  if isTop names then names ++ [".."] else names.dropLast

/-- What stands at a place; the last entry of a place counts. -/
def item? (disk : Disk) (names : List String) : Option Item :=
  if isTop names then some .directory
  else (disk.items.findRev? (·.1 = names)).map Prod.snd

def locate (disk : Disk) (here : List String) : List String → Except FileProblem (List String)
  | [] => .ok here
  | part :: rest =>
    match disk.item? here with
    | none => .error .missing
    | some (.file _) => .error .notDirectory
    | some .directory =>
      if part = "" || part = "." then disk.locate here rest
      else if part = ".." then disk.locate (above here) rest
      else if 255 < part.utf8ByteSize then .error .nameTooLong
      else disk.locate (here ++ [part]) rest

/-- The place that a path leads to. A path that starts with a slash leads from a directory above. -/
def place (disk : Disk) (path : String) : Except FileProblem (List String) :=
  if path = "" then .error .missing
  else if 4095 < path.utf8ByteSize then .error .nameTooLong
  else disk.locate (if path.toList.head? = some '/' then [".."] else []) (pathParts path)

def read (disk : Disk) (path : String) : Except FileProblem ByteArray := do
  match disk.item? (← disk.place path) with
  | none => .error .missing
  | some .directory => .error .isDirectory
  | some (.file bytes) => .ok bytes

def writeProblem? (disk : Disk) (path : String) : Option FileProblem :=
  match disk.place path with
  | .error problem => some problem
  | .ok names =>
    match disk.item? names with
    | some .directory => some .isDirectory
    | _ => none

def files (disk : Disk) : Files := ⟨disk.read, disk.writeProblem?⟩

def put (disk : Disk) (names : List String) (bytes : ByteArray) : Disk :=
  ⟨disk.items ++ [(names, .file bytes)]⟩

end Disk

end Offside
