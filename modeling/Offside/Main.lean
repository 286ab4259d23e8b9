import Offside.Command.Run

/-! The command on the files of the system. -/

namespace Offside

def FileProblem.ofError : IO.Error → Option FileProblem
  | .noFileOrDirectory .. => some .missing
  | .inappropriateType _ code _ => some (if code = 21 then .isDirectory else .notDirectory)
  | .invalidArgument .. => some .nameTooLong
  | _ => none

def readPath (path : String) : IO (Except FileProblem ByteArray) := do
  try
    return .ok (← IO.FS.readBinFile path)
  catch error =>
    match FileProblem.ofError error with
    | some problem => return .error problem
    | none => throw error

/-- Why writing a path would fail. A file that is not there can be made in a directory that is; one
that is there is left as it is. -/
def probePath (path : String) : IO (Option FileProblem) := do
  try
    discard (IO.FS.Handle.mk path .readWrite)
    return none
  catch error =>
    match FileProblem.ofError error with
    | some .missing =>
      let parent := "/".intercalate (pathParts path).dropLast
      if parent = "" then return none
      match ← readPath parent with
      | .error .isDirectory => return none
      | _ => return some .missing
    | problem => return problem

def readAll (stream : IO.FS.Stream) : IO ByteArray := do
  let mut bytes := ByteArray.empty
  repeat
    let chunk ← stream.read 65536
    if chunk.isEmpty then break
    bytes := bytes ++ chunk
  return bytes

def snapshot (paths : List String) : IO Files := do
  let read ← paths.mapM fun path => return (path, ← readPath path)
  let probed ← paths.mapM fun path => return (tidyPath path, ← probePath (tidyPath path))
  return {
    read := fun path => (read.lookup path).getD (.error .missing)
    writeProblem? := fun path => (probed.lookup path).getD none }

def Arguments.sources (args : List String) : List String × Bool :=
  match Arguments.ofList args with
  | .error _ => ([], false)
  | .ok arguments =>
    let input := Request.inputOf arguments
    (input.toList ++ arguments.output?.toList, arguments.notice?.isNone && input.isNone)

end Offside

open Offside

def main (args : List String) : IO UInt32 := do
  let (paths, fromStdin) := Arguments.sources args
  let files ← snapshot paths
  let stdin ← if fromStdin then readAll (← IO.getStdin) else pure ByteArray.empty
  let outcome := Command.run files stdin (← IO.getEnv "MINIPY_MAX_INDENT") args
  match outcome.written with
  | some (path, text) => IO.FS.writeFile path text
  | none => pure ()
  (← IO.getStdout).putStr outcome.stdout
  (← IO.getStderr).putStr outcome.stderr
  return outcome.exit.number.toUInt32
