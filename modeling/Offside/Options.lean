import Offside.Text.Numeral
import Offside.Text.Quoted

/-! The settings of a compilation, and the environment variable that one of them comes from. -/

namespace Offside

/-- The most blocks that may be nested, and the name of sources that have none. -/
structure Options where
  limit : Int := 100
  file : String := "<input>"
deriving DecidableEq, Repr

namespace Options

def nameFor (options : Options) (file : Option String) : String :=
  match file with
  | some name => if name = "" then options.file else name
  | none => options.file

def positive? (value : String) : Option Int :=
  (Text.integer? value).filter (0 < ·)

/-- The options that the environment gives, and the lines of the log: a value that gives no limit is
ignored. An empty value counts as none. -/
def ofEnvironment (value : Option String) : Options × List String :=
  match value with
  | none => ({}, [])
  | some written =>
    if written = "" then ({}, [])
    else
      match positive? written with
      | some limit => ({ limit }, [])
      | none => ({}, ["Ignoring invalid MINIPY_MAX_INDENT=" ++ Text.quoted written])

end Options

end Offside
