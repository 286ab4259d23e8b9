import Offside.Command.Files
import Offside.Text.Numeral
import Offside.Text.Quoted

/-!
The arguments of the command. Options and the input file may come in any order; short options may be
written together; the last of a repeated option counts.
-/

namespace Offside

inductive Given where
  | output (path : String)
  | tokens
  | ast
  | maxIndent (written : String)
  | verbose
  | version
  | help
deriving DecidableEq, Repr

inductive UsageError where
  | noSuchOption (option : String)
  | needsValue (option : String)
  | takesNoValue (option : String)
  | notInteger (written : String)
  | belowRange (value : Int)
  | unreadable (path : String) (problem : FileProblem)
  | outputIsDirectory (path : String)
  | extraArguments (arguments : List String)
deriving DecidableEq, Repr

namespace UsageError

def message : UsageError → String
  | noSuchOption option => "No such option: " ++ option
  | needsValue option => "Option " ++ Text.quoted option ++ " requires an argument."
  | takesNoValue option => "Option " ++ Text.quoted option ++ " does not take a value."
  | notInteger written =>
    "Invalid value for '--max-indent': " ++ Text.quoted written ++ " is not a valid integer range."
  | belowRange value =>
    "Invalid value for '--max-indent': " ++ toString value ++ " is not in the range x>=1."
  | unreadable path problem =>
    "Invalid value for '[INPUT_FILE]': '" ++ path ++ "': " ++ problem.message
  | outputIsDirectory path =>
    "Invalid value for '-o' / '--output': File " ++ Text.quoted path ++ " is a directory."
  | extraArguments arguments =>
    "Got unexpected extra argument" ++ (if arguments.length = 1 then "" else "s") ++ " ("
      ++ " ".intercalate arguments ++ ")"

def showsUsage : UsageError → Bool
  | needsValue _ | takesNoValue _ => false
  | _ => true

def lines (error : UsageError) : List String :=
  (if error.showsUsage then
      ["Usage: mpcc [OPTIONS] [INPUT_FILE]", "Try 'mpcc --help' for help.", ""]
    else []) ++ ["Error: " ++ error.message]

end UsageError

/-- What one argument gives: options, of which the last may want the next argument as its value. -/
inductive Shape where
  | complete (given : List Given)
  | wanting (given : List Given) (option : String) (last : String → Given)
  | wrong (error : UsageError)

namespace Shape

def ofLetters (given : List Given) : List Char → Shape
  | [] => complete given
  | c :: rest =>
    if c = 'v' then ofLetters (given ++ [.verbose]) rest
    else if c = 'o' then
      if rest = [] then wanting given "-o" .output
      else complete (given ++ [.output (String.ofList rest)])
    else wrong (.noSuchOption (String.ofList ['-', c]))

def flag (option : String) (value : Option String) (given : Given) : Shape :=
  match value with
  | none => complete [given]
  | some _ => wrong (.takesNoValue option)

def valued (option : String) (value : Option String) (make : String → Given) : Shape :=
  match value with
  | none => wanting [] option make
  | some value => complete [make value]

def ofLong (option : String) (value : Option String) : Shape :=
  if option = "--output" then valued option value .output
  else if option = "--max-indent" then valued option value .maxIndent
  else if option = "--tokens" then flag option value .tokens
  else if option = "--ast" then flag option value .ast
  else if option = "--verbose" then flag option value .verbose
  else if option = "--version" then flag option value .version
  else if option = "--help" then flag option value .help
  else wrong (.noSuchOption option)

def ofOption (chars : List Char) : Shape :=
  match chars with
  | '-' :: '-' :: _ =>
    let option := String.ofList (chars.takeWhile (· ≠ '='))
    match chars.dropWhile (· ≠ '=') with
    | [] => ofLong option none
    | _ :: value => ofLong option (some (String.ofList value))
  | _ => ofLetters [] chars.tail

end Shape

structure Arguments where
  given : List Given
  others : List String
deriving DecidableEq, Repr

namespace Arguments

def isOption (arg : String) : Bool :=
  match arg.toList with
  | '-' :: _ :: _ => true
  | _ => false

def prepend (given : List Given) (arguments : Arguments) : Arguments :=
  { arguments with given := given ++ arguments.given }

def ofList : List String → Except UsageError Arguments
  | [] => .ok ⟨[], []⟩
  | arg :: rest =>
    if arg = "--" then .ok ⟨[], rest⟩
    else if isOption arg then
      match Shape.ofOption arg.toList with
      | .wrong error => .error error
      | .complete given => (ofList rest).map (prepend given)
      | .wanting given option last =>
        match rest with
        | [] => .error (.needsValue option)
        | value :: rest => (ofList rest).map (prepend (given ++ [last value]))
    else (ofList rest).map fun arguments => { arguments with others := arg :: arguments.others }

def output? (arguments : Arguments) : Option String :=
  arguments.given.reverse.findSome? fun
    | .output path => some path
    | _ => none

def maxIndent? (arguments : Arguments) : Option String :=
  arguments.given.reverse.findSome? fun
    | .maxIndent written => some written
    | _ => none

def has (arguments : Arguments) (given : Given) : Bool := arguments.given.contains given

def notice? (arguments : Arguments) : Option Given :=
  arguments.given.find? fun given => given = .version || given = .help

end Arguments

def readLimit (written : String) : Except UsageError Int :=
  match Text.integer? written with
  | none => .error (.notInteger written)
  | some value => if 1 ≤ value then .ok value else .error (.belowRange value)

/-- What the command is asked to do. The input is standard input when it has no path. -/
structure Request where
  input : Option String
  output : Option String
  tokens : Bool
  ast : Bool
  verbose : Bool
  limit : Option Int
deriving DecidableEq, Repr

namespace Request

def faultOf? (files : Files) (arguments : Arguments) : Given → Option UsageError
  | .output _ => arguments.output?.bind fun path =>
    if files.isDirectory path then some (.outputIsDirectory path) else none
  | .maxIndent _ => arguments.maxIndent?.bind fun written =>
    match readLimit written with
    | .error error => some error
    | .ok _ => none
  | _ => none

def inputOf (arguments : Arguments) : Option String := arguments.others.head?.filter (· ≠ "-")

def inputFault? (files : Files) (arguments : Arguments) : Option UsageError :=
  (inputOf arguments).bind fun path =>
    match files.read path with
    | .error problem => some (.unreadable path problem)
    | .ok _ => none

def extraFault? (arguments : Arguments) : Option UsageError :=
  if arguments.others.tail = [] then none else some (.extraArguments arguments.others.tail)

/-- Checks the values of options in the order in which they are given, then the input file, then
that nothing is left over. -/
def ofArguments (files : Files) (arguments : Arguments) : Except UsageError Request :=
  match (arguments.given.findSome? (faultOf? files arguments)).or
      ((inputFault? files arguments).or (extraFault? arguments)) with
  | some error => .error error
  | none => .ok
    { input := inputOf arguments
      output := arguments.output?
      tokens := arguments.has .tokens
      ast := arguments.has .ast
      verbose := arguments.has .verbose
      limit := arguments.maxIndent?.bind fun written => (readLimit written).toOption }

end Request

end Offside
