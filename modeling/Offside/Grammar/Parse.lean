import Offside.Grammar.Machine
import Offside.Scanner

/-!
Parsing tokens as they are pulled. One token is looked at ahead: what a token causes once it is
consumed happens after the next token has been read.
-/

namespace Offside

def Token.endAt (file : String) (line : Int) : Token := ⟨.endOfInput, .none, ⟨file, line, 1⟩⟩

namespace Pull

def ofToken (token : Token) : Pull := ⟨[], token, [], []⟩

def isLast (pull : Pull) : Bool := pull.token.kind = .endOfInput

end Pull

/-- A parse in progress: the machine, and what happens after the next token has been read. -/
structure Parse where
  machine : Machine
  deferred : List Event

namespace Parse

def initial : Parse := ⟨.initial, []⟩

def step (parse : Parse) (token : Token) : Parse × List Event :=
  let reaction := parse.machine.react token
  (⟨reaction.machine, reaction.later⟩, parse.deferred ++ reaction.now)

def run (parse : Parse) : List Pull → Parse × List Event
  | [] => (parse, [])
  | pull :: rest =>
    let (next, events) := parse.step pull.token
    let (last, others) := next.run rest
    (last, pull.journal.map .noted ++ events ++ others)

/-- Parses tokens up to the first end of input, and counts them. If there is none, the parse is given one
on the line of the last token, which is not counted. -/
def runToEnd (file : String) (line : Int) (parse : Parse) : List Pull → Parse × Nat × List Event
  | [] =>
    let (last, events) := parse.step (.endAt file line)
    (last, 0, events)
  | pull :: rest =>
    let (next, events) := parse.step pull.token
    let told := pull.journal.map .noted ++ events
    if pull.isLast then (next, 1, told)
    else
      let (last, count, others) := next.runToEnd file pull.token.place.line rest
      (last, count + 1, told ++ others)

def statements (parse : Parse) : List Stmt := parse.machine.statements.reverse

end Parse

structure Parsed where
  statements : List Stmt
  tokenCount : Nat
  events : List Event

namespace Parsed

/-- Parses pulled tokens to the end; `file` is named by an end of input that has to be supplied. -/
def ofPulls (file : String) (pulls : List Pull) : Parsed :=
  let (parse, count, events) := Parse.initial.runToEnd file 1 pulls
  ⟨parse.statements, count, events⟩

def ofTokens (file : String) (tokens : List Token) : Parsed := ofPulls file (tokens.map Pull.ofToken)

end Parsed

end Offside
