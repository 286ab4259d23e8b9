import Offside.Grammar.Event
import Offside.Grammar.Reading
import Offside.Tree.Stmt

/-!
Reading statements token by token. The machine knows the statement it is in, the blocks around it
with the statements read before them, and the statements read in the current block. After a fault it
skips to the next statement of the current block.
-/

namespace Offside

abbrev ArmsSoFar := List (Expr × List Stmt)

inductive Goal where
  | value (target : Token)
  | guard (place : Location) (earlier : ArmsSoFar)
  | condition (place : Location)

/-- What a block belongs to. A stray block belongs to nothing and is dropped. -/
inductive Header where
  | arm (place : Location) (earlier : ArmsSoFar) (guard : Expr)
  | otherwise (place : Location) (arms : ArmsSoFar)
  | loop (place : Location) (condition : Expr)
  | stray

inductive Mode where
  | start
  | target (name : Token)
  | expression (goal : Goal) (reading : Reading)
  | colon (header : Header)
  | lineEnd (header : Header)
  | opening (header : Header)
  | afterArm (place : Location) (arms : ArmsSoFar)
  | leaving (place : Location)
  | skipping (depth : Nat) (skipped : List Token)

/-- A block around the current one, with the statements read before it, the last one first. -/
structure Enclosing where
  header : Header
  before : List Stmt

structure Machine where
  mode : Mode
  enclosing : List Enclosing
  statements : List Stmt

/-- The machine after a token, what happens at once, and what happens after the next token has been
read. -/
structure Reaction where
  machine : Machine
  now : List Event
  later : List Event

namespace Machine

def initial : Machine := ⟨.start, [], []⟩

def turn (machine : Machine) (mode : Mode) : Reaction := ⟨{ machine with mode }, [], []⟩

def append (machine : Machine) (statement : Stmt) : Machine :=
  { machine with mode := .start, statements := statement :: machine.statements }

def chain (last : Arms Expr Stmt) (arms : ArmsSoFar) : Arms Expr Stmt := .ofList last arms.reverse

def openBlock (machine : Machine) (header : Header) : Machine :=
  ⟨.start, ⟨header, machine.statements⟩ :: machine.enclosing, []⟩

def leaveBlock (outer : Machine) (body : List Stmt) : Header → Machine
  | .arm place earlier guard => { outer with mode := .afterArm place ((guard, body) :: earlier) }
  | .otherwise place arms => outer.append (.choose (chain (.otherwise body) arms) place)
  | .loop place condition => outer.append (.loop condition body place)
  | .stray => { outer with mode := .start }

def unexpected (token : Token) (expected : Option String) : Event :=
  .rejected (.unexpectedToken token.described expected) token

def closeBlock (machine : Machine) (token : Token) : Reaction :=
  match machine.enclosing with
  | [] => ⟨{ machine with mode := .start }, [], [unexpected token none]⟩
  | block :: outer =>
    ⟨leaveBlock ⟨.start, outer, block.before⟩ machine.statements.reverse block.header, [], []⟩

def outermost (machine : Machine) : List Stmt :=
  match machine.enclosing.getLast? with
  | none => machine.statements
  | some block => block.before

/-- At the end of the input every block lacks its end, and the statement that it belongs to is
dropped. -/
def closeAll (machine : Machine) (token : Token) : Reaction :=
  ⟨⟨.start, [], machine.outermost⟩,
    machine.enclosing.flatMap fun _ => [unexpected token (some "end of block"), .recovered []], []⟩

/-- Skips a token. Skipping ends with a line end of the current block, or with the dedent of a
block that was skipped; it ends before the dedent of the current block and the end of the input. -/
def skip (machine : Machine) (depth : Nat) (skipped : List Token) (token : Token) : Reaction :=
  let done := Event.recovered (token :: skipped).reverse
  match token.kind, depth with
  | .endOfInput, _ =>
    let reaction := machine.closeAll token
    { reaction with now := .recovered skipped.reverse :: reaction.now }
  | .dedent, 0 =>
    let reaction := machine.closeBlock token
    { reaction with now := .recovered skipped.reverse :: reaction.now }
  | .dedent, 1 => ⟨{ machine with mode := .start }, [], [done]⟩
  | .dedent, depth + 2 => machine.turn (.skipping (depth + 1) (token :: skipped))
  | .indent, depth => machine.turn (.skipping (depth + 1) (token :: skipped))
  | .endOfLine, 0 => ⟨{ machine with mode := .start }, [], [done]⟩
  | _, depth => machine.turn (.skipping depth (token :: skipped))

def refuse (machine : Machine) (token : Token) (expected : String) : Reaction :=
  let reaction := machine.skip 0 [] token
  { reaction with now := unexpected token (some expected) :: reaction.now }

def begin (machine : Machine) (token : Token) : Reaction :=
  match token.kind with
  | .name => machine.turn (.target token)
  | .ifWord => machine.turn (.expression (.guard token.place []) .start)
  | .whileWord => machine.turn (.expression (.condition token.place) .start)
  | .breakWord => machine.turn (.leaving token.place)
  | .indent => ⟨machine.openBlock .stray, [.rejected .strayIndent token], []⟩
  | .endOfLine => machine.turn .start
  | .dedent => machine.closeBlock token
  | .endOfInput => machine.closeAll token
  | _ => machine.refuse token "statement"

def conclude (machine : Machine) (expr : Expr) (token : Token) : Goal → Reaction
  | .value target =>
    if token.kind = .endOfLine then
      ⟨machine.append (.assign target.payload.shown expr target.place), [], [.assigned target]⟩
    else machine.refuse token "end of line"
  | .guard place earlier =>
    if token.kind = .colon then machine.turn (.lineEnd (.arm place earlier expr))
    else machine.refuse token "':'"
  | .condition place =>
    if token.kind = .colon then machine.turn (.lineEnd (.loop place expr))
    else machine.refuse token "':'"

def readExpression (machine : Machine) (goal : Goal) (reading : Reading) (token : Token) :
    Reaction :=
  match reading.feed token with
  | .more reading =>
    ⟨{ machine with mode := .expression goal reading }, [],
      if token.kind = .name then [.used token] else []⟩
  | .complete expr => machine.conclude expr token goal
  | .refused expected => machine.refuse token expected
  | .tooDeep =>
    ⟨{ machine with mode := .skipping 0 [] }, [],
      [.rejected (.expressionTooDeep deepestNesting) token]⟩

def react (machine : Machine) (token : Token) : Reaction :=
  match machine.mode with
  | .start => machine.begin token
  | .target name =>
    if token.kind = .assign then machine.turn (.expression (.value name) .start)
    else machine.refuse token "'='"
  | .expression goal reading => machine.readExpression goal reading token
  | .colon header =>
    if token.kind = .colon then machine.turn (.lineEnd header) else machine.refuse token "':'"
  | .lineEnd header =>
    if token.kind = .endOfLine then machine.turn (.opening header)
    else machine.refuse token "end of line"
  | .opening header =>
    if token.kind = .indent then ⟨machine.openBlock header, [], []⟩
    else machine.refuse token "indented block"
  | .afterArm place arms =>
    match token.kind with
    | .elifWord => machine.turn (.expression (.guard place arms) .start)
    | .elseWord => machine.turn (.colon (.otherwise place arms))
    | _ => (machine.append (.choose (chain .done arms) place)).begin token
  | .leaving place =>
    if token.kind = .endOfLine then ⟨machine.append (.leave place), [], []⟩
    else machine.refuse token "end of line"
  | .skipping depth skipped => machine.skip depth skipped token

end Machine

end Offside
