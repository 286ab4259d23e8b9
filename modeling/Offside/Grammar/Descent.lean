import Offside.Grammar.Parse

/-!
Reading a program by recursive descent. There is a function for each rule of the grammar, which looks at
one token and pulls the next one where it consumes it. A fault breaks off a statement, and the tokens up
to the next one are skipped. Calls and loops go on as long as there is `fuel`; a run that is out of it has
no result.
-/

namespace Offside

structure Fault where
  cause : Cause
  token : Token

def Fault.event (fault : Fault) : Event := .rejected fault.cause fault.token

/-- The token that is looked at, those that are not pulled yet, how many have been pulled, how many
parentheses and prefix operators are open, and what has happened. -/
structure Cursor where
  file : String
  current : Token
  upcoming : List Pull
  pulled : Nat
  nesting : Nat
  events : List Event

namespace Cursor

def told (cursor : Cursor) (events : List Event) : Cursor :=
  { cursor with events := cursor.events ++ events }

def next (cursor : Cursor) : Cursor :=
  match cursor.upcoming with
  | [] => { cursor with current := .endAt cursor.file cursor.current.place.line }
  | pull :: rest =>
    { cursor with
      current := pull.token
      upcoming := rest
      pulled := cursor.pulled + 1
      events := cursor.events ++ pull.journal.map .noted }

def ofPulls (file : String) (pulls : List Pull) : Cursor := next ⟨file, .endAt file 1, pulls, 0, 0, []⟩

end Cursor

abbrev Session := StateT Cursor Option

abbrev Descent := ExceptT Fault Session

namespace Descent

def peek : Session Token := return (← get).current

def tell (event : Event) : Session Unit := modify (·.told [event])

def advance : Session Token := do
  let token ← peek
  if token.kind ≠ .endOfInput then modify Cursor.next
  return token

def refuse {Product : Type} (expected : String) : Descent Product := do
  let token ← peek
  throw ⟨.unexpectedToken token.described (some expected), token⟩

def expect (kind : Kind) (expected : String) : Descent Token := do
  if (← peek).kind = kind then advance else refuse expected

def enter (token : Token) : Descent Unit :=
  (do
    let nesting := (← get).nesting
    if nesting < deepestNesting then
      modify fun cursor => { cursor with nesting := nesting + 1 }
      return .ok ()
    else return .error ⟨.expressionTooDeep deepestNesting, token⟩ : Session (Except Fault Unit))

def leave : Session Unit := modify fun cursor => { cursor with nesting := cursor.nesting - 1 }

/-- Reads something one level deeper. The level is left with or without a fault. -/
def nested (token : Token) (inner : Descent Expr) : Descent Expr := do
  enter token
  (do
    let result ← inner.run
    leave
    return result : Session (Except Fault Expr))

def outOfFuel {Product : Type} : Session Product := failure

def parenthesized (expression : Descent Expr) : Descent Expr := do
  let inner ← expression
  let _ ← expect .closeParen "')'"
  return inner

def operand (expression : Nat → Descent Expr) : Descent Expr := do
  let token ← peek
  match token.kind.unaryOp?, token.literal? with
  | some op, _ =>
    let _ ← advance
    return .unary op (← nested token (expression op.precedence)) token.place
  | none, some value =>
    let _ ← advance
    return .literal value token.place
  | none, none =>
    match token.kind with
    | .name =>
      let _ ← advance
      tell (.used token)
      return .name token.payload.shown token.place
    | .openParen =>
      let _ ← advance
      return .group (← nested token (parenthesized (expression BinaryOp.or.precedence))) token.place
    | _ => refuse "expression"

mutual

/-- An expression whose operators, where they are not nested, bind at least as tightly as `least`. -/
def expression : Nat → Nat → Descent Expr
  | 0, _ => outOfFuel
  | fuel + 1, least => do
    climb fuel least (← operand (expression fuel))

def climb : Nat → Nat → Expr → Descent Expr
  | 0, _, _ => outOfFuel
  | fuel + 1, least, left => do
    match (← peek).kind.binaryOp? with
    | none => return left
    | some op =>
      if op.precedence < least then return left
      else
        let _ ← advance
        let right ← expression fuel (op.precedence + 1)
        if op.isComparison && Reading.isComparison (← peek).kind.binaryOp? then
          refuse "end of comparison (comparisons do not chain)"
        else climb fuel least (.binary op left right)

end

/-- Skips to the next statement of the block. The end of the block and that of the input are not
consumed, and blocks that start here are skipped whole. -/
def skip : Nat → Nat → List Token → Session Unit
  | 0, _, _ => outOfFuel
  | fuel + 1, depth, skipped => do
    let token ← peek
    match token.kind with
    | .endOfInput => tell (.recovered skipped.reverse)
    | .dedent =>
      if depth = 0 then tell (.recovered skipped.reverse)
      else
        let _ ← advance
        if depth = 1 then tell (.recovered (token :: skipped).reverse)
        else skip fuel (depth - 1) (token :: skipped)
    | .indent =>
      let _ ← advance
      skip fuel (depth + 1) (token :: skipped)
    | .endOfLine =>
      let _ ← advance
      if depth = 0 then tell (.recovered (token :: skipped).reverse) else skip fuel depth (token :: skipped)
    | _ =>
      let _ ← advance
      skip fuel depth (token :: skipped)

def synchronize (fuel : Nat) : Session Unit := skip fuel 0 []

def lineEnd : Descent Unit := do
  let _ ← expect .endOfLine "end of line"

def headerEnd : Descent Unit := do
  let _ ← expect .colon "':'"
  lineEnd

def assignment (fuel : Nat) : Descent (Option Stmt) := do
  let target ← advance
  let _ ← expect .assign "'='"
  let value ← expression fuel BinaryOp.or.precedence
  lineEnd
  tell (.assigned target)
  return some (.assign target.payload.shown value target.place)

def leaving : Descent (Option Stmt) := do
  let word ← advance
  lineEnd
  return some (.leave word.place)

def block (statements : Descent (List Stmt)) : Descent (List Stmt) := do
  let _ ← expect .indent "indented block"
  let body ← statements
  let _ ← expect .dedent "end of block"
  return body

/-- A guarded body, and all that follow it. -/
def choice (statements : Descent (List Stmt)) : Nat → Location → ArmsSoFar → Descent (Option Stmt)
  | 0, _, _ => outOfFuel
  | fuel + 1, place, earlier => do
    let guard ← expression (fuel + 1) BinaryOp.or.precedence
    headerEnd
    let body ← block statements
    let arms := (guard, body) :: earlier
    match (← peek).kind with
    | .elifWord =>
      let _ ← advance
      choice statements fuel place arms
    | .elseWord =>
      let _ ← advance
      headerEnd
      return some (.choose (Machine.chain (.otherwise (← block statements)) arms) place)
    | _ => return some (.choose (Machine.chain .done arms) place)

def statement (fuel : Nat) (statements : Descent (List Stmt)) : Descent (Option Stmt) := do
  let token ← peek
  match token.kind with
  | .name => assignment fuel
  | .ifWord =>
    let _ ← advance
    choice statements fuel token.place []
  | .whileWord =>
    let _ ← advance
    let condition ← expression fuel BinaryOp.or.precedence
    headerEnd
    return some (.loop condition (← block statements) token.place)
  | .breakWord => leaving
  | .indent =>
    tell (.rejected .strayIndent token)
    let _ ← block statements
    return none
  | .endOfLine =>
    let _ ← advance
    return none
  | _ => refuse "statement"

/-- A statement with a fault is skipped. -/
def statementSafely (fuel : Nat) (statements : Descent (List Stmt)) : Descent (Option Stmt) :=
  (do
    match ← (statement fuel statements).run with
    | .ok result => return .ok result
    | .error fault =>
      tell fault.event
      synchronize fuel
      return .ok none : Session (Except Fault (Option Stmt)))

/-- The statements of a block, after those that have been read, the last one first. -/
def statements : Nat → List Stmt → Descent (List Stmt)
  | 0, _ => outOfFuel
  | fuel + 1, read => do
    match (← peek).kind with
    | .dedent | .endOfInput => return read.reverse
    | _ => statements fuel ((← statementSafely (fuel + 1) (statements fuel [])).toList ++ read)

/-- The statements outside all blocks. A dedent has no block to end there. -/
def program : Nat → List Stmt → Descent (List Stmt)
  | 0, _ => outOfFuel
  | fuel + 1, read => do
    match (← peek).kind with
    | .endOfInput => return read.reverse
    | .dedent =>
      let token ← advance
      tell (Machine.unexpected token none)
      program fuel read
    | _ => program fuel ((← statementSafely (fuel + 1) (statements fuel [])).toList ++ read)

def parse (fuel : Nat) (file : String) (pulls : List Pull) : Option (Except Fault Parsed) := do
  let (outcome, cursor) ← (program fuel []).run.run (.ofPulls file pulls)
  return outcome.map fun statements => ⟨statements, cursor.pulled, cursor.events⟩

end Descent

end Offside
