import Offside.Token
import Offside.Tree.Expr

/-!
Reading an expression token by token. What has been read is a stack of openings that wait for an
operand: parentheses, prefix operators, and left operands with their operator. Before an operator is
pushed, every opening that binds at least as tightly is closed.
-/

namespace Offside

def deepestNesting : Nat := 50

def Kind.binaryOp? : Kind → Option BinaryOp
  | .orWord => some .or
  | .andWord => some .and
  | .equal => some .equal
  | .unequal => some .unequal
  | .greater => some .greater
  | .greaterEqual => some .greaterEqual
  | .less => some .less
  | .lessEqual => some .lessEqual
  | .plus => some .add
  | .minus => some .subtract
  | .star => some .multiply
  | .slash => some .divide
  | _ => none

def Kind.unaryOp? : Kind → Option UnaryOp
  | .notWord => some .not
  | .minus => some .negate
  | _ => none

def Token.literal? (token : Token) : Option Literal :=
  match token.kind, token.payload with
  | .integer, .integer value => some (.integer value)
  | .float, .float value => some (.float value)
  | .boolean, payload => some (.boolean payload.holds)
  | _, _ => none

inductive Opening where
  | paren (place : Location)
  | unary (op : UnaryOp) (place : Location)
  | binary (op : BinaryOp) (left : Expr)
deriving DecidableEq, Repr

namespace Opening

def isNested : Opening → Bool
  | paren _ | unary _ _ => true
  | binary _ _ => false

end Opening

/-- An expression of which some tokens are read: an operand is to come, or has just been read. -/
inductive Reading where
  | awaiting (openings : List Opening)
  | holding (openings : List Opening) (operand : Expr)
deriving DecidableEq, Repr

/-- What a token means for an expression: it belongs to it; the expression was complete before it;
something else was expected; or it opens one level too many. -/
inductive Verdict where
  | more (reading : Reading)
  | complete (expr : Expr)
  | refused (expected : String)
  | tooDeep
deriving DecidableEq, Repr

inductive Settled where
  | ready (openings : List Opening) (operand : Expr)
  | chained
deriving DecidableEq, Repr

namespace Reading

def start : Reading := awaiting []

def isComparison (op : Option BinaryOp) : Bool := op.any BinaryOp.isComparison

/-- Closes every opening whose operand ends before the next operator, or before a token that is no
operator. A comparison must not be followed by another one. -/
def settle (next : Option BinaryOp) : List Opening → Expr → Settled
  | [], operand => .ready [] operand
  | .paren place :: outer, operand => .ready (.paren place :: outer) operand
  | .unary op place :: outer, operand =>
    if next.any fun op' => op.precedence ≤ op'.precedence then
      .ready (.unary op place :: outer) operand
    else settle next outer (.unary op operand place)
  | .binary op left :: outer, operand =>
    if next.any fun op' => op.precedence < op'.precedence then
      .ready (.binary op left :: outer) operand
    else if op.isComparison && isComparison next then .chained
    else settle next outer (.binary op left operand)

def depth (openings : List Opening) : Nat := openings.countP Opening.isNested

def nest (openings : List Opening) (opening : Opening) : Verdict :=
  if depth openings < deepestNesting then .more (awaiting (opening :: openings)) else .tooDeep

def feedAwaiting (openings : List Opening) (token : Token) : Verdict :=
  match token.kind.unaryOp?, token.literal? with
  | some op, _ => nest openings (.unary op token.place)
  | none, some value => .more (holding openings (.literal value token.place))
  | none, none =>
    match token.kind with
    | .name => .more (holding openings (.name token.payload.shown token.place))
    | .openParen => nest openings (.paren token.place)
    | _ => .refused "expression"

def feedHolding (openings : List Opening) (operand : Expr) (token : Token) : Verdict :=
  match settle token.kind.binaryOp? openings operand, token.kind.binaryOp? with
  | .chained, _ => .refused "end of comparison (comparisons do not chain)"
  | .ready rest operand, some op => .more (awaiting (.binary op operand :: rest))
  | .ready (.paren place :: rest) operand, none =>
    if token.kind = .closeParen then .more (holding rest (.group operand place))
    else .refused "')'"
  | .ready _ operand, none => .complete operand

def feed (reading : Reading) (token : Token) : Verdict :=
  match reading with
  | awaiting openings => feedAwaiting openings token
  | holding openings operand => feedHolding openings operand token

end Reading

end Offside
