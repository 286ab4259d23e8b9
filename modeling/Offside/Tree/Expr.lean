import Offside.Binary64.Basic
import Offside.Location

/-! Expressions. -/

namespace Offside

inductive BinaryOp where
  | add
  | subtract
  | multiply
  | divide
  | equal
  | unequal
  | less
  | greater
  | lessEqual
  | greaterEqual
  | and
  | or
deriving DecidableEq, Repr

namespace BinaryOp

/-- How tightly an operator binds. `not` stands between `and` and the comparisons, and the minus
sign binds tighter than all of these. -/
def precedence : BinaryOp → Nat
  | or => 1
  | and => 2
  | equal | unequal | less | greater | lessEqual | greaterEqual => 4
  | add | subtract => 5
  | multiply | divide => 6

def isComparison : BinaryOp → Bool
  | equal | unequal | less | greater | lessEqual | greaterEqual => true
  | _ => false

def text : BinaryOp → String
  | add => "+"
  | subtract => "-"
  | multiply => "*"
  | divide => "/"
  | equal => "=="
  | unequal => "!="
  | less => "<"
  | greater => ">"
  | lessEqual => "<="
  | greaterEqual => ">="
  | and => "and"
  | or => "or"

end BinaryOp

inductive UnaryOp where
  | negate
  | not
deriving DecidableEq, Repr

namespace UnaryOp

def precedence : UnaryOp → Nat
  | not => 3
  | negate => 7

def text : UnaryOp → String
  | negate => "-"
  | not => "not "

end UnaryOp

inductive Literal where
  | integer (value : Int)
  | float (value : Binary64)
  | boolean (value : Bool)
deriving DecidableEq, Repr

inductive Expr where
  | literal (value : Literal) (place : Location)
  | name (text : String) (place : Location)
  | unary (op : UnaryOp) (operand : Expr) (place : Location)
  | binary (op : BinaryOp) (left right : Expr)
  | group (inner : Expr) (place : Location)
deriving DecidableEq, Repr

namespace Expr

def place : Expr → Location
  | literal _ place | name _ place | unary _ _ place | group _ place => place
  | binary _ left _ => left.place

def isBinary : Expr → Bool
  | binary _ _ _ => true
  | _ => false

def relocate (move : Location → Location) : Expr → Expr
  | literal value place => literal value (move place)
  | name text place => name text (move place)
  | unary op operand place => unary op (operand.relocate move) (move place)
  | binary op left right => binary op (left.relocate move) (right.relocate move)
  | group inner place => group (inner.relocate move) (move place)

def agrees (a b : Expr) : Bool :=
  a.relocate (fun _ => .top "") = b.relocate (fun _ => .top "")

end Expr

end Offside
