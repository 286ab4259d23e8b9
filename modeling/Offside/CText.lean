import Offside.Binary64.Shortest
import Offside.Tree.Stmt

/-!
Programs as C text. Every variable is a `double`; the program declares all of them, runs the
statements, and prints the final values. Parentheses are written where the source has them, after a
`!` that applies to a binary operator, and between two minus signs.
-/

namespace Offside

def BinaryOp.cText : BinaryOp → String
  | add => "+"
  | subtract => "-"
  | multiply => "*"
  | divide => "/"
  | equal => "=="
  | unequal => "!="
  | less => "<"
  | greater => ">"
  | lessEqual => "<="
  | greaterEqual => ">="
  | and => "&&"
  | or => "||"

def Literal.cText : Literal → String
  | integer value => toString value
  | float value => value.text
  | boolean value => if value then "1" else "0"

namespace Expr

/-- A prefix operator and the text of its operand. A bare binary operand of `!` is put in
parentheses, and so is an operand of a minus sign that starts with one. -/
def cUnary (op : UnaryOp) (bare : Bool) (operand : String) : String :=
  match op with
  | .not => if bare then "!(" ++ operand ++ ")" else "!" ++ operand
  | .negate => if operand.toList.head? = some '-' then "-(" ++ operand ++ ")" else "-" ++ operand

/-- The words of an expression, to be put before `later`. The left operands of a chain of operators
are entered one after the other, so its length needs no stack. -/
def cWords : Expr → List String → List String
  | binary op left right, later =>
    left.cWords ((op.cText ++ " " ++ " ".intercalate (right.cWords [])) :: later)
  | unary op operand _, later =>
    cUnary op operand.isBinary (" ".intercalate (operand.cWords [])) :: later
  | group inner _, later => ("(" ++ " ".intercalate (inner.cWords []) ++ ")") :: later
  | name text _, later => text :: later
  | literal value _, later => value.cText :: later

def cText (expr : Expr) : String := " ".intercalate (expr.cWords [])

end Expr

namespace Stmt

def cLine (depth : Nat) (text : String) : String :=
  String.ofList (List.replicate (4 * depth) ' ') ++ text

mutual

def cLines (depth : Nat) : Stmt → List String
  | assign target value _ => [cLine depth (target ++ " = " ++ value.cText ++ ";")]
  | choose arms _ => cLinesOfArms depth "if (" arms
  | loop condition body _ =>
    cLine depth ("while (" ++ condition.cText ++ ") \x7b") :: cLinesOfAll (depth + 1) body
      ++ [cLine depth "\x7d"]
  | leave _ => [cLine depth "break;"]

def cLinesOfAll (depth : Nat) : List Stmt → List String
  | [] => []
  | first :: rest => first.cLines depth ++ cLinesOfAll depth rest

/-- The lines of a chain whose first guard comes after `opening`. -/
def cLinesOfArms (depth : Nat) (opening : String) : Arms Expr Stmt → List String
  | .done => [cLine depth "\x7d"]
  | .otherwise body =>
    cLine depth "\x7d else \x7b" :: cLinesOfAll (depth + 1) body ++ [cLine depth "\x7d"]
  | .arm guard body rest =>
    cLine depth (opening ++ guard.cText ++ ") \x7b") :: cLinesOfAll (depth + 1) body
      ++ cLinesOfArms depth "\x7d else if (" rest

end

def cProgram (names : List String) (statements : List Stmt) : String :=
  "\n".intercalate
    (["#include <stdio.h>", "int main() \x7b"]
      ++ names.map (fun name => "double " ++ name ++ ";")
      ++ ["", "/* Begin program */", ""]
      ++ cLinesOfAll 0 statements
      ++ ["/* End program */", ""]
      ++ names.map (fun name => "printf(\"" ++ name ++ ": %lf\\n\", " ++ name ++ ");")
      ++ ["\x7d"]) ++ "\n"

end Stmt

end Offside
