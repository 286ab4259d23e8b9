import Offside.Binary64.Shortest
import Offside.Tree.Stmt

/-!
Outlines of trees. A node is any piece of a program, complete or not; its outline has a line for
each statement, and shows expressions with a pair of parentheses for each operator.
-/

namespace Offside

inductive Node where
  | missing
  | program (body : List Node)
  | assign (target : String) (value : Node)
  | choose (arms : Arms Node Node)
  | arm (guard : Node) (body : List Node)
  | loop (condition : Node) (body : List Node)
  | leave
  | literal (value : Literal)
  | name (text : String)
  | unary (op : UnaryOp) (operand : Node)
  | binary (op : BinaryOp) (left right : Node)
  | group (inner : Node)

def Literal.text : Literal → String
  | integer value => toString value
  | float value => value.text
  | boolean value => if value then "True" else "False"

namespace Node

def enclosed (opened : Nat) (remainders : List String) (text : String) : String :=
  String.ofList (List.replicate opened '(') ++ text ++ String.join remainders

/-- Shows an expression as the innermost left operand of a chain of operators. The left operands
of the chain are entered one after the other, so its length needs no stack. -/
def shownIn : Node → Nat → List String → String
  | binary op left right, opened, remainders =>
    shownIn left (opened + 1) ((" " ++ op.text ++ " " ++ shownIn right 0 [] ++ ")") :: remainders)
  | group inner, opened, remainders => enclosed opened remainders (shownIn inner 0 [])
  | unary op operand, opened, remainders =>
    enclosed opened remainders ("(" ++ op.text ++ shownIn operand 0 [] ++ ")")
  | literal value, opened, remainders => enclosed opened remainders value.text
  | name text, opened, remainders => enclosed opened remainders text
  | missing, opened, remainders => enclosed opened remainders ""
  | program _, opened, remainders => enclosed opened remainders "<ProgramNode>"
  | assign _ _, opened, remainders => enclosed opened remainders "<Assignment>"
  | choose _, opened, remainders => enclosed opened remainders "<IfStatement>"
  | arm _ _, opened, remainders => enclosed opened remainders "<ConditionalBranch>"
  | loop _ _, opened, remainders => enclosed opened remainders "<WhileStatement>"
  | leave, opened, remainders => enclosed opened remainders "<BreakStatement>"

def shown (node : Node) : String := shownIn node 0 []

def outlineLine (depth : Nat) (text : String) : String :=
  String.ofList (List.replicate (2 * depth) ' ') ++ text

mutual

def lines (depth : Nat) : Node → List String
  | missing | literal _ | name _ => []
  | leave => [outlineLine depth "Break"]
  | program body => outlineLine depth "Program" :: linesOfAll (depth + 1) body
  | assign target value => [outlineLine depth ("Assign: " ++ target ++ " = " ++ value.shown)]
  | choose arms => linesOfArms depth "If " arms
  | arm guard body => lines depth guard ++ linesOfAll depth body
  | loop condition body =>
    outlineLine depth ("While " ++ condition.shown) :: linesOfAll (depth + 1) body
  | unary _ operand => lines depth operand
  | binary _ left right => lines depth left ++ lines depth right
  | group inner => lines depth inner

def linesOfAll (depth : Nat) : List Node → List String
  | [] => []
  | first :: rest => lines depth first ++ linesOfAll depth rest

def linesOfArms (depth : Nat) (word : String) : Arms Node Node → List String
  | .done => []
  | .otherwise body => outlineLine depth "Else" :: linesOfAll (depth + 1) body
  | .arm guard body rest =>
    outlineLine depth (word ++ guard.shown) :: linesOfAll (depth + 1) body
      ++ linesOfArms depth "Elif " rest

end

def outline (node : Node) : String := "\n".intercalate (node.lines 0)

mutual

def names : Node → List String
  | missing | leave | literal _ => []
  | name text => [text]
  | program body => namesOfAll body
  | assign _ value => names value
  | choose arms => namesOfArms arms
  | arm guard body => names guard ++ namesOfAll body
  | loop condition body => names condition ++ namesOfAll body
  | unary _ operand => names operand
  | binary _ left right => names left ++ names right
  | group inner => names inner

def namesOfAll : List Node → List String
  | [] => []
  | first :: rest => names first ++ namesOfAll rest

def namesOfArms : Arms Node Node → List String
  | .done => []
  | .otherwise body => namesOfAll body
  | .arm guard body rest => names guard ++ namesOfAll body ++ namesOfArms rest

end

end Node

def Expr.node : Expr → Node
  | literal value _ => .literal value
  | name text _ => .name text
  | unary op operand _ => .unary op operand.node
  | binary op left right => .binary op left.node right.node
  | group inner _ => .group inner.node

namespace Stmt

mutual

def node : Stmt → Node
  | assign target value _ => .assign target value.node
  | choose arms _ => .choose (nodeOfArms arms)
  | loop condition body _ => .loop condition.node (nodes body)
  | leave _ => .leave

def nodes : List Stmt → List Node
  | [] => []
  | first :: rest => first.node :: nodes rest

def nodeOfArms : Arms Expr Stmt → Arms Node Node
  | .done => .done
  | .otherwise body => .otherwise (nodes body)
  | .arm guard body rest => .arm guard.node (nodes body) (nodeOfArms rest)

end

end Stmt

end Offside
