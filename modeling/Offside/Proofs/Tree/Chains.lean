import Offside.CText
import Offside.Tree.Node

/-!
Chains of operators. The C text and the outline of an expression are written by walks down its left
operands, which put off what stands to the right of each operator. What they write is the text that plain
recursion gives, whatever stands in the right operands.
-/

namespace Offside

namespace Expr

def cRecursive : Expr → String
  | literal value _ => value.cText
  | name text _ => text
  | unary .not operand _ =>
    if operand.isBinary then "!(" ++ operand.cRecursive ++ ")" else "!" ++ operand.cRecursive
  | unary .negate operand _ =>
    if operand.cRecursive.toList.head? = some '-' then "-(" ++ operand.cRecursive ++ ")"
    else "-" ++ operand.cRecursive
  | binary op left right => left.cRecursive ++ " " ++ op.cText ++ " " ++ right.cRecursive
  | group inner _ => "(" ++ inner.cRecursive ++ ")"

def spine : Expr → List (BinaryOp × Expr)
  | binary op left right => (op, right) :: left.spine
  | _ => []

def innermost : Expr → Expr
  | binary _ left _ => left.innermost
  | expr => expr

def linkText (link : BinaryOp × Expr) : String := link.1.cText ++ " " ++ link.2.cText

/-- The links of a chain and its first operand, collected from the outermost on and joined in reverse. -/
def joined (expr : Expr) : String :=
  " ".intercalate (expr.spine.map linkText ++ [expr.innermost.cText]).reverse

/-- What was put off before a chain comes behind the links of the chain. -/
theorem cWords_eq (expr : Expr) (later : List String) :
    expr.cWords later = expr.innermost.cText :: ((expr.spine.map linkText).reverse ++ later) := by
  induction expr generalizing later with
  | binary op left right ihLeft ihRight =>
    rw [cWords, ihLeft, innermost, spine, List.map_cons, List.reverse_cons, List.append_assoc]
    rfl
  | literal value place => exact congrArg (· :: later) String.intercalate_singleton.symm
  | name text place => exact congrArg (· :: later) String.intercalate_singleton.symm
  | unary op operand place ih => exact congrArg (· :: later) String.intercalate_singleton.symm
  | group inner place ih => exact congrArg (· :: later) String.intercalate_singleton.symm

theorem cText_eq_joined (expr : Expr) : expr.cText = expr.joined := by
  rw [cText, cWords_eq, joined, List.reverse_append, List.append_nil]
  rfl

theorem cText_binary (op : BinaryOp) (left right : Expr) :
    (binary op left right).cText = left.cText ++ " " ++ op.cText ++ " " ++ right.cText := by
  have chain : left.cText =
      " ".intercalate (left.innermost.cText :: (left.spine.map linkText).reverse) := by
    rw [cText, cWords_eq, List.append_nil]
  rw [cText, cWords_eq, List.append_nil, innermost, spine, List.map_cons, List.reverse_cons,
    ← List.cons_append, String.intercalate_append_of_ne_nil (List.cons_ne_nil _ _) (List.cons_ne_nil _ _),
    ← chain, String.intercalate_singleton, linkText]
  simp only [String.append_assoc]

theorem cText_eq_cRecursive (expr : Expr) : expr.cText = expr.cRecursive := by
  induction expr with
  | literal value place => rw [cText, cWords, String.intercalate_singleton, cRecursive]
  | name text place => rw [cText, cWords, String.intercalate_singleton, cRecursive]
  | unary op operand place ih =>
    have text : (unary op operand place).cText = cUnary op operand.isBinary operand.cText :=
      String.intercalate_singleton
    rw [text, ih]
    cases op with
    | not => rfl
    | negate => rfl
  | binary op left right ihLeft ihRight => rw [cText_binary, ihLeft, ihRight, cRecursive]
  | group inner place ih =>
    have text : (group inner place).cText = "(" ++ inner.cText ++ ")" := String.intercalate_singleton
    rw [text, ih, cRecursive]

end Expr

namespace Node

def shownRecursive : Node → String
  | binary op left right =>
    "(" ++ left.shownRecursive ++ " " ++ op.text ++ " " ++ right.shownRecursive ++ ")"
  | unary op operand => "(" ++ op.text ++ operand.shownRecursive ++ ")"
  | group inner => inner.shownRecursive
  | literal value => value.text
  | name text => text
  | missing => ""
  | program _ => "<ProgramNode>"
  | assign _ _ => "<Assignment>"
  | choose _ => "<IfStatement>"
  | arm _ _ => "<ConditionalBranch>"
  | loop _ _ => "<WhileStatement>"
  | leave => "<BreakStatement>"

def spine : Node → List (BinaryOp × Node)
  | binary op left right => (op, right) :: left.spine
  | _ => []

def innermost : Node → Node
  | binary _ left _ => left.innermost
  | node => node

def linked (text : String) (link : BinaryOp × Node) : String :=
  "(" ++ text ++ " " ++ link.1.text ++ " " ++ link.2.shown ++ ")"

/-- The first operand of a chain, put into the links of the chain from the innermost on. -/
def folded (node : Node) : String := node.spine.reverse.foldl linked node.innermost.shown

theorem enclosed_zero (text : String) : enclosed 0 [] text = text := by
  simp [enclosed]

theorem enclosed_succ (opened : Nat) (remainder text : String) (remainders : List String) :
    enclosed (opened + 1) (remainder :: remainders) text =
      enclosed opened remainders ("(" ++ text ++ remainder) := by
  apply String.toList_inj.mp
  simp [enclosed, List.replicate_succ']

theorem shownIn_eq : (node : Node) → (opened : Nat) → (remainders : List String) →
    node.shownIn opened remainders = enclosed opened remainders node.shownRecursive
  | binary op left right, opened, remainders => by
    rw [shownIn, shownIn_eq left, shownIn_eq right, enclosed_zero, enclosed_succ, shownRecursive]
    simp only [String.append_assoc]
  | unary op operand, opened, remainders => by
    rw [shownIn, shownIn_eq operand, enclosed_zero, shownRecursive]
  | group inner, opened, remainders => by
    rw [shownIn, shownIn_eq inner, enclosed_zero, shownRecursive]
  | literal value, _, _ => rfl
  | name text, _, _ => rfl
  | missing, _, _ => rfl
  | program _, _, _ => rfl
  | assign _ _, _, _ => rfl
  | choose _, _, _ => rfl
  | arm _ _, _, _ => rfl
  | loop _ _, _, _ => rfl
  | leave, _, _ => rfl

theorem shown_eq_shownRecursive (node : Node) : node.shown = node.shownRecursive := by
  rw [shown, shownIn_eq, enclosed_zero]

theorem shown_binary (op : BinaryOp) (left right : Node) :
    (binary op left right).shown =
      "(" ++ left.shown ++ " " ++ op.text ++ " " ++ right.shown ++ ")" := by
  rw [shown_eq_shownRecursive, shownRecursive, ← shown_eq_shownRecursive, ← shown_eq_shownRecursive]

theorem shown_eq_folded : (node : Node) → node.shown = node.folded
  | binary op left right => by
    rw [shown_binary, shown_eq_folded left, folded, folded, spine, innermost, List.reverse_cons,
      List.foldl_append]
    rfl
  | unary _ _ | group _ | literal _ | name _ | missing | program _ | assign _ _ | choose _ | arm _ _
  | loop _ _ | leave => rfl

end Node

/-- Chains of operators are written as plain recursion writes them: in C, the text of a binary operator
is those of its operands with the operator between them, and in outlines there is also a pair of
parentheses around it. For any expression, the links of its chain joined in reverse are the text in C, and
its first operand put into one link after the other is the text in outlines. -/
theorem chains_written_recursively :
    (∀ expr : Expr, expr.cText = expr.cRecursive ∧ expr.joined = expr.cRecursive) ∧
    (∀ node : Node, node.shown = node.shownRecursive ∧ node.folded = node.shownRecursive) ∧
    (∀ (op : BinaryOp) (left right : Expr),
      (Expr.binary op left right).cText = left.cText ++ " " ++ op.cText ++ " " ++ right.cText) ∧
    ∀ (op : BinaryOp) (left right : Node),
      (Node.binary op left right).shown =
        "(" ++ left.shown ++ " " ++ op.text ++ " " ++ right.shown ++ ")" := by
  refine ⟨fun expr => ⟨expr.cText_eq_cRecursive, ?_⟩, fun node => ⟨node.shown_eq_shownRecursive, ?_⟩,
    Expr.cText_binary, Node.shown_binary⟩
  · rw [← expr.cText_eq_joined, expr.cText_eq_cRecursive]
  · rw [← node.shown_eq_folded, node.shown_eq_shownRecursive]

end Offside
