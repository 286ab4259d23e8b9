import Mathlib.Data.Rat.Lemmas
import Offside.Proofs.CText.Constant

/-!
The values of expressions. C evaluates the text of an expression to the number that the expression
stands for, although variables are doubles there and most constants are integers. Only a quotient of
two operands of an integer type is another number: its fraction is cut off.
-/

namespace Offside

namespace C

inductive Fault where
  | divisionByZero
  | overflow
  | malformed
deriving DecidableEq

def truth (holds : Bool) : Value := .integer (if holds then 1 else 0)

def whole (value : Int) : Except Fault Value :=
  if fits value then .ok (.integer value) else .error .overflow

def arithmetic (onIntegers : Int → Int → Int) (onDoubles : ℚ → ℚ → ℚ) :
    Value → Value → Except Fault Value
  | .integer left, .integer right => whole (onIntegers left right)
  | left, right => .ok (.double (onDoubles left.number right.number))

def operate (op : String) (left right : Value) : Except Fault Value :=
  match op with
  | "+" => arithmetic (· + ·) (· + ·) left right
  | "-" => arithmetic (· - ·) (· - ·) left right
  | "*" => arithmetic (· * ·) (· * ·) left right
  | "/" => if right.number = 0 then .error .divisionByZero else arithmetic Int.tdiv (· / ·) left right
  | "==" => .ok (truth (left.number = right.number))
  | "!=" => .ok (truth (left.number ≠ right.number))
  | "<" => .ok (truth (left.number < right.number))
  | ">" => .ok (truth (left.number > right.number))
  | "<=" => .ok (truth (left.number ≤ right.number))
  | ">=" => .ok (truth (left.number ≥ right.number))
  | "&&" | "||" => .ok (truth (right.number ≠ 0))
  | _ => .error .malformed

def Value.negate : Value → Except Fault Value
  | integer value => whole (-value)
  | double value => .ok (double (-value))

/-- The value of an expression. The right operand of `&&` and `||` is evaluated only where the left one
does not decide. -/
def Tree.eval (store : String → ℚ) : Tree → Except Fault Value
  | leaf (.word name) => .ok (.double (store name))
  | leaf (.number text) => (constant? text).elim (.error .malformed) .ok
  | leaf (.mark _) => .error .malformed
  | unary op operand => (operand.eval store).bind fun value =>
    if op = "!" then .ok (truth (value.number = 0))
    else if op = "-" then value.negate
    else .error .malformed
  | binary op left right => (left.eval store).bind fun first =>
    if op = "&&" ∧ first.number = 0 then .ok (truth false)
    else if op = "||" ∧ first.number ≠ 0 then .ok (truth true)
    else (right.eval store).bind (operate op first)

end C

/-- What a quotient is, if both operands are of an integer type or if not. -/
abbrev Division := Bool → ℚ → ℚ → Option ℚ

namespace Division

def exact : Division := fun _ left right => if right = 0 then none else some (left / right)

def towardZero (number : ℚ) : Int := number.num.tdiv number.den

def truncating : Division := fun integral left right =>
  if right = 0 then none
  else some (if integral then towardZero (left / right) else left / right)

def even : Division := fun integral left right =>
  if right = 0 ∨ integral = true ∧ (left / right).den ≠ 1 then none else some (left / right)

theorem towardZero_div (left : Int) {right : Int} (nonzero : right ≠ 0) :
    towardZero ((left : ℚ) / right) = left.tdiv right := by
  obtain ⟨factor, top, bottom⟩ := Rat.exists_eq_mul_div_num_and_eq_mul_div_den left nonzero
  unfold towardZero
  generalize (left : ℚ) / right = quotient at top bottom ⊢
  rw [top, bottom]
  rcases Int.lt_trichotomy factor 0 with below | rfl | above
  · rw [← Int.neg_tdiv_neg (factor * quotient.num), ← Int.neg_mul, ← Int.neg_mul,
      Int.mul_tdiv_mul_of_pos _ _ (by omega)]
  · rw [Int.zero_mul] at bottom
    exact absurd bottom nonzero
  · rw [Int.mul_tdiv_mul_of_pos _ _ above]

section Even

variable {integral : Bool} {left right number : ℚ}

theorem eq_of_even (given : even integral left right = some number) :
    right ≠ 0 ∧ left / right = number ∧ (integral = true → number.den = 1) := by
  unfold even at given
  split at given
  next => cases given
  next other =>
    rw [not_or, not_and_not_right] at other
    cases given
    exact ⟨other.1, rfl, other.2⟩

theorem exact_of_even (given : even integral left right = some number) :
    exact integral left right = some number := by
  obtain ⟨nonzero, same, -⟩ := eq_of_even given
  rw [exact, if_neg nonzero, same]

theorem truncating_of_even (given : even integral left right = some number) :
    truncating integral left right = some number := by
  obtain ⟨nonzero, same, divides⟩ := eq_of_even given
  rw [truncating, if_neg nonzero, same]
  cases integral with
  | false => rfl
  | true =>
    have single := divides rfl
    have kept : (towardZero number : ℚ) = number := by
      rw [towardZero, single, Nat.cast_one, Int.tdiv_one]
      exact Rat.coe_int_num_of_den_eq_one single
    rw [if_pos rfl, kept]

end Even

end Division

namespace BinaryOp

def isArithmetic : BinaryOp → Bool
  | add | subtract | multiply | divide => true
  | _ => false

def apply (divide : ℚ → ℚ → Option ℚ) (op : BinaryOp) (left right : ℚ) : Option ℚ :=
  match op with
  | add => some (left + right)
  | subtract => some (left - right)
  | multiply => some (left * right)
  | .divide => divide left right
  | equal => some (if left = right then 1 else 0)
  | unequal => some (if left ≠ right then 1 else 0)
  | less => some (if left < right then 1 else 0)
  | greater => some (if left > right then 1 else 0)
  | lessEqual => some (if left ≤ right then 1 else 0)
  | greaterEqual => some (if left ≥ right then 1 else 0)
  | and | or => some (if right ≠ 0 then 1 else 0)

end BinaryOp

namespace Expr

/-- Whether the expression is of an integer type in C: variables and decimals are not, nor is what is
computed from them without a comparison or a logical operator. -/
def isIntegral : Expr → Bool
  | literal value _ => value.isIntegral
  | name _ _ => false
  | unary .not _ _ => true
  | unary .negate operand _ => operand.isIntegral
  | binary op left right => !op.isArithmetic || left.isIntegral && right.isIntegral
  | group inner _ => inner.isIntegral

def value? (division : Division) (store : String → ℚ) : Expr → Option ℚ
  | literal value _ => value.value?
  | name text _ => some (store text)
  | unary .not operand _ =>
    (operand.value? division store).bind fun number => some (if number = 0 then 1 else 0)
  | unary .negate operand _ => (operand.value? division store).bind fun number => some (-number)
  | binary op left right => (left.value? division store).bind fun first =>
    if op = .and ∧ first = 0 then some 0
    else if op = .or ∧ first ≠ 0 then some 1
    else (right.value? division store).bind
      (op.apply (division (left.isIntegral && right.isIntegral)) first)
  | group inner _ => inner.value? division store

end Expr

namespace C

def Agrees (integral : Bool) (number : Option ℚ) : Except Fault Value → Prop
  | .ok value => number = some value.number ∧ value.isInteger = integral
  | .error .divisionByZero => number = none
  | .error .overflow => True
  | .error .malformed => False

theorem Agrees.bind {integral later : Bool} {number : Option ℚ} {outcome : Except Fault Value}
    {follow : ℚ → Option ℚ} {next : Value → Except Fault Value} (first : Agrees integral number outcome)
    (second : ∀ value : Value, value.isInteger = integral →
      Agrees later (follow value.number) (next value)) :
    Agrees later (number.bind follow) (outcome.bind next) := by
  cases outcome with
  | ok value =>
    rw [first.1]
    exact second value first.2
  | error fault =>
    cases fault with
    | divisionByZero =>
      have none : number = none := first
      rw [none]
      rfl
    | overflow => trivial
    | malformed => exact first.elim

theorem agrees_truth (holds : Prop) [Decidable holds] :
    Agrees true (some (if holds then 1 else 0)) (.ok (truth holds)) := by
  refine ⟨?_, rfl⟩
  by_cases given : holds <;> simp [truth, Value.number, given]

theorem agrees_whole {value : Int} {number : ℚ} (same : number = value) :
    Agrees true (some number) (whole value) := by
  unfold whole
  split
  · exact ⟨congrArg some same, rfl⟩
  · trivial

theorem agrees_arithmetic {onIntegers : Int → Int → Int} {onDoubles : ℚ → ℚ → ℚ} {number : ℚ}
    (left right : Value)
    (integers : ∀ a b, left = .integer a → right = .integer b → number = onIntegers a b)
    (doubles : (left.isInteger && right.isInteger) = false →
      number = onDoubles left.number right.number) :
    Agrees (left.isInteger && right.isInteger) (some number)
      (arithmetic onIntegers onDoubles left right) := by
  cases left with
  | integer a =>
    cases right with
    | integer b => exact agrees_whole (integers a b rfl rfl)
    | double b => exact ⟨congrArg some (doubles rfl), rfl⟩
  | double a => exact ⟨congrArg some (doubles rfl), rfl⟩

theorem agrees_negate (value : Value) :
    Agrees value.isInteger (some (-value.number)) value.negate := by
  cases value with
  | integer value => exact agrees_whole (Int.cast_neg value).symm
  | double value => exact ⟨rfl, rfl⟩

theorem agrees_operate (op : BinaryOp) (left right : Value) :
    Agrees (!op.isArithmetic || left.isInteger && right.isInteger)
      (op.apply (Division.truncating (left.isInteger && right.isInteger)) left.number right.number)
      (operate op.cText left right) := by
  have exactly {onIntegers : Int → Int → Int} {onDoubles : ℚ → ℚ → ℚ}
      (same : ∀ a b : Int, onDoubles a b = onIntegers a b) :
      Agrees (left.isInteger && right.isInteger) (some (onDoubles left.number right.number))
        (arithmetic onIntegers onDoubles left right) := by
    refine agrees_arithmetic left right ?_ fun _ => rfl
    rintro a b rfl rfl
    exact same a b
  cases op with
  | add => exact exactly fun a b => (Int.cast_add a b).symm
  | subtract => exact exactly fun a b => (Int.cast_sub a b).symm
  | multiply => exact exactly fun a b => (Int.cast_mul a b).symm
  | divide =>
    change Agrees (left.isInteger && right.isInteger) (Division.truncating _ _ _) (ite _ _ _)
    unfold Division.truncating
    split
    next => exact rfl
    next nonzero =>
      refine agrees_arithmetic left right ?_ fun mixed => by rw [mixed, if_neg Bool.false_ne_true]
      rintro a b rfl rfl
      have nonzero : b ≠ 0 := fun zero => nonzero (by rw [zero]; rfl)
      exact congrArg Int.cast (Division.towardZero_div a nonzero)
  | equal => exact agrees_truth _
  | unequal => exact agrees_truth _
  | less => exact agrees_truth _
  | greater => exact agrees_truth _
  | lessEqual => exact agrees_truth _
  | greaterEqual => exact agrees_truth _
  | and => exact agrees_truth _
  | or => exact agrees_truth _

end C

open C

theorem BinaryOp.cText_eq_iff (op op' : BinaryOp) : op.cText = op'.cText ↔ op = op' := by
  constructor
  · cases op <;> cases op' <;> decide
  · rintro rfl
    rfl

namespace Expr

/-- C computes the number that an expression stands for when quotients of integers are truncated, by an
expression of the type that was foreseen. -/
theorem agrees_eval (store : String → ℚ) {expr : Expr}
    (exact : ∀ value : Literal, value.lexeme ∈ expr.lexemes → value.IsExact) :
    Agrees expr.isIntegral (expr.value? .truncating store) (expr.cTree.eval store) := by
  induction expr with
  | literal value place =>
    obtain ⟨constant, found, same, integral⟩ := Literal.exists_constant (exact value List.mem_cons_self)
    rw [value?, same, cTree, Tree.eval, found]
    exact ⟨rfl, integral⟩
  | name text place => exact ⟨rfl, rfl⟩
  | unary op operand place ih =>
    have inside := ih fun value found => exact value (by simp [lexemes, found])
    cases op with
    | not => exact inside.bind fun value _ => agrees_truth _
    | negate =>
      refine inside.bind fun value integral => ?_
      rw [isIntegral, ← integral]
      exact agrees_negate value
  | binary op left right ihLeft ihRight =>
    have before := ihLeft fun value found => exact value (by simp [lexemes, found])
    have behind := ihRight fun value found => exact value (by simp [lexemes, found])
    refine before.bind fun first sameFirst => ?_
    have onAnd : op.cText = "&&" ↔ op = .and := op.cText_eq_iff .and
    have onOr : op.cText = "||" ↔ op = .or := op.cText_eq_iff .or
    simp only [onAnd, onOr]
    by_cases andZero : op = .and ∧ first.number = 0
    · obtain ⟨rfl, zero⟩ := andZero
      rw [if_pos ⟨rfl, zero⟩, if_pos ⟨rfl, zero⟩]
      exact agrees_truth False
    rw [if_neg andZero, if_neg andZero]
    by_cases orTrue : op = .or ∧ first.number ≠ 0
    · obtain ⟨rfl, nonzero⟩ := orTrue
      rw [if_pos ⟨rfl, nonzero⟩, if_pos ⟨rfl, nonzero⟩]
      exact agrees_truth True
    rw [if_neg orTrue, if_neg orTrue]
    refine behind.bind fun second sameSecond => ?_
    rw [isIntegral, ← sameFirst, ← sameSecond]
    exact agrees_operate op first second
  | group inner place ih => exact ih fun value found => exact value (by simp [lexemes, found])

theorem value?_mono {division other : Division} (store : String → ℚ)
    (finer : ∀ {integral left right number}, division integral left right = some number →
      other integral left right = some number) {expr : Expr} {number : ℚ}
    (given : expr.value? division store = some number) : expr.value? other store = some number := by
  induction expr generalizing number with
  | literal value place => exact given
  | name text place => exact given
  | unary op operand place ih =>
    cases op with
    | not =>
      obtain ⟨inner, same, result⟩ := Option.bind_eq_some_iff.mp given
      rw [value?, ih same]
      exact result
    | negate =>
      obtain ⟨inner, same, result⟩ := Option.bind_eq_some_iff.mp given
      rw [value?, ih same]
      exact result
  | binary op left right ihLeft ihRight =>
    obtain ⟨first, same, result⟩ := Option.bind_eq_some_iff.mp given
    rw [value?, ihLeft same, Option.bind_some]
    split at result
    next decided => rw [if_pos decided, result]
    next noAnd =>
      rw [if_neg noAnd]
      split at result
      next decided => rw [if_pos decided, result]
      next noOr =>
        obtain ⟨second, sameRight, applied⟩ := Option.bind_eq_some_iff.mp result
        rw [if_neg noOr, ihRight sameRight, Option.bind_some]
        cases op with
        | divide => exact finer applied
        | _ => exact applied
  | group inner place ih => exact ih given

end Expr

namespace Stmt

mutual

def expressions : Stmt → List Expr
  | assign _ value _ => [value]
  | choose arms _ => expressionsOfArms arms
  | loop condition body _ => condition :: expressionsOfAll body
  | leave _ => []

def expressionsOfAll : List Stmt → List Expr
  | [] => []
  | first :: rest => first.expressions ++ expressionsOfAll rest

def expressionsOfArms : Arms Expr Stmt → List Expr
  | .done => []
  | .otherwise body => expressionsOfAll body
  | .arm guard body rest => guard :: expressionsOfAll body ++ expressionsOfArms rest

end

mutual

theorem canonical_of_mem {expr : Expr} : (stmt : Stmt) → stmt.Canonical → expr ∈ stmt.expressions →
    expr.Canonical ∧ expr.lexemes ⊆ stmt.lexemes
  | assign target value place, canonical, found => by
    cases List.mem_singleton.mp found
    exact ⟨canonical, fun lexeme inside => by simp [lexemes, inside]⟩
  | choose arms place, canonical, found => canonical_of_mem_arms .ifWord arms canonical.2 found
  | loop condition body place, canonical, found => by
    rcases List.mem_cons.mp found with rfl | later
    · exact ⟨canonical.1, fun lexeme inside => by simp [lexemes, inside]⟩
    · obtain ⟨own, kept⟩ := canonical_of_mem_all body canonical.2 later
      exact ⟨own, fun lexeme inside => by simp [lexemes, blockLexemes, kept inside]⟩

theorem canonical_of_mem_all {expr : Expr} : (stmts : List Stmt) → CanonicalAll stmts →
    expr ∈ expressionsOfAll stmts → expr.Canonical ∧ expr.lexemes ⊆ lexemesOfAll stmts
  | first :: rest, canonical, found => by
    rcases List.mem_append.mp found with here | later
    · obtain ⟨own, kept⟩ := canonical_of_mem first canonical.1 here
      exact ⟨own, fun lexeme inside => by simp [lexemesOfAll, kept inside]⟩
    · obtain ⟨own, kept⟩ := canonical_of_mem_all rest canonical.2 later
      exact ⟨own, fun lexeme inside => by simp [lexemesOfAll, kept inside]⟩

theorem canonical_of_mem_arms {expr : Expr} (word : Kind) : (arms : Arms Expr Stmt) →
    CanonicalArms arms → expr ∈ expressionsOfArms arms →
    expr.Canonical ∧ expr.lexemes ⊆ lexemesOfArms word arms
  | .otherwise body, canonical, found => by
    obtain ⟨own, kept⟩ := canonical_of_mem_all body canonical found
    exact ⟨own, fun lexeme inside => by simp [lexemesOfArms, blockLexemes, kept inside]⟩
  | .arm guard body rest, canonical, found => by
    rcases List.mem_append.mp found with front | later
    · rcases List.mem_cons.mp front with rfl | within
      · exact ⟨canonical.1, fun lexeme inside => by simp [lexemesOfArms, inside]⟩
      · obtain ⟨own, kept⟩ := canonical_of_mem_all body canonical.2.1 within
        exact ⟨own, fun lexeme inside => by simp [lexemesOfArms, blockLexemes, kept inside]⟩
    · obtain ⟨own, kept⟩ := canonical_of_mem_arms .elifWord rest canonical.2.2 later
      exact ⟨own, fun lexeme inside => by simp [lexemesOfArms, kept inside]⟩

end

end Stmt

/-- C reads the text of every expression of a program that was compiled without a fault in one way. What
it computes, unless an integer gets too large, is the number that the expression stands for when
quotients of integers lose their fractions, and nothing where a divisor is zero. Where no such quotient
has a fraction, this is the number that the expression stands for with exact quotients. -/
theorem values_survive_compilation {options : Options} {file : Option String} {source : String}
    {compilation : Compilation} (result : (compile options file source).result = .ok compilation)
    (succeeded : compilation.succeeded = true) :
    ∀ expr ∈ Stmt.expressionsOfAll compilation.statements, ∃ tree,
      (∀ other, IsExpression expr.cText other ↔ other = tree) ∧
      ∀ store : String → ℚ,
        Agrees expr.isIntegral (expr.value? .truncating store) (tree.eval store) ∧
        ∀ value, tree.eval store = .ok value → (expr.value? .even store).isSome = true →
          expr.value? .exact store = some value.number := by
  intro expr member
  obtain ⟨canonical, scanned, spelled⟩ := lexemes_of_succeeded result succeeded
  obtain ⟨own, kept⟩ := Stmt.canonical_of_mem_all _ canonical member
  have sourced : ∀ lexeme ∈ expr.lexemes, lexeme.IsSourced := by
    intro lexeme found
    obtain ⟨token, listed, rfl⟩ := spelled lexeme (kept found)
    exact Scanner.isSourced_run scanned token listed
  have exact : ∀ value : Literal, value.lexeme ∈ expr.lexemes → value.IsExact :=
    fun value found => isExact_of_succeeded result succeeded (kept found)
  obtain ⟨lexical, ordered⟩ := Expr.isWritable_of_lexemes own sourced
  refine ⟨expr.cTree, Expr.isExpression_cText_iff lexical ordered, fun store => ?_⟩
  have agrees := Expr.agrees_eval store exact
  refine ⟨agrees, fun value computed some => ?_⟩
  rw [computed] at agrees
  obtain ⟨number, given⟩ := Option.isSome_iff_exists.mp some
  have truncated := Expr.value?_mono store Division.truncating_of_even given
  rw [← agrees.1, truncated]
  exact Expr.value?_mono store Division.exact_of_even given

theorem exists_compilation (source : String) (expr : Expr)
    (compiled : (compile {} none source).result.toOption.map (fun compilation =>
      (compilation.succeeded, (Stmt.expressionsOfAll compilation.statements).contains expr)) =
        some (true, true)) :
    ∃ compilation, (compile {} none source).result = .ok compilation ∧ compilation.succeeded = true ∧
      expr ∈ Stmt.expressionsOfAll compilation.statements := by
  cases result : (compile {} none source).result with
  | error problem =>
    rw [result] at compiled
    cases compiled
  | ok compilation =>
    rw [result] at compiled
    simp only [Except.toOption, Option.map_some, Option.some.injEq, Prod.mk.injEq,
      List.contains_iff_mem] at compiled
    exact ⟨compilation, rfl, compiled⟩

/-- Variables, decimals and integers in one expression. The quotient of integers has a fraction, and the
divisor that is zero is not evaluated where the comparison holds. -/
def mixedSource : String := "x = 2.5\ny = x / 2 - 7 / 2 * 0.25 + (x < 1 or 1 / 0)\n"

def mixedExpr : Expr :=
  let place := Location.mk "<input>" 2
  .binary .add
    (.binary .subtract
      (.binary .divide (.name "x" (place 5)) (.literal (.integer 2) (place 9)))
      (.binary .multiply
        (.binary .divide (.literal (.integer 7) (place 13)) (.literal (.integer 2) (place 17)))
        (.literal (.float (.finite false (2 ^ 52) (-54))) (place 21))))
    (.group (.binary .or
      (.binary .less (.name "x" (place 29)) (.literal (.integer 1) (place 33)))
      (.binary .divide (.literal (.integer 1) (place 38)) (.literal (.integer 0) (place 42)))) (place 28))

theorem values_survive_compilation_mixed :
    ∃ compilation, (compile {} none mixedSource).result = .ok compilation ∧
      compilation.succeeded = true ∧ mixedExpr ∈ Stmt.expressionsOfAll compilation.statements ∧
      mixedExpr.value? .truncating (fun _ => 1 / 3) = some (5 / 12) ∧
      mixedExpr.cTree.eval (fun _ => 1 / 3) = .ok (.double (5 / 12)) ∧ ∃ tree,
        (∀ other, IsExpression mixedExpr.cText other ↔ other = tree) ∧
        ∀ store : String → ℚ,
          Agrees mixedExpr.isIntegral (mixedExpr.value? .truncating store) (tree.eval store) ∧
          ∀ value, tree.eval store = .ok value → (mixedExpr.value? .even store).isSome = true →
            mixedExpr.value? .exact store = some value.number := by
  obtain ⟨compilation, result, succeeded, member⟩ :=
    exists_compilation mixedSource mixedExpr (by decide +kernel)
  exact ⟨compilation, result, succeeded, member, by decide +kernel, by decide +kernel,
    values_survive_compilation result succeeded mixedExpr member⟩

def halfSource : String := "x = 1 / 2\n"

def halfExpr : Expr :=
  .binary .divide (.literal (.integer 1) ⟨"<input>", 1, 5⟩) (.literal (.integer 2) ⟨"<input>", 1, 9⟩)

/-- A half that is written as a quotient of integers is zero in C, with no fault of any kind. -/
theorem half_is_truncated :
    ∃ compilation, (compile {} none halfSource).result = .ok compilation ∧
      compilation.succeeded = true ∧ halfExpr ∈ Stmt.expressionsOfAll compilation.statements ∧
      ∃ tree, IsExpression halfExpr.cText tree ∧ tree.eval (fun _ => 0) = .ok (.integer 0) ∧
        halfExpr.value? .exact (fun _ => 0) = some (1 / 2) ∧
        halfExpr.value? .exact (fun _ => 0) ≠ some (Value.integer 0).number := by
  obtain ⟨compilation, result, succeeded, member⟩ := exists_compilation halfSource halfExpr (by decide +kernel)
  refine ⟨compilation, result, succeeded, member, halfExpr.cTree, ?_, ?_, ?_, ?_⟩
  · have lexical : halfExpr.IsLexical := show (0 : Int) ≤ 1 ∧ (0 : Int) ≤ 2 by decide
    exact (Expr.isExpression_cText_iff lexical (by decide) _).mpr rfl
  · decide +kernel
  · decide +kernel
  · decide +kernel

end Offside
