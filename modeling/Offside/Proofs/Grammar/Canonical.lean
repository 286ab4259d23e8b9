import Offside.Proofs.Grammar.Lexeme

/-!
Canonical trees: the trees whose parentheses are exactly those that their operators need, and whose
nesting is within the limit. Only these have a written form without parentheses of its own.
-/

namespace Offside

def comparisonPrecedence : Nat := BinaryOp.equal.precedence

namespace BinaryOp

theorem isComparison_iff (op : BinaryOp) :
    op.isComparison = true ↔ op.precedence = comparisonPrecedence := by
  cases op <;> decide

theorem not_precedence_le_iff (op : BinaryOp) :
    UnaryOp.not.precedence ≤ op.precedence ↔ comparisonPrecedence ≤ op.precedence := by
  cases op <;> decide

theorem precedence_lt_negate (op : BinaryOp) : op.precedence < UnaryOp.negate.precedence := by
  cases op <;> decide

end BinaryOp

namespace Expr

def operator? : Expr → Option BinaryOp
  | binary op _ _ => some op
  | _ => none

/-- Whether a `not` without parentheses stands on the right edge of an expression. -/
def endsInNot : Expr → Bool
  | unary .not _ _ => true
  | unary .negate operand _ => operand.endsInNot
  | binary _ _ right => right.endsInNot
  | literal _ _ | name _ _ | group _ _ => false

def nesting : Expr → Nat
  | literal _ _ | name _ _ => 0
  | unary _ operand _ => operand.nesting + 1
  | binary _ left right => max left.nesting right.nesting
  | group inner _ => inner.nesting + 1

/-- What a binary operator asks of its left operand: it binds at least as tightly, tighter than a
comparison, and an operator that binds tighter than `not` has none on the edge before it. -/
def FitsLeft (op : BinaryOp) (left : Expr) : Prop :=
  (∀ op' ∈ left.operator?, op.precedence ≤ op'.precedence) ∧
  (op.isComparison = true → ∀ op' ∈ left.operator?, op.precedence < op'.precedence) ∧
  (comparisonPrecedence ≤ op.precedence → left.endsInNot = false)

/-- What a prefix operator asks of its operand: the minus sign takes no bare binary operand, and
`not` none that binds looser than a comparison. -/
def FitsUnder : UnaryOp → Expr → Prop
  | .negate, operand => operand.operator? = none
  | .not, operand => ∀ op ∈ operand.operator?, comparisonPrecedence ≤ op.precedence

def Ordered : Expr → Prop
  | literal _ _ | name _ _ => True
  | unary op operand _ => FitsUnder op operand ∧ operand.Ordered
  | binary op left right =>
    FitsLeft op left ∧ (∀ op' ∈ right.operator?, op.precedence < op'.precedence) ∧
      left.Ordered ∧ right.Ordered
  | group inner _ => inner.Ordered

def Canonical (expr : Expr) : Prop := expr.Ordered ∧ expr.nesting ≤ deepestNesting

instance (op : BinaryOp) (left : Expr) : Decidable (FitsLeft op left) :=
  inferInstanceAs (Decidable (_ ∧ _ ∧ _))

instance : (op : UnaryOp) → (operand : Expr) → Decidable (FitsUnder op operand)
  | .negate, operand => inferInstanceAs (Decidable (operand.operator? = none))
  | .not, operand =>
    inferInstanceAs (Decidable (∀ op ∈ operand.operator?, comparisonPrecedence ≤ op.precedence))

def decideOrdered : (expr : Expr) → Decidable expr.Ordered
  | literal _ _ | name _ _ => isTrue trivial
  | unary op operand _ =>
    have := decideOrdered operand
    inferInstanceAs (Decidable (FitsUnder op operand ∧ operand.Ordered))
  | binary op left right =>
    have := decideOrdered left
    have := decideOrdered right
    inferInstanceAs (Decidable (FitsLeft op left ∧
      (∀ op' ∈ right.operator?, op.precedence < op'.precedence) ∧ left.Ordered ∧ right.Ordered))
  | group inner _ => decideOrdered inner

instance (expr : Expr) : Decidable expr.Ordered := decideOrdered expr

instance (expr : Expr) : Decidable expr.Canonical := inferInstanceAs (Decidable (_ ∧ _))

/-- Whether every operator on the right edge of an expression has its whole operand when `next`
follows: the operators there bind at least as tightly, and no comparison meets another one. -/
def EndsBefore (next : Option BinaryOp) : Expr → Prop
  | unary op operand _ =>
    (next.any fun op' => op.precedence ≤ op'.precedence) = false ∧ operand.EndsBefore next
  | binary op _ right =>
    (next.any fun op' => op.precedence < op'.precedence) = false ∧
      (op.isComparison && Reading.isComparison next) = false ∧ right.EndsBefore next
  | literal _ _ | name _ _ | group _ _ => True

theorem endsBefore_none (expr : Expr) : expr.EndsBefore none := by
  induction expr with
  | literal value place => trivial
  | name text place => trivial
  | unary op operand place ih => exact ⟨rfl, ih⟩
  | binary op left right ihLeft ihRight => exact ⟨rfl, by simp [Reading.isComparison], ihRight⟩
  | group inner place ih => trivial

/-- A left operand that fits its operator has ended when the operator comes. The induction walks down
the right edge, where the operators only bind tighter and tighter, up to a `not`. -/
theorem endsBefore_of_fitsLeft (op : BinaryOp) (left : Expr) (ordered : left.Ordered)
    (fits : FitsLeft op left) : left.EndsBefore (some op) := by
  induction left with
  | literal value place => trivial
  | name text place => trivial
  | group inner place ih => trivial
  | unary sign operand place ih =>
    obtain ⟨under, operandOrdered⟩ := ordered
    obtain ⟨-, -, noNot⟩ := fits
    cases sign with
    | negate =>
      refine ⟨?_, ih operandOrdered ⟨?_, ?_, noNot⟩⟩
      · have := op.precedence_lt_negate
        simp only [Option.any_some, decide_eq_false_iff_not]
        omega
      · simp only [FitsUnder] at under
        simp [under]
      · simp only [FitsUnder] at under
        simp [under]
    | not =>
      have logical : ¬ comparisonPrecedence ≤ op.precedence := by
        intro tight
        exact absurd (noNot tight) (by simp [endsInNot])
      refine ⟨?_, ih operandOrdered ⟨?_, ?_, fun tight => absurd tight logical⟩⟩
      · simpa only [Option.any_some, decide_eq_false_iff_not, op.not_precedence_le_iff] using logical
      · intro op' found
        have := under op' found
        omega
      · intro comparison
        rw [op.isComparison_iff] at comparison
        omega
  | binary op' first second ihFirst ihSecond =>
    obtain ⟨-, tighter, -, secondOrdered⟩ := ordered
    obtain ⟨atLeast, strict, noNot⟩ := fits
    have bound := atLeast op' rfl
    refine ⟨?_, ?_, ihSecond secondOrdered ⟨?_, ?_, noNot⟩⟩
    · simp only [Option.any_some, decide_eq_false_iff_not]
      omega
    · rw [Bool.eq_false_iff]
      intro both
      simp only [Bool.and_eq_true, Reading.isComparison, Option.any_some] at both
      have apart := strict both.2 op' rfl
      rw [op.isComparison_iff, op'.isComparison_iff] at both
      omega
    · intro op'' found
      have := tighter op'' found
      omega
    · intro _ op'' found
      have := tighter op'' found
      omega

end Expr

def Opening.admits : Opening → BinaryOp → Bool
  | paren _, _ => true
  | unary op _, op' => op.precedence ≤ op'.precedence
  | binary op _, op' => op.precedence < op'.precedence

theorem Opening.admits_mono {opening : Opening} {op op' : BinaryOp}
    (tighter : op.precedence ≤ op'.precedence) (admitted : opening.admits op = true) :
    opening.admits op' = true := by
  cases opening with
  | paren place => rfl
  | unary sign place => simp only [admits, decide_eq_true_eq] at admitted ⊢; omega
  | binary outer left => simp only [admits, decide_eq_true_eq] at admitted ⊢; omega

namespace Reading

@[simp]
theorem depth_paren (place : Location) (outer : List Opening) :
    depth (.paren place :: outer) = depth outer + 1 := by
  rw [depth, List.countP_cons]
  rfl

@[simp]
theorem depth_unary (op : UnaryOp) (place : Location) (outer : List Opening) :
    depth (.unary op place :: outer) = depth outer + 1 := by
  rw [depth, List.countP_cons]
  rfl

@[simp]
theorem depth_binary (op : BinaryOp) (left : Expr) (outer : List Opening) :
    depth (.binary op left :: outer) = depth outer := by
  rw [depth, List.countP_cons]
  rfl

def Fits (openings : List Opening) (expr : Expr) : Prop :=
  ∀ op ∈ expr.operator?, ∀ opening ∈ openings.head?, opening.admits op = true

end Reading

def Arms.isGuarded {Guard Body : Type} : Arms Guard Body → Bool
  | arm _ _ _ => true
  | done | otherwise _ => false

namespace Stmt

mutual

def Canonical : Stmt → Prop
  | assign _ value _ => value.Canonical
  | choose arms _ => arms.isGuarded = true ∧ CanonicalArms arms
  | loop condition body _ => condition.Canonical ∧ CanonicalAll body
  | leave _ => True

def CanonicalAll : List Stmt → Prop
  | [] => True
  | first :: rest => first.Canonical ∧ CanonicalAll rest

def CanonicalArms : Arms Expr Stmt → Prop
  | .done => True
  | .otherwise body => CanonicalAll body
  | .arm guard body rest => guard.Canonical ∧ CanonicalAll body ∧ CanonicalArms rest

end

end Stmt

end Offside
