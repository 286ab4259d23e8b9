import Offside.Proofs.CText.Token

/-!
The grammar of C expressions with the operators that programs are written with, one level for each
precedence. It is unambiguous: a machine that reads the tokens from left to right comes to the tree of
every derivation.
-/

namespace Offside.C

inductive Tree where
  | leaf (token : Token)
  | unary (op : String) (operand : Tree)
  | binary (op : String) (left right : Tree)
deriving DecidableEq, Repr

def level? : String → Option Nat
  | "||" => some 0
  | "&&" => some 1
  | "==" | "!=" => some 2
  | "<" | "<=" | ">" | ">=" => some 3
  | "+" | "-" => some 4
  | "*" | "/" => some 5
  | _ => none

def unaryLevel : Nat := 6

def primaryLevel : Nat := 7

def isUnary (op : String) : Bool := op = "!" || op = "-"

/-- The tokens of an expression at a level. All binary operators group from the left. -/
inductive Derives : Nat → List Token → Tree → Prop where
  | word (text : String) : Derives primaryLevel [.word text] (.leaf (.word text))
  | number (text : String) : Derives primaryLevel [.number text] (.leaf (.number text))
  | paren {tokens : List Token} {tree : Tree} (inner : Derives 0 tokens tree) :
    Derives primaryLevel (.mark "(" :: tokens ++ [.mark ")"]) tree
  | unary {op : String} {tokens : List Token} {tree : Tree} (sign : isUnary op = true)
    (operand : Derives unaryLevel tokens tree) :
    Derives unaryLevel (.mark op :: tokens) (.unary op tree)
  | binary {op : String} {level : Nat} {before behind : List Token} {left right : Tree}
    (operator : level? op = some level) (first : Derives level before left)
    (second : Derives (level + 1) behind right) :
    Derives level (before ++ .mark op :: behind) (.binary op left right)
  | looser {level : Nat} {tokens : List Token} {tree : Tree} (tighter : Derives (level + 1) tokens tree) :
    Derives level tokens tree

theorem Derives.mono {level tight : Nat} {tokens : List Token} {tree : Tree}
    (derives : Derives tight tokens tree) (below : level ≤ tight) : Derives level tokens tree := by
  induction below with
  | refl => exact derives
  | step _ ih => exact ih derives.looser

def IsExpression (text : String) (tree : Tree) : Prop :=
  ∃ tokens, tokens? text.toList = some tokens ∧ Derives 0 tokens tree

theorem level?_lt {op : String} {level : Nat} (operator : level? op = some level) :
    level < unaryLevel := by
  unfold level? at operator
  unfold unaryLevel
  split at operator <;> cases operator <;> decide

inductive Opening where
  | paren
  | unary (op : String)
  | binary (op : String) (level : Nat) (left : Tree)

inductive Reading where
  | awaiting (openings : List Opening)
  | holding (openings : List Opening) (operand : Tree)

namespace Reading

/-- Closes every opening whose operand ends before an operator of this level, or before none. -/
def settle (next : Option Nat) : List Opening → Tree → List Opening × Tree
  | .unary op :: outer, operand => settle next outer (.unary op operand)
  | .binary op level left :: outer, operand =>
    if next.any (level < ·) then (.binary op level left :: outer, operand)
    else settle next outer (.binary op left operand)
  | openings, operand => (openings, operand)

def step : Reading → Token → Option Reading
  | awaiting openings, .mark text =>
    if text = "(" then some (awaiting (.paren :: openings))
    else if isUnary text then some (awaiting (.unary text :: openings))
    else none
  | awaiting openings, token => some (holding openings (.leaf token))
  | holding openings operand, .mark text =>
    match level? text, settle (level? text) openings operand with
    | some level, (rest, left) => some (awaiting (.binary text level left :: rest))
    | none, (.paren :: outer, inner) => if text = ")" then some (holding outer inner) else none
    | none, _ => none
  | holding _ _, _ => none

def steps : Reading → List Token → Option Reading
  | reading, [] => some reading
  | reading, token :: rest => (reading.step token).bind (·.steps rest)

theorem steps_append (reading : Reading) (front back : List Token) :
    reading.steps (front ++ back) = (reading.steps front).bind (·.steps back) := by
  induction front generalizing reading with
  | nil => rfl
  | cons token rest ih =>
    simp only [List.cons_append, steps]
    cases reading.step token with
    | none => rfl
    | some next => exact ih next

def Fits (level : Nat) : List Opening → Prop
  | [] | .paren :: _ => True
  | .unary _ :: _ => unaryLevel ≤ level
  | .binary _ outer _ :: _ => outer < level

theorem settle_of_fits {level : Nat} {openings : List Opening} (fits : Fits level openings)
    (binary : level < unaryLevel) (operand : Tree) :
    settle (some level) openings operand = (openings, operand) := by
  match openings with
  | [] | .paren :: _ => rfl
  | .unary _ :: _ => exact absurd fits (Nat.not_le.mpr binary)
  | .binary op outer left :: rest => rw [settle, if_pos (by simpa [Fits] using fits)]

/-- The machine reads tokens as a tree: from any openings that such an operand fits in, it comes to
hold what closes to that tree before every operator that may follow. -/
def Reads (level : Nat) (tokens : List Token) (tree : Tree) : Prop :=
  ∀ openings, Fits level openings → ∃ opened operand,
    (awaiting openings).steps tokens = some (holding opened operand) ∧
      ∀ next, (∀ other ∈ next, other ≤ level) →
        settle next opened operand = settle next openings tree

theorem reads_leaf {token : Token} (leaf : ∀ text, token ≠ .mark text) (level : Nat) :
    Reads level [token] (.leaf token) := by
  intro openings _
  refine ⟨openings, .leaf token, ?_, fun _ _ => rfl⟩
  cases token with
  | word text => rfl
  | number text => rfl
  | mark text => exact absurd rfl (leaf text)

theorem reads_paren {tokens : List Token} {tree : Tree} (inner : Reads 0 tokens tree) (level : Nat) :
    Reads level (.mark "(" :: tokens ++ [.mark ")"]) tree := by
  intro openings _
  obtain ⟨opened, operand, held, closes⟩ := inner (.paren :: openings) trivial
  refine ⟨openings, tree, ?_, fun _ _ => rfl⟩
  have settled : settle none opened operand = (.paren :: openings, tree) := closes none nofun
  change ((awaiting (.paren :: openings)).steps (tokens ++ [.mark ")"])) = _
  rw [steps_append, held]
  simp only [Option.bind_some, steps, step, show level? ")" = none from rfl, settled, ↓reduceIte]

theorem reads_unary {op : String} {tokens : List Token} {tree : Tree} (sign : isUnary op = true)
    (operand : Reads unaryLevel tokens tree) :
    Reads unaryLevel (.mark op :: tokens) (.unary op tree) := by
  intro openings _
  obtain ⟨opened, held, reached, closes⟩ := operand (.unary op :: openings) (Nat.le_refl _)
  have noParen : op ≠ "(" := by
    rintro rfl
    cases sign
  refine ⟨opened, held, ?_, closes⟩
  simp only [steps, step, noParen, sign, ↓reduceIte, Option.bind_some, reached]

theorem reads_binary {op : String} {level : Nat} {before behind : List Token} {left right : Tree}
    (operator : level? op = some level) (first : Reads level before left)
    (second : Reads (level + 1) behind right) :
    Reads level (before ++ .mark op :: behind) (.binary op left right) := by
  intro openings fits
  obtain ⟨opened, held, reached, closes⟩ := first openings fits
  have settled : settle (some level) opened held = (openings, left) := by
    rw [closes (some level) (by simp), settle_of_fits fits (level?_lt operator)]
  obtain ⟨opened', held', reached', closes'⟩ :=
    second (.binary op level left :: openings) (Nat.lt_succ_self level)
  refine ⟨opened', held', ?_, ?_⟩
  · rw [steps_append, reached]
    simp only [Option.bind_some, steps, step, operator, settled, reached']
  · intro next below
    have looser : ¬ (next.any (level < ·)) = true := by
      cases next with
      | none => simp
      | some other => simpa using below other rfl
    rw [closes' next fun other found => Nat.le_succ_of_le (below other found), settle, if_neg looser]

theorem reads_looser {level : Nat} {tokens : List Token} {tree : Tree}
    (tighter : Reads (level + 1) tokens tree) : Reads level tokens tree := by
  intro openings fits
  have still : Fits (level + 1) openings := by
    match openings with
    | [] | .paren :: _ => trivial
    | .unary _ :: _ => exact Nat.le_succ_of_le fits
    | .binary _ _ _ :: _ => exact Nat.lt_succ_of_lt fits
  obtain ⟨opened, held, reached, closes⟩ := tighter openings still
  exact ⟨opened, held, reached, fun next below =>
    closes next fun other found => Nat.le_succ_of_le (below other found)⟩

theorem reads_of_derives {level : Nat} {tokens : List Token} {tree : Tree}
    (derives : Derives level tokens tree) : Reads level tokens tree := by
  induction derives with
  | word text => exact reads_leaf (by simp) primaryLevel
  | number text => exact reads_leaf (by simp) primaryLevel
  | paren _ ih => exact reads_paren ih primaryLevel
  | unary sign _ ih => exact reads_unary sign ih
  | binary operator _ _ ihFirst ihSecond => exact reads_binary operator ihFirst ihSecond
  | looser _ ih => exact reads_looser ih

end Reading

/-- Tokens have one tree at most. -/
theorem Derives.unique {tokens : List Token} {tree other : Tree} (first : Derives 0 tokens tree)
    (second : Derives 0 tokens other) : tree = other := by
  obtain ⟨opened, operand, reached, closes⟩ := Reading.reads_of_derives first [] trivial
  obtain ⟨opened', operand', reached', closes'⟩ := Reading.reads_of_derives second [] trivial
  rw [reached] at reached'
  cases reached'
  have same := (closes none nofun).symm.trans (closes' none nofun)
  exact congrArg Prod.snd same

end Offside.C
