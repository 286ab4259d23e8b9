import Offside.Proofs.CText.Grammar
import Offside.Proofs.CText.Numeral
import Offside.Proofs.Grammar.ReadingSound

/-!
The C text of an expression that was read is parsed by C to the same expression. The two languages
order their operators differently, and few parentheses are written; the operands that reading allows
are what makes these enough.
-/

namespace Offside

open C

def BinaryOp.cLevel : BinaryOp → Nat
  | or => 0
  | and => 1
  | equal | unequal => 2
  | less | greater | lessEqual | greaterEqual => 3
  | add | subtract => 4
  | multiply | divide => 5

def UnaryOp.cText : UnaryOp → String
  | not => "!"
  | negate => "-"

theorem BinaryOp.level?_cText (op : BinaryOp) : level? op.cText = some op.cLevel := by
  cases op <;> rfl

/-- C orders operators as the language does, but for the comparisons. -/
theorem BinaryOp.cLevel_lt {op op' : BinaryOp} (tighter : op.precedence < op'.precedence) :
    op.cLevel < op'.cLevel := by
  revert tighter
  cases op <;> cases op' <;> decide

theorem BinaryOp.cLevel_le {op op' : BinaryOp} (tighter : op.precedence ≤ op'.precedence)
    (apart : op.isComparison = true → op.precedence < op'.precedence) : op.cLevel ≤ op'.cLevel := by
  revert tighter apart
  cases op <;> cases op' <;> decide

namespace Expr

/-- The expression as C has it: without parentheses, with the operators of C and numbers for the truth
values. -/
def cTree : Expr → Tree
  | literal value _ => .leaf (.number value.cText)
  | name text _ => .leaf (.word text)
  | unary op operand _ => .unary op.cText operand.cTree
  | binary op left right => .binary op.cText left.cTree right.cTree
  | group inner _ => inner.cTree

def cChars : Expr → List Char
  | literal value _ => value.cText.toList
  | name text _ => text.toList
  | unary .not operand _ =>
    if operand.isBinary then '!' :: '(' :: operand.cChars ++ [')'] else '!' :: operand.cChars
  | unary .negate operand _ =>
    if operand.cChars.head? = some '-' then '-' :: '(' :: operand.cChars ++ [')']
    else '-' :: operand.cChars
  | binary op left right => left.cChars ++ ' ' :: op.cText.toList ++ ' ' :: right.cChars
  | group inner _ => '(' :: inner.cChars ++ [')']

def cTokens : Expr → List C.Token
  | literal value _ => [.number value.cText]
  | name text _ => [.word text]
  | unary .not operand _ =>
    if operand.isBinary then .mark "!" :: .mark "(" :: operand.cTokens ++ [.mark ")"]
    else .mark "!" :: operand.cTokens
  | unary .negate operand _ =>
    if operand.cChars.head? = some '-' then .mark "-" :: .mark "(" :: operand.cTokens ++ [.mark ")"]
    else .mark "-" :: operand.cTokens
  | binary op left right => left.cTokens ++ .mark op.cText :: right.cTokens
  | group inner _ => .mark "(" :: inner.cTokens ++ [.mark ")"]

def cLevel : Expr → Nat
  | literal _ _ | name _ _ | group _ _ => primaryLevel
  | unary _ _ _ => unaryLevel
  | binary op _ _ => op.cLevel

theorem toList_intercalate_cons (word : String) (later : List String) :
    (" ".intercalate (word :: later)).toList =
      word.toList ++ later.flatMap fun other => ' ' :: other.toList := by
  rw [String.toList_intercalate, List.map_cons]
  induction later generalizing word with
  | nil => simp [List.intercalate]
  | cons next rest ih =>
    have step := ih next
    rw [List.map_cons, List.intercalate_cons_cons, step, List.flatMap_cons]
    simp

theorem toList_cWords (expr : Expr) (later : List String) :
    (" ".intercalate (expr.cWords later)).toList =
      expr.cChars ++ later.flatMap fun other => ' ' :: other.toList := by
  have alone {expr : Expr} (words : ∀ later, (" ".intercalate (expr.cWords later)).toList =
      expr.cChars ++ later.flatMap fun other => ' ' :: other.toList) :
      (" ".intercalate (expr.cWords [])).toList = expr.cChars := by
    rw [words, List.flatMap_nil, List.append_nil]
  induction expr generalizing later with
  | literal value place => exact toList_intercalate_cons _ later
  | name text place => exact toList_intercalate_cons _ later
  | group inner place ih =>
    rw [cWords, toList_intercalate_cons, String.toList_append, String.toList_append, alone ih]
    rfl
  | unary op operand place ih =>
    rw [cWords, toList_intercalate_cons]
    cases op with
    | not =>
      simp only [cUnary, cChars]
      split
      · rw [String.toList_append, String.toList_append, alone ih]
        rfl
      · rw [String.toList_append, alone ih]
        rfl
    | negate =>
      simp only [cUnary, cChars, alone ih]
      split
      · rw [String.toList_append, String.toList_append, alone ih]
        rfl
      · rw [String.toList_append, alone ih]
        rfl
  | binary op left right ihLeft ihRight =>
    rw [cWords, ihLeft, List.flatMap_cons, String.toList_append, String.toList_append, alone ihRight]
    simp [cChars]

theorem toList_cText (expr : Expr) : expr.cText.toList = expr.cChars := by
  rw [cText, toList_cWords, List.flatMap_nil, List.append_nil]

def IsLexical : Expr → Prop
  | literal value _ => value.IsLexical
  | name text _ => isIdentifier text.toList = true
  | unary _ operand _ => operand.IsLexical
  | binary _ left right => left.IsLexical ∧ right.IsLexical
  | group inner _ => inner.IsLexical

/-- No text starts with a character that would make one mark with a sign before it, a minus apart. -/
theorem exists_cChars_cons {expr : Expr} (lexical : expr.IsLexical) :
    ∃ c rest, expr.cChars = c :: rest ∧ c ≠ '=' ∧ c ≠ '>' := by
  induction expr with
  | literal value place =>
    have numeral := Literal.isNumeral_cText lexical
    rw [cChars]
    cases text : value.cText.toList with
    | nil =>
      rw [text] at numeral
      cases numeral
    | cons c rest =>
      rw [text, isNumeral, Bool.and_eq_true] at numeral
      exact ⟨c, rest, rfl, ne_of_class numeral.1 rfl, ne_of_class numeral.1 rfl⟩
  | name text place =>
    rw [IsLexical] at lexical
    rw [cChars]
    cases text : text.toList with
    | nil =>
      rw [text] at lexical
      cases lexical
    | cons c rest =>
      rw [text, isIdentifier, Bool.and_eq_true] at lexical
      exact ⟨c, rest, rfl, ne_of_class lexical.1 rfl, ne_of_class lexical.1 rfl⟩
  | unary op operand place ih =>
    cases op with
    | not =>
      rw [cChars]
      split <;> exact ⟨'!', _, rfl, by decide, by decide⟩
    | negate =>
      rw [cChars]
      split <;> exact ⟨'-', _, rfl, by decide, by decide⟩
  | binary op left right ihLeft ihRight =>
    obtain ⟨c, rest, starts, apart⟩ := ihLeft lexical.1
    rw [cChars, starts]
    exact ⟨c, _, rfl, apart⟩
  | group inner place ih => exact ⟨'(', _, rfl, by decide, by decide⟩

end Expr

theorem BinaryOp.tokens?_cText (op : BinaryOp) (rest : List Char) :
    tokens? (op.cText.toList ++ ' ' :: rest) = (tokens? rest).map (.mark op.cText :: ·) := by
  rw [← tokens?_blank (show isBlank ' ' = true from rfl) rest]
  cases op <;> exact tokens?_mark rfl rfl rfl rfl rfl

namespace Expr

theorem tokens?_parens {inner : List Char} {tokens : List C.Token}
    (read : ∀ rest, isClosed rest = true →
      tokens? (inner ++ rest) = (tokens? rest).map (tokens ++ ·)) (rest : List Char) :
    tokens? ('(' :: (inner ++ ')' :: rest)) =
      (tokens? rest).map fun later => .mark "(" :: (tokens ++ .mark ")" :: later) := by
  rw [tokens?_openParen, read (')' :: rest) rfl, tokens?_closeParen, Option.map_map, Option.map_map]
  rfl

theorem tokens?_cChars {expr : Expr} (lexical : expr.IsLexical) {rest : List Char}
    (closed : isClosed rest = true) :
    tokens? (expr.cChars ++ rest) = (tokens? rest).map (expr.cTokens ++ ·) := by
  induction expr generalizing rest with
  | literal value place =>
    rw [cChars, tokens?_number (Literal.isNumeral_cText lexical) closed, String.ofList_toList]
    rfl
  | name text place =>
    rw [cChars, tokens?_word lexical closed, String.ofList_toList]
    rfl
  | group inner place ih =>
    simp only [cChars, cTokens, List.cons_append, List.append_assoc, List.nil_append]
    exact tokens?_parens (fun rest closed => ih lexical closed) rest
  | unary op operand place ih =>
    have inside : operand.IsLexical := lexical
    have parens := tokens?_parens (fun rest closed => ih inside closed) rest
    have plain := ih inside closed
    obtain ⟨c, part, starts, noAssign, noArrow⟩ := exists_cChars_cons inside
    cases op with
    | not =>
      simp only [cChars, cTokens]
      split
      · simp only [List.cons_append, List.append_assoc, List.nil_append]
        rw [tokens?_exclamation (by decide), parens, Option.map_map]
        rfl
      · rw [starts] at plain ⊢
        simp only [List.cons_append] at plain ⊢
        rw [tokens?_exclamation noAssign, plain, Option.map_map]
        rfl
    | negate =>
      simp only [cChars, cTokens]
      split
      next =>
        simp only [List.cons_append, List.append_assoc, List.nil_append]
        rw [tokens?_minus (by decide) (by decide) (by decide), parens, Option.map_map]
        rfl
      next single =>
        rw [starts] at plain single ⊢
        simp only [List.cons_append] at plain ⊢
        have noMinus : c ≠ '-' := by simpa using single
        rw [tokens?_minus noMinus noAssign noArrow, plain, Option.map_map]
        rfl
  | binary op left right ihLeft ihRight =>
    simp only [cChars, cTokens, List.cons_append, List.append_assoc]
    rw [ihLeft lexical.1 rfl, tokens?_blank rfl, op.tokens?_cText, ihRight lexical.2 closed,
      Option.map_map, Option.map_map]
    rfl

theorem tokens?_cText {expr : Expr} (lexical : expr.IsLexical) :
    tokens? expr.cText.toList = some expr.cTokens := by
  have whole : tokens? (expr.cChars ++ []) = (tokens? []).map (expr.cTokens ++ ·) :=
    tokens?_cChars lexical rfl
  rw [List.append_nil, ← toList_cText] at whole
  rw [whole, tokens?, Option.map_some, List.append_nil]

theorem le_cLevel {expr : Expr} {level : Nat} (small : level ≤ unaryLevel)
    (operators : ∀ op ∈ expr.operator?, level ≤ op.cLevel) : level ≤ expr.cLevel := by
  cases expr with
  | binary op left right => exact operators op rfl
  | unary op operand place => exact small
  | _ => exact Nat.le_succ_of_le small

/-- What C reads in the tokens of a text: each operand is a subexpression of the level that C asks
for. -/
theorem derives_cTokens {expr : Expr} (ordered : expr.Ordered) :
    Derives expr.cLevel expr.cTokens expr.cTree := by
  induction expr with
  | literal value place => exact .number value.cText
  | name text place => exact .word text
  | group inner place ih => exact .paren ((ih ordered).mono (Nat.zero_le _))
  | unary op operand place ih =>
    obtain ⟨under, operandOrdered⟩ := ordered
    have derives := ih operandOrdered
    have parens : Derives unaryLevel (.mark "(" :: operand.cTokens ++ [.mark ")"]) operand.cTree :=
      (Derives.paren (derives.mono (Nat.zero_le _))).looser
    have bare (single : operand.operator? = none) :
        Derives unaryLevel operand.cTokens operand.cTree :=
      derives.mono (le_cLevel (Nat.le_refl _) (by simp [single]))
    cases op with
    | not =>
      simp only [cTokens]
      split
      next => exact .unary rfl parens
      next single =>
        refine .unary rfl (bare ?_)
        cases operand with
        | binary op left right => exact absurd rfl single
        | _ => rfl
    | negate =>
      simp only [cTokens]
      split
      next => exact .unary rfl parens
      next => exact .unary rfl (bare under)
  | binary op left right ihLeft ihRight =>
    obtain ⟨⟨atLeast, apart, -⟩, tighter, leftOrdered, rightOrdered⟩ := ordered
    have small : op.cLevel < unaryLevel := level?_lt op.level?_cText
    refine .binary op.level?_cText ((ihLeft leftOrdered).mono ?_) ((ihRight rightOrdered).mono ?_)
    · refine le_cLevel (Nat.le_of_lt small) fun op' found => ?_
      exact BinaryOp.cLevel_le (atLeast op' found) fun comparison => apart comparison op' found
    · exact le_cLevel small fun op' found => BinaryOp.cLevel_lt (tighter op' found)

/-- C reads the text of an ordered expression as that expression, and as no other. -/
theorem isExpression_cText_iff {expr : Expr} (lexical : expr.IsLexical) (ordered : expr.Ordered)
    (tree : Tree) : IsExpression expr.cText tree ↔ tree = expr.cTree := by
  have tokens := tokens?_cText lexical
  have derives : Derives 0 expr.cTokens expr.cTree := (derives_cTokens ordered).mono (Nat.zero_le _)
  constructor
  · rintro ⟨others, cut, read⟩
    rw [tokens] at cut
    cases cut
    exact read.unique derives
  · rintro rfl
    exact ⟨expr.cTokens, tokens, derives⟩

end Expr

def Lexeme.isLexical : Lexeme → Bool
  | (.name, .text text) => isIdentifier text.toList
  | (.integer, .integer value) => 0 ≤ value
  | (.float, .float (.finite negative _ _)) => !negative
  | (.boolean, .integer value) => value = 0 || value = 1
  | (kind, _) => kind ∉ [.name, .integer, .float, .boolean]

def Token.isLexical (token : Token) : Bool := Lexeme.isLexical (token.kind, token.payload)

theorem Token.isLexical_lexeme {token : Token} (lexical : token.isLexical = true) :
    token.lexeme.isLexical = true := by
  obtain ⟨kind, payload, place⟩ := token
  cases kind with
  | name =>
    cases payload with
    | text written => exact lexical
    | _ => cases lexical
  | integer => exact lexical
  | float => exact lexical
  | boolean =>
    simp only [lexeme, Lexeme.isLexical]
    split <;> rfl
  | _ => rfl

theorem Expr.isLexical_of_lexemes {expr : Expr}
    (lexical : ∀ lexeme ∈ expr.lexemes, lexeme.isLexical = true) : expr.IsLexical := by
  induction expr with
  | literal value place =>
    have first := lexical _ List.mem_cons_self
    cases value with
    | integer value =>
      change 0 ≤ value
      exact of_decide_eq_true first
    | float value =>
      cases value with
      | finite negative mantissa exponent => exact (Bool.not_eq_true' _).mp first
      | _ => cases first
    | boolean value => trivial
  | name text place => exact lexical _ List.mem_cons_self
  | unary op operand place ih => exact ih fun lexeme found => lexical lexeme (by simp [lexemes, found])
  | binary op left right ihLeft ihRight =>
    exact ⟨ihLeft fun lexeme found => lexical lexeme (by simp [lexemes, found]),
      ihRight fun lexeme found => lexical lexeme (by simp [lexemes, found])⟩
  | group inner place ih => exact ih fun lexeme found => lexical lexeme (by simp [lexemes, found])

namespace Reading

def expression? : Reading → List Token → Option Expr
  | reading, [] =>
    match reading.feed ⟨.endOfInput, .none, .top ""⟩ with
    | .complete expr => some expr
    | _ => none
  | reading, token :: rest =>
    match reading.feed token with
    | .more next => next.expression? rest
    | .complete expr => some expr
    | _ => none

theorem expression?_sound {reading : Reading} {tokens : List Token} {expr : Expr}
    (valid : reading.Valid) (read : reading.expression? tokens = some expr) :
    expr.Canonical ∧ ∃ used rest, tokens = used ++ rest ∧
      expr.lexemes = reading.lexemes ++ used.map Token.lexeme := by
  induction tokens generalizing reading with
  | nil =>
    rw [expression?] at read
    split at read
    next fed =>
      cases read
      obtain ⟨canonical, same⟩ := feed_complete valid fed
      exact ⟨canonical, [], [], rfl, by rw [same, List.map_nil, List.append_nil]⟩
    next => cases read
  | cons token others ih =>
    rw [expression?] at read
    split at read
    next next fed =>
      obtain ⟨nextValid, added⟩ := feed_more valid fed
      obtain ⟨canonical, used, rest, rfl, same⟩ := ih nextValid read
      refine ⟨canonical, token :: used, rest, rfl, ?_⟩
      rw [same, added, List.map_cons, List.append_assoc, List.singleton_append]
    next fed =>
      cases read
      obtain ⟨canonical, same⟩ := feed_complete valid fed
      exact ⟨canonical, [], token :: others, rfl, by rw [same, List.map_nil, List.append_nil]⟩
    next => cases read

/-- Whatever expression is read from tokens with payloads such as sources give, its C text is one C
expression, and the only tree that C has for it is the expression itself, without its parentheses. -/
theorem cText_read_back {tokens : List Token} {expr : Expr}
    (lexical : ∀ token ∈ tokens, token.isLexical = true)
    (read : start.expression? tokens = some expr)
    (tree : Tree) : IsExpression expr.cText tree ↔ tree = expr.cTree := by
  obtain ⟨canonical, used, rest, rfl, same⟩ := expression?_sound valid_start read
  refine Expr.isExpression_cText_iff (Expr.isLexical_of_lexemes fun lexeme found => ?_) canonical.1 tree
  rw [same] at found
  obtain ⟨token, member, rfl⟩ := List.mem_map.mp found
  exact Token.isLexical_lexeme (lexical token (List.mem_append_left _ member))

/-- The tokens of `not a * not - - 5 + (x) == True`. -/
def nestedTokens : List Token :=
  let place := Location.top "sample"
  [⟨.notWord, .text "not", place⟩, ⟨.name, .text "a", place⟩, ⟨.star, .text "*", place⟩,
    ⟨.notWord, .text "not", place⟩, ⟨.minus, .text "-", place⟩, ⟨.minus, .text "-", place⟩,
    ⟨.integer, .integer 5, place⟩, ⟨.plus, .text "+", place⟩, ⟨.openParen, .text "(", place⟩,
    ⟨.name, .text "x", place⟩, ⟨.closeParen, .text ")", place⟩, ⟨.equal, .text "==", place⟩,
    ⟨.boolean, .integer 1, place⟩, ⟨.endOfLine, .none, place⟩]

theorem cText_read_back_nested :
    (∀ token ∈ nestedTokens, token.isLexical = true) ∧
      ∃ expr, start.expression? nestedTokens = some expr ∧
        expr.cText = "!(a * !(-(-5) + (x) == 1))" ∧ IsExpression expr.cText
        (.unary "!" (.binary "*" (.leaf (.word "a")) (.unary "!" (.binary "=="
          (.binary "+" (.unary "-" (.unary "-" (.leaf (.number "5")))) (.leaf (.word "x")))
          (.leaf (.number "1")))))) := by
  have lexical : ∀ token ∈ nestedTokens, token.isLexical = true := by decide +kernel
  refine ⟨lexical, _, rfl, ?_, (cText_read_back lexical rfl _).mpr ?_⟩
  · decide +kernel
  · decide +kernel

end Reading

end Offside
