import Offside.Grammar.Reading
import Offside.Tree.Stmt

/-!
The tokens that a tree stands for. A lexeme is what the grammar sees of a token: its kind, and the
payload of a name or a literal. Trees are flattened to lexemes in source order: parentheses for each
group; a colon, a line end and an indented body for each block; a line end after each assignment and
each `break`.
-/

namespace Offside

abbrev Lexeme := Kind × Payload

def Kind.bare (kind : Kind) : Lexeme := (kind, .none)

/-- A name is taken as it is shown, and a truth value as one or zero. On payloads of the documented
type both are the payload itself. -/
def Token.lexeme (token : Token) : Lexeme :=
  match token.kind with
  | .name => (.name, .text token.payload.shown)
  | .integer => (.integer, token.payload)
  | .float => (.float, token.payload)
  | .boolean => (.boolean, .integer (if token.payload.holds then 1 else 0))
  | kind => kind.bare

def Lexeme.IsTyped : Lexeme → Prop
  | (.name, payload) => ∃ text, payload = .text text
  | (.integer, payload) => ∃ value, payload = .integer value
  | (.float, payload) => ∃ value, payload = .float value
  | (.boolean, payload) => payload = .integer 0 ∨ payload = .integer 1
  | _ => True

namespace Token

@[simp]
theorem lexeme_kind (token : Token) : token.lexeme.1 = token.kind := by
  unfold lexeme
  split <;> simp_all [Kind.bare]

theorem lexeme_eq_bare {token : Token} {kind : Kind} (same : token.kind = kind)
    (valueless : kind ∉ [Kind.name, .integer, .float, .boolean]) : token.lexeme = kind.bare := by
  subst same
  simp only [List.mem_cons, List.not_mem_nil, or_false, not_or] at valueless
  obtain ⟨notName, notInteger, notFloat, notBoolean⟩ := valueless
  unfold lexeme
  split <;> simp_all

theorem lexeme_of_name {token : Token} (same : token.kind = .name) :
    token.lexeme = (.name, .text token.payload.shown) := by
  simp only [lexeme, same]

theorem lexeme_payload {token : Token} (typed : Lexeme.IsTyped (token.kind, token.payload))
    (valued : token.kind ∈ [Kind.name, .integer, .float, .boolean]) :
    token.lexeme = (token.kind, token.payload) := by
  simp only [List.mem_cons, List.not_mem_nil, or_false] at valued
  rcases valued with same | same | same | same
  · rw [same] at typed
    obtain ⟨text, written⟩ := typed
    simp only [lexeme, same, written, Payload.shown]
  · simp only [lexeme, same]
  · simp only [lexeme, same]
  · rw [same] at typed
    rcases typed with written | written <;> simp [lexeme, same, written, Payload.holds]

end Token

namespace BinaryOp

def kind : BinaryOp → Kind
  | add => .plus
  | subtract => .minus
  | multiply => .star
  | divide => .slash
  | equal => .equal
  | unequal => .unequal
  | less => .less
  | greater => .greater
  | lessEqual => .lessEqual
  | greaterEqual => .greaterEqual
  | and => .andWord
  | or => .orWord

@[simp]
theorem binaryOp?_kind (op : BinaryOp) : op.kind.binaryOp? = some op := by
  cases op <;> rfl

theorem kind_of_binaryOp? {kind : Kind} {op : BinaryOp} (found : kind.binaryOp? = some op) :
    op.kind = kind := by
  cases kind <;> simp_all [Kind.binaryOp?] <;> subst found <;> rfl

end BinaryOp

namespace UnaryOp

def kind : UnaryOp → Kind
  | negate => .minus
  | not => .notWord

@[simp]
theorem unaryOp?_kind (op : UnaryOp) : op.kind.unaryOp? = some op := by
  cases op <;> rfl

theorem kind_of_unaryOp? {kind : Kind} {op : UnaryOp} (found : kind.unaryOp? = some op) :
    op.kind = kind := by
  cases kind <;> simp_all [Kind.unaryOp?] <;> subst found <;> rfl

end UnaryOp

def Literal.lexeme : Literal → Lexeme
  | integer value => (.integer, .integer value)
  | float value => (.float, .float value)
  | boolean value => (.boolean, .integer (if value then 1 else 0))

namespace Token

theorem binaryOp?_of_lexeme {token : Token} {op : BinaryOp} (written : token.lexeme = op.kind.bare) :
    token.kind.binaryOp? = some op := by
  rw [← token.lexeme_kind, written]
  exact op.binaryOp?_kind

theorem unaryOp?_of_lexeme {token : Token} {op : UnaryOp} (written : token.lexeme = op.kind.bare) :
    token.kind.unaryOp? = some op := by
  rw [← token.lexeme_kind, written]
  exact op.unaryOp?_kind

theorem kind_of_lexeme {token : Token} {kind : Kind} {payload : Payload}
    (written : token.lexeme = (kind, payload)) : token.kind = kind := by
  rw [← token.lexeme_kind, written]

theorem literal?_of_lexeme {token : Token} {value : Literal} (written : token.lexeme = value.lexeme) :
    token.literal? = some value ∧ token.kind.unaryOp? = none := by
  cases value with
  | integer number =>
    have same : token.kind = .integer := kind_of_lexeme written
    simp only [lexeme, same, Literal.lexeme, Prod.mk.injEq, true_and] at written
    simp only [literal?, same, written, Kind.unaryOp?, and_self]
  | float number =>
    have same : token.kind = .float := kind_of_lexeme written
    simp only [lexeme, same, Literal.lexeme, Prod.mk.injEq, true_and] at written
    simp only [literal?, same, written, Kind.unaryOp?, and_self]
  | boolean truth =>
    have same : token.kind = .boolean := kind_of_lexeme written
    simp only [lexeme, same, Literal.lexeme, Prod.mk.injEq, true_and, Payload.integer.injEq] at written
    have holds : token.payload.holds = truth := by
      cases truth <;> cases shown : token.payload.holds <;> simp_all
    simp only [literal?, same, holds, Kind.unaryOp?, and_self]

theorem lexeme_of_literal? {token : Token} {value : Literal} (found : token.literal? = some value) :
    token.lexeme = value.lexeme := by
  unfold literal? at found
  split at found
  next kind carried => cases found; simp only [lexeme, kind, carried, Literal.lexeme]
  next kind carried => cases found; simp only [lexeme, kind, carried, Literal.lexeme]
  next kind => cases found; simp only [lexeme, kind, Literal.lexeme]
  next => cases found

theorem lexeme_of_unaryOp? {token : Token} {op : UnaryOp} (found : token.kind.unaryOp? = some op) :
    token.lexeme = op.kind.bare := by
  have same := UnaryOp.kind_of_unaryOp? found
  exact lexeme_eq_bare same.symm (by cases op <;> decide)

theorem lexeme_of_binaryOp? {token : Token} {op : BinaryOp} (found : token.kind.binaryOp? = some op) :
    token.lexeme = op.kind.bare := by
  have same := BinaryOp.kind_of_binaryOp? found
  exact lexeme_eq_bare same.symm (by cases op <;> decide)

end Token

namespace Expr

def lexemes : Expr → List Lexeme
  | literal value _ => [value.lexeme]
  | name text _ => [(.name, .text text)]
  | unary op operand _ => op.kind.bare :: operand.lexemes
  | binary op left right => left.lexemes ++ op.kind.bare :: right.lexemes
  | group inner _ => Kind.openParen.bare :: inner.lexemes ++ [Kind.closeParen.bare]

theorem lexemes_not_structural (expr : Expr) :
    ∀ lexeme ∈ expr.lexemes, lexeme.1.isStructural = false := by
  induction expr with
  | literal value place => cases value <;> simp [lexemes, Literal.lexeme, Kind.isStructural]
  | name text place => simp [lexemes, Kind.isStructural]
  | unary op operand place ih =>
    intro lexeme found
    rcases List.mem_cons.mp found with rfl | inside
    · cases op <;> rfl
    · exact ih lexeme inside
  | binary op left right ihLeft ihRight =>
    intro lexeme found
    rcases List.mem_append.mp found with inLeft | after
    · exact ihLeft lexeme inLeft
    · rcases List.mem_cons.mp after with rfl | inRight
      · cases op <;> rfl
      · exact ihRight lexeme inRight
  | group inner place ih =>
    intro lexeme found
    rcases List.mem_append.mp found with front | last
    · rcases List.mem_cons.mp front with rfl | inside
      · rfl
      · exact ih lexeme inside
    · rw [List.mem_singleton.mp last]
      rfl

theorem lexemes_ne_end (expr : Expr) : ∀ lexeme ∈ expr.lexemes, lexeme.1 ≠ .endOfInput := by
  intro lexeme found ends
  have inner := expr.lexemes_not_structural lexeme found
  rw [ends] at inner
  cases inner

end Expr

namespace Stmt

def blockLexemes (body : List Lexeme) : List Lexeme :=
  Kind.colon.bare :: Kind.endOfLine.bare :: Kind.indent.bare :: body ++ [Kind.dedent.bare]

mutual

def lexemes : Stmt → List Lexeme
  | assign target value _ =>
    (.name, .text target) :: Kind.assign.bare :: value.lexemes ++ [Kind.endOfLine.bare]
  | choose arms _ => lexemesOfArms .ifWord arms
  | loop condition body _ =>
    Kind.whileWord.bare :: condition.lexemes ++ blockLexemes (lexemesOfAll body)
  | leave _ => [Kind.breakWord.bare, Kind.endOfLine.bare]

def lexemesOfAll : List Stmt → List Lexeme
  | [] => []
  | first :: rest => first.lexemes ++ lexemesOfAll rest

/-- The lexemes of a chain whose first guard comes after `word`. -/
def lexemesOfArms (word : Kind) : Arms Expr Stmt → List Lexeme
  | .done => []
  | .otherwise body => Kind.elseWord.bare :: blockLexemes (lexemesOfAll body)
  | .arm guard body rest =>
    word.bare :: guard.lexemes ++ blockLexemes (lexemesOfAll body) ++ lexemesOfArms .elifWord rest

end

@[simp]
theorem lexemesOfAll_append (front back : List Stmt) :
    lexemesOfAll (front ++ back) = lexemesOfAll front ++ lexemesOfAll back := by
  induction front with
  | nil => rfl
  | cons first rest ih => simp only [List.cons_append, lexemesOfAll, ih, List.append_assoc]

theorem blockLexemes_ne_end {body : List Lexeme} (inside : ∀ lexeme ∈ body, lexeme.1 ≠ .endOfInput) :
    ∀ lexeme ∈ blockLexemes body, lexeme.1 ≠ .endOfInput := by
  intro lexeme found
  simp only [blockLexemes, List.cons_append, List.mem_cons, List.mem_append, List.not_mem_nil,
    or_false] at found
  rcases found with rfl | rfl | rfl | within | rfl
  · decide
  · decide
  · decide
  · exact inside lexeme within
  · decide

mutual

theorem lexemes_ne_end : (stmt : Stmt) → ∀ lexeme ∈ stmt.lexemes, lexeme.1 ≠ .endOfInput
  | assign target value place => by
    intro lexeme found
    simp only [lexemes, List.cons_append, List.mem_cons, List.mem_append, List.not_mem_nil,
      or_false] at found
    rcases found with rfl | rfl | within | rfl
    · simp
    · decide
    · exact value.lexemes_ne_end lexeme within
    · decide
  | choose arms place => lexemesOfArms_ne_end (by decide) arms
  | loop condition body place => by
    intro lexeme found
    simp only [lexemes, List.cons_append, List.mem_cons, List.mem_append] at found
    rcases found with rfl | within | block
    · decide
    · exact condition.lexemes_ne_end lexeme within
    · exact blockLexemes_ne_end (lexemesOfAll_ne_end body) lexeme block
  | leave place => by
    intro lexeme found
    simp only [lexemes, List.mem_cons, List.not_mem_nil, or_false] at found
    rcases found with rfl | rfl <;> decide

theorem lexemesOfAll_ne_end : (body : List Stmt) → ∀ lexeme ∈ lexemesOfAll body, lexeme.1 ≠ .endOfInput
  | [] => by
    intro lexeme found
    cases found
  | first :: rest => by
    intro lexeme found
    rcases List.mem_append.mp found with within | later
    · exact lexemes_ne_end first lexeme within
    · exact lexemesOfAll_ne_end rest lexeme later

theorem lexemesOfArms_ne_end {word : Kind} (inside : word ≠ .endOfInput) : (arms : Arms Expr Stmt) →
    ∀ lexeme ∈ lexemesOfArms word arms, lexeme.1 ≠ .endOfInput
  | .done => by
    intro lexeme found
    cases found
  | .otherwise body => by
    intro lexeme found
    rcases List.mem_cons.mp found with rfl | block
    · decide
    · exact blockLexemes_ne_end (lexemesOfAll_ne_end body) lexeme block
  | .arm guard body rest => by
    intro lexeme found
    simp only [lexemesOfArms, List.cons_append, List.mem_cons, List.mem_append] at found
    rcases found with rfl | (within | block) | later
    · exact inside
    · exact guard.lexemes_ne_end lexeme within
    · exact blockLexemes_ne_end (lexemesOfAll_ne_end body) lexeme block
    · exact lexemesOfArms_ne_end (by decide) rest lexeme later

end

end Stmt

end Offside
