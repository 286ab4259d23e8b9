import Offside.Proofs.Grammar.Accounting
import Offside.Proofs.Grammar.MachineComplete
import Offside.Proofs.Scanner.Spelling

/-!
Expressions as outlines show them, with a pair of parentheses for each operator and none for a group.
Such a text is the written form of a tree of its own, in which every operator stands in a group. That
tree is canonical whatever the shape of the expression is, so a source reads it back.
-/

namespace Offside

open C

/-- A literal that an outline shows as a source writes it: no decimal, and an integer without a sign
and within the range. -/
def Literal.isReadable : Literal → Bool
  | integer value => 0 ≤ value && value ≤ Segment.greatestInteger
  | float _ => false
  | boolean _ => true

namespace Expr

def isReadable : Expr → Bool
  | literal value _ => value.isReadable
  | name text _ => isIdentifier text.toList && !keywords.contains text
  | unary _ operand _ => operand.isReadable
  | binary _ left right => left.isReadable && right.isReadable
  | group inner _ => inner.isReadable

/-- The nesting of the text of an expression: one level for the parentheses of an operator, and
another one for a prefix operator itself. -/
def shownNesting : Expr → Nat
  | literal _ _ | name _ _ => 0
  | unary _ operand _ => operand.shownNesting + 2
  | binary _ left right => max left.shownNesting right.shownNesting + 1
  | group inner _ => inner.shownNesting

def ungrouped : Expr → Expr
  | unary op operand place => unary op operand.ungrouped place
  | binary op left right => binary op left.ungrouped right.ungrouped
  | group inner _ => inner.ungrouped
  | expr => expr

/-- The expression whose groups are the parentheses of the text. -/
def bracketed : Expr → Expr
  | unary op operand place => group (unary op operand.bracketed place) place
  | binary op left right => group (binary op left.bracketed right.bracketed) left.place
  | group inner _ => inner.bracketed
  | expr => expr

def shownChars : Expr → List Char
  | literal value _ => value.text.toList
  | name text _ => text.toList
  | unary op operand _ => '(' :: (op.text.toList ++ operand.shownChars) ++ [')']
  | binary op left right =>
    '(' :: (left.shownChars ++ (' ' :: op.text.toList ++ ' ' :: right.shownChars)) ++ [')']
  | group inner _ => inner.shownChars

theorem toList_shownIn (expr : Expr) (opened : Nat) (remainders : List String) :
    (expr.node.shownIn opened remainders).toList =
      List.replicate opened '(' ++ expr.shownChars ++ (String.join remainders).toList := by
  induction expr generalizing opened remainders with
  | literal value place =>
    simp only [node, Node.shownIn, Node.enclosed, String.toList_append, String.toList_ofList, shownChars]
  | name text place =>
    simp only [node, Node.shownIn, Node.enclosed, String.toList_append, String.toList_ofList, shownChars]
  | unary op operand place ih =>
    simp only [node, Node.shownIn, Node.enclosed, String.toList_append, String.toList_ofList, shownChars,
      ih]
    simp
  | binary op left right ihLeft ihRight =>
    have shownRight : (right.node.shownIn 0 []).toList = right.shownChars := by simpa using ihRight 0 []
    simp only [node, Node.shownIn, ihLeft, shownChars, List.replicate_succ']
    simp [shownRight]
  | group inner place ih =>
    simp only [node, Node.shownIn, Node.enclosed, String.toList_append, String.toList_ofList, shownChars,
      ih]
    simp

theorem toList_shown (expr : Expr) : expr.node.shown.toList = expr.shownChars := by
  rw [Node.shown, toList_shownIn]
  simp

/-! The expression with a group for each pair of parentheses. -/

theorem ungrouped_bracketed (expr : Expr) : expr.bracketed.ungrouped = expr.ungrouped := by
  induction expr with
  | literal value place => rfl
  | name text place => rfl
  | unary op operand place ih => simp only [bracketed, ungrouped, ih]
  | binary op left right ihLeft ihRight => simp only [bracketed, ungrouped, ihLeft, ihRight]
  | group inner place ih => exact ih

theorem nesting_bracketed (expr : Expr) : expr.bracketed.nesting = expr.shownNesting := by
  induction expr with
  | literal value place => rfl
  | name text place => rfl
  | unary op operand place ih => simp only [bracketed, nesting, shownNesting, ih]
  | binary op left right ihLeft ihRight =>
    simp only [bracketed, nesting, shownNesting, ihLeft, ihRight]
  | group inner place ih => exact ih

/-- Operands are atoms or stand in groups, so that no operator is on their edges. -/
theorem closed_bracketed (expr : Expr) :
    expr.bracketed.operator? = none ∧ expr.bracketed.endsInNot = false := by
  induction expr with
  | group inner place ih => exact ih
  | _ => exact ⟨rfl, rfl⟩

theorem ordered_bracketed (expr : Expr) : expr.bracketed.Ordered := by
  induction expr with
  | literal value place => trivial
  | name text place => trivial
  | unary op operand place ih =>
    have bare := (closed_bracketed operand).1
    refine ⟨?_, ih⟩
    cases op with
    | negate => exact bare
    | not => simp [FitsUnder, bare]
  | binary op left right ihLeft ihRight =>
    obtain ⟨bareLeft, noNot⟩ := closed_bracketed left
    have bareRight := (closed_bracketed right).1
    refine ⟨⟨?_, ?_, fun _ => noNot⟩, ?_, ihLeft, ihRight⟩
    · simp [bareLeft]
    · simp [bareLeft]
    · simp [bareRight]
  | group inner place ih => exact ih

/-! The text of an expression. -/

theorem ungrouped_relocate (move : Location → Location) (expr : Expr) :
    (expr.relocate move).ungrouped = expr.ungrouped.relocate move := by
  induction expr with
  | literal value place => rfl
  | name text place => rfl
  | unary op operand place ih => simp only [relocate, ungrouped, ih]
  | binary op left right ihLeft ihRight => simp only [relocate, ungrouped, ihLeft, ihRight]
  | group inner place ih => exact ih

theorem shownChars_ungrouped (expr : Expr) : expr.ungrouped.shownChars = expr.shownChars := by
  induction expr with
  | literal value place => rfl
  | name text place => rfl
  | unary op operand place ih => simp only [ungrouped, shownChars, ih]
  | binary op left right ihLeft ihRight => simp only [ungrouped, shownChars, ihLeft, ihRight]
  | group inner place ih => exact ih

theorem shownChars_relocate (move : Location → Location) (expr : Expr) :
    (expr.relocate move).shownChars = expr.shownChars := by
  induction expr with
  | literal value place => rfl
  | name text place => rfl
  | unary op operand place ih => simp only [relocate, shownChars, ih]
  | binary op left right ihLeft ihRight => simp only [relocate, shownChars, ihLeft, ihRight]
  | group inner place ih => exact ih

theorem agrees_of_bracketed {value expr : Expr} (same : value.agrees expr.bracketed = true) :
    value.ungrouped.agrees expr.ungrouped = true := by
  rw [agrees_iff] at same ⊢
  rw [← ungrouped_relocate, same, ungrouped_relocate, ungrouped_bracketed]

theorem shown_of_agrees {expr other : Expr} (same : other.ungrouped.agrees expr.ungrouped = true) :
    other.node.shown = expr.node.shown := by
  rw [agrees_iff] at same
  have chars := congrArg shownChars same
  rw [shownChars_relocate, shownChars_relocate, shownChars_ungrouped,
    shownChars_ungrouped] at chars
  rw [← String.toList_inj, other.toList_shown, expr.toList_shown, chars]

end Expr

theorem Literal.exists_digits {value : Int} (readable : (integer value).isReadable = true) :
    ∃ count : Nat, value = count ∧ count ≤ Segment.greatestInteger ∧
      (integer value).text.toList = Nat.toDigits 10 count := by
  simp only [isReadable, Bool.and_eq_true, decide_eq_true_eq] at readable
  refine ⟨value.toNat, by omega, by omega, ?_⟩
  obtain ⟨count, rfl⟩ := Int.eq_ofNat_of_zero_le readable.1
  change (toString count).toList = _
  rw [Nat.toString_eq_ofList_toDigits, String.toList_ofList]
  rfl

theorem Literal.spells_text {value : Literal} (readable : value.isReadable = true) :
    Segment.Spells value.text.toList [value.lexeme] := by
  cases value with
  | integer value =>
    obtain ⟨count, rfl, within, written⟩ := exists_digits readable
    rw [written]
    exact Segment.spells_integer within
  | float value => cases readable
  | boolean value =>
    cases value with
    | false => exact Segment.spells_word "False" rfl
    | true => exact Segment.spells_word "True" rfl

namespace Expr

/-- The text of an expression is cut into the lexemes of the expression with a group for each pair of
parentheses. -/
theorem spells_shownChars {expr : Expr} (readable : expr.isReadable = true) :
    Segment.Spells expr.shownChars expr.bracketed.lexemes := by
  induction expr with
  | literal value place => exact Literal.spells_text readable
  | name text place =>
    simp only [isReadable, Bool.and_eq_true, Bool.not_eq_true', List.contains_eq_mem,
      decide_eq_false_iff_not] at readable
    exact Segment.spells_name text readable.1 readable.2
  | unary op operand place ih => exact ((ih readable).unary op).parens
  | binary op left right ihLeft ihRight =>
    rw [isReadable, Bool.and_eq_true] at readable
    exact ((ihLeft readable.1).binary (ihRight readable.2) op).parens
  | group inner place ih => exact ih readable

theorem flat_of_class {p : Char → Bool} {text : List Char} (inside : ∀ c ∈ text, p c = true)
    (noFeed : p '\n' = false) (noReturn : p '\r' = false) : ∀ c ∈ text, c ≠ '\n' ∧ c ≠ '\r' :=
  fun c found => ⟨ne_of_class (inside c found) noFeed, ne_of_class (inside c found) noReturn⟩

theorem flat_of_all {text : List Char} (inside : text.all (fun c => c ≠ '\n' && c ≠ '\r') = true) :
    ∀ c ∈ text, c ≠ '\n' ∧ c ≠ '\r' :=
  flat_of_class (List.all_eq_true.mp inside) rfl rfl

theorem flat_shownChars {expr : Expr} (readable : expr.isReadable = true) :
    ∀ c ∈ expr.shownChars, c ≠ '\n' ∧ c ≠ '\r' := by
  have parens {text : List Char} (inside : ∀ c ∈ text, c ≠ '\n' ∧ c ≠ '\r') :
      ∀ c ∈ '(' :: text ++ [')'], c ≠ '\n' ∧ c ≠ '\r' := by
    rw [List.cons_append, List.forall_mem_cons, List.forall_mem_append, List.forall_mem_singleton]
    exact ⟨by decide, inside, by decide⟩
  induction expr with
  | literal value place =>
    cases value with
    | integer value =>
      obtain ⟨count, -, -, written⟩ := Literal.exists_digits readable
      rw [shownChars, written]
      exact flat_of_class (fun c => isDigit_toDigits) rfl rfl
    | float value => cases readable
    | boolean value => cases value <;> exact flat_of_all rfl
  | name text place =>
    rw [isReadable, Bool.and_eq_true] at readable
    exact flat_of_class (isWordPart_of_isIdentifier readable.1) rfl rfl
  | unary op operand place ih =>
    have sign : ∀ c ∈ op.text.toList, c ≠ '\n' ∧ c ≠ '\r' := by
      cases op <;> exact flat_of_all rfl
    exact parens (List.forall_mem_append.mpr ⟨sign, ih readable⟩)
  | binary op left right ihLeft ihRight =>
    rw [isReadable, Bool.and_eq_true] at readable
    have sign : ∀ c ∈ op.text.toList, c ≠ '\n' ∧ c ≠ '\r' := by
      cases op <;> exact flat_of_all rfl
    apply parens
    rw [List.cons_append, List.forall_mem_append, List.forall_mem_cons, List.forall_mem_append,
      List.forall_mem_cons]
    exact ⟨ihLeft readable.1, by decide, sign, by decide, ihRight readable.2⟩
  | group inner place ih => exact ih readable

def assignmentChars (expr : Expr) : List Char := 'r' :: ' ' :: '=' :: ' ' :: expr.shownChars

theorem lexemes?_assignmentChars {expr : Expr} (readable : expr.isReadable = true) :
    Segment.lexemes? expr.assignmentChars =
      some ((.name, .text "r") :: Kind.assign.bare :: expr.bracketed.lexemes) := by
  have parted : expr.assignmentChars = "r".toList ++ ' ' :: '=' :: ' ' :: expr.shownChars := rfl
  have target := Segment.spells_name "r" rfl (by decide) (' ' :: '=' :: ' ' :: expr.shownChars) rfl
  have sign : Segment.lexemes? ('=' :: ' ' :: expr.shownChars) =
      (Segment.lexemes? (' ' :: expr.shownChars)).map (Kind.assign.bare :: ·) :=
    Segment.lexemes?_of_next rfl rfl
  rw [parted, target, Segment.lexemes?_blank rfl, sign, Segment.lexemes?_blank rfl,
    (spells_shownChars readable).lexemes?]
  rfl

end Expr

/-- Pulled tokens that run to statements are parsed to them, and if nothing happened while they were
read then variables are used and assigned, and that is all. -/
theorem Parsed.ofPulls_of_runs (file : String) {pulls : List Pull} {front : List Token} {last : Token}
    {statements : List Stmt} (tokens : pulls.map Pull.token = front ++ [last])
    (unread : ∀ pull ∈ pulls, pull.journal = []) (inside : ∀ token ∈ front, token.kind ≠ .endOfInput)
    (ends : last.kind = .endOfInput) (runs : Machine.Runs front statements) :
    (ofPulls file pulls).statements = statements ∧
      ∀ event ∈ (ofPulls file pulls).events, event.isQuiet = true := by
  obtain ⟨final, finalEnds, sameStatements, sameEvents⟩ := ofPulls_eq_drive file pulls
  rw [tokens, before_append inside ends] at sameStatements sameEvents
  obtain ⟨machine, goes, ready⟩ := runs .initial [] [] rfl
  rw [List.append_nil] at ready
  obtain ⟨reached, quiet⟩ := goes.append (Machine.goes_end ready finalEnds)
  constructor
  · rw [sameStatements, reached, List.reverse_reverse]
  · have omits : Pull.Omits (fun _ => true) pulls := by
      intro pull member entry found
      rw [unread pull member] at found
      cases found
    have all := sameEvents (fun _ => true) omits
    rw [List.filter_eq_self.mpr (fun _ _ => rfl), List.filter_eq_self.mpr (fun _ _ => rfl)] at all
    rw [all]
    exact quiet

namespace Parsing

theorem exists_runs_assignment {expr : Expr} (nested : expr.shownNesting ≤ deepestNesting)
    {tokens : List Token} (lexemes : tokens.map Token.lexeme =
      (.name, .text "r") :: Kind.assign.bare :: expr.bracketed.lexemes ++ [Kind.endOfLine.bare]) :
    ∃ value place, value.agrees expr.bracketed = true ∧
      Machine.Runs tokens [.assign "r" value place] := by
  obtain ⟨front, late, rfl, spelledFront, spelledLate⟩ := List.map_eq_append_iff.mp lexemes
  obtain ⟨name, afterName, rfl, isName, spelledAssign⟩ := List.map_eq_cons_iff.mp spelledFront
  obtain ⟨assign, middle, rfl, isAssign, spelledValue⟩ := List.map_eq_cons_iff.mp spelledAssign
  obtain ⟨newline, rfl, isNewline⟩ := List.map_eq_singleton_iff.mp spelledLate
  obtain ⟨value, same, reads⟩ :=
    Reading.exists_reads expr.bracketed expr.ordered_bracketed middle spelledValue
  rw [← expr.nesting_bracketed] at nested
  exact ⟨value, name.place, same, Machine.runs_assign isName (Token.kind_of_lexeme isAssign)
    (Token.kind_of_lexeme isNewline) reads nested⟩

theorem exists_of_runs {file : String} {limit : Int} {source : String} {front : List Token}
    {last : Token} {statements : List Stmt}
    (done : (Scanner.ofSource file limit source).run.ending = .finished)
    (unread : ∀ pull ∈ (Scanner.ofSource file limit source).run.pulls, pull.journal = [])
    (tokens : (Scanner.ofSource file limit source).run.pulls.map Pull.token = front ++ [last])
    (inside : ∀ token ∈ front, token.kind ≠ .endOfInput) (ends : last.kind = .endOfInput)
    (runs : Machine.Runs front statements) (scope : Scope) :
    ∃ parsed, (ofSource file limit scope source).result = .ok parsed ∧
      parsed.statements = statements ∧
      ∀ problem ∈ problems (ofSource file limit scope source).journal,
        ∃ name similar, problem.cause = .undefinedVariable name similar := by
  obtain ⟨same, quiet⟩ := Parsed.ofPulls_of_runs file tokens unread inside ends runs
  rw [ofSource_of_finished done scope]
  exact ⟨_, rfl, same, Event.undefined_of_quiet _ _ _ quiet⟩

theorem exists_bracketed {expr : Expr} (readable : expr.isReadable = true)
    (nested : expr.shownNesting ≤ deepestNesting) (file : String) (limit : Int) (scope : Scope)
    {ending : String} (ends : ending ∈ ["", "\n"]) :
    ∃ parsed value place,
      (ofSource file limit scope ("r = " ++ expr.node.shown ++ ending)).result = .ok parsed ∧
      parsed.statements = [.assign "r" value place] ∧ value.agrees expr.bracketed = true ∧
      ∀ problem ∈ problems (ofSource file limit scope ("r = " ++ expr.node.shown ++ ending)).journal,
        ∃ name similar, problem.cause = .undefinedVariable name similar := by
  have source : "r = " ++ expr.node.shown = String.ofList expr.assignmentChars := by
    rw [← String.toList_inj]
    simp only [String.toList_append, expr.toList_shown, String.toList_ofList]
    rfl
  have flat : ∀ c ∈ expr.assignmentChars, c ≠ '\n' ∧ c ≠ '\r' := by
    simp only [Expr.assignmentChars, List.forall_mem_cons]
    exact ⟨by decide, by decide, by decide, by decide, Expr.flat_shownChars readable⟩
  obtain ⟨done, unread, front, last, tokens, lexemes, isEnd⟩ := Scanner.exists_tokens_of_lexemes? file
    limit (Expr.lexemes?_assignmentChars readable) rfl flat ends
  obtain ⟨value, place, same, runs⟩ := exists_runs_assignment nested lexemes
  have inside : ∀ token ∈ front, token.kind ≠ .endOfInput := by
    intro token member
    rw [← token.lexeme_kind]
    apply (Stmt.assign "r" expr.bracketed place).lexemes_ne_end
    have listed := List.mem_map_of_mem (f := Token.lexeme) member
    rwa [lexemes] at listed
  obtain ⟨parsed, result, statements, faults⟩ :=
    exists_of_runs done unread tokens inside isEnd runs scope
  rw [source, Expr.assignmentChars]
  exact ⟨parsed, value, place, result, statements, same, faults⟩

/-- Every expression without decimals is read back from the text that outlines show for it, unless the
text nests too deeply: the line that assigns it to `r` is parsed to one assignment, at most undefined
variables are recorded, and the value is the expression but for groups. So two expressions have the same
text exactly when they differ in groups and places alone. -/
theorem shown_expression_reads_back {expr : Expr} (readable : expr.isReadable = true)
    (nested : expr.shownNesting ≤ deepestNesting) :
    (∀ (file : String) (limit : Int) (scope : Scope), ∀ ending ∈ ["", "\n"],
      let parsing := ofSource file limit scope ("r = " ++ expr.node.shown ++ ending)
      ∃ parsed value place, parsing.result = .ok parsed ∧
        parsed.statements = [.assign "r" value place] ∧
        value.ungrouped.agrees expr.ungrouped = true ∧
        ∀ problem ∈ problems parsing.journal,
          ∃ name similar, problem.cause = .undefinedVariable name similar) ∧
      ∀ other : Expr, other.isReadable = true → other.shownNesting ≤ deepestNesting →
        (other.node.shown = expr.node.shown ↔ other.ungrouped.agrees expr.ungrouped = true) := by
  constructor
  · intro file limit scope ending ends
    obtain ⟨parsed, value, place, result, statements, same, faults⟩ :=
      exists_bracketed readable nested file limit scope ends
    exact ⟨parsed, value, place, result, statements, Expr.agrees_of_bracketed same, faults⟩
  · intro other otherReadable otherNested
    refine ⟨fun alike => ?_, Expr.shown_of_agrees⟩
    have ends : "" ∈ ["", "\n"] := List.mem_cons_self
    obtain ⟨parsed, value, place, result, statements, same, -⟩ :=
      exists_bracketed readable nested "" 0 .empty ends
    obtain ⟨parsed', value', place', result', statements', same', -⟩ :=
      exists_bracketed otherReadable otherNested "" 0 .empty ends
    -- Both lines are the same source, so they have the same value.
    rw [alike, result, Except.ok.injEq] at result'
    rw [← result', statements, List.cons.injEq, Stmt.assign.injEq] at statements'
    rw [← statements'.1.2.1] at same'
    have first := (Expr.agrees_iff _ _).mp (Expr.agrees_of_bracketed same)
    have second := (Expr.agrees_iff _ _).mp (Expr.agrees_of_bracketed same')
    rw [Expr.agrees_iff, ← second, first]

/-- `not (-(-x)) < True` times a group, in a shape that no source is parsed to. -/
def unparsedShape : Expr :=
  let place := Location.top "sample"
  .binary .multiply
    (.unary .not (.binary .less (.unary .negate (.unary .negate (.name "x" place) place) place)
      (.literal (.boolean true) place)) place)
    (.group (.binary .or (.literal (.integer 9223372036854775807) place) (.name "notx" place)) place)

theorem shown_expression_reads_back_unparsed :
    unparsedShape.node.shown = "((not ((-(-x)) < True)) * (9223372036854775807 or notx))" ∧
      unparsedShape.isReadable = true ∧ unparsedShape.shownNesting ≤ deepestNesting ∧
      (∀ (file : String) (limit : Int) (scope : Scope), ∀ ending ∈ ["", "\n"],
        let parsing := ofSource file limit scope ("r = " ++ unparsedShape.node.shown ++ ending)
        ∃ parsed value place, parsing.result = .ok parsed ∧
          parsed.statements = [.assign "r" value place] ∧
          value.ungrouped.agrees unparsedShape.ungrouped = true ∧
          ∀ problem ∈ problems parsing.journal,
            ∃ name similar, problem.cause = .undefinedVariable name similar) ∧
      (unparsedShape.bracketed.node.shown = unparsedShape.node.shown ↔
        unparsedShape.bracketed.ungrouped.agrees unparsedShape.ungrouped = true) := by
  have readable : unparsedShape.isReadable = true := by decide +kernel
  have nested : unparsedShape.shownNesting ≤ deepestNesting := by decide
  obtain ⟨reads, alike⟩ := shown_expression_reads_back readable nested
  exact ⟨by decide +kernel, readable, nested, reads,
    alike unparsedShape.bracketed (by decide +kernel) (by decide)⟩

end Parsing

end Offside
