import Offside.Proofs.CText.Body

/-!
The indentation of written programs. A line stands four columns deeper for each brace open before it,
one brace fewer if it starts by closing one, and in the end all braces are closed.
-/

namespace Offside

namespace C

def isInline (c : Char) : Bool := c ≠ '\n' && c ≠ '\x7b' && c ≠ '\x7d'

theorem isInline_of_class {p : Char → Bool} {c : Char} (inside : p c = true)
    (outside : ['\n', '\x7b', '\x7d'].any p = false) : isInline c = true := by
  have apart : ∀ other ∈ ['\n', '\x7b', '\x7d'], c ≠ other := fun other found =>
    ne_of_class inside (by simpa using List.any_eq_false.mp outside other found)
  simp only [List.forall_mem_cons, List.not_mem_nil, false_implies, implies_true, and_true] at apart
  simp [isInline, apart]

theorem inline_of_isIdentifier {text : List Char} (identifier : isIdentifier text = true) :
    ∀ c ∈ text, isInline c = true := by
  cases text with
  | nil => cases identifier
  | cons first rest =>
    rw [isIdentifier, Bool.and_eq_true, List.all_eq_true] at identifier
    rw [List.forall_mem_cons]
    exact ⟨isInline_of_class identifier.1 rfl, fun c found => isInline_of_class (identifier.2 c found) rfl⟩

theorem inline_of_isNumeral {text : List Char} (numeral : isNumeral text = true) :
    ∀ c ∈ text, isInline c = true := by
  intro c found
  obtain ⟨before, continues⟩ := exists_continues_of_mem numeral c found
  exact isInline_of_class (p := continuesNumber before) continues rfl

def rise (line : String) : Int := (line.toList.count '\x7b' : Int) - line.toList.count '\x7d'

def openBraces : List String → Int
  | [] => 0
  | line :: rest => rise line + openBraces rest

def margin (line : String) : Nat := (line.toList.takeWhile (· = ' ')).length

def startsClosing (line : String) : Bool := (line.toList.dropWhile (· = ' ')).head? = some '\x7d'

/-- A line that is indented as it should be after lines that leave `depth` braces open. -/
def IsIndented (depth : Int) (line : String) : Prop :=
  (margin line : Int) = 4 * (depth - if startsClosing line then 1 else 0)

/-- Lines that take the open braces from one number to another, each of them indented as it should
be. -/
def Nests : Int → List String → Int → Prop
  | depth, [], last => depth = last
  | depth, line :: rest, last =>
    (IsIndented depth line ∧ '\n' ∉ line.toList) ∧ Nests (depth + rise line) rest last

theorem Nests.append {first next last : Int} {lines others : List String}
    (nests : Nests first lines next) (later : Nests next others last) :
    Nests first (lines ++ others) last := by
  induction lines generalizing first with
  | nil =>
    cases nests
    exact later
  | cons line rest ih => exact ⟨nests.1, ih nests.2⟩

theorem Nests.openBraces {first last : Int} {lines : List String} (nests : Nests first lines last) :
    first + openBraces lines = last := by
  induction lines generalizing first with
  | nil => exact (Int.add_zero first).trans nests
  | cons line rest ih =>
    have later := ih nests.2
    rw [C.openBraces, ← Int.add_assoc]
    exact later

theorem Nests.middle {first last : Int} {before after : List String} {line : String}
    (nests : Nests first (before ++ line :: after) last) :
    IsIndented (first + C.openBraces before) line ∧ '\n' ∉ line.toList := by
  induction before generalizing first with
  | nil =>
    rw [C.openBraces, Int.add_zero]
    exact nests.1
  | cons other rest ih =>
    rw [C.openBraces, ← Int.add_assoc]
    exact ih nests.2

theorem rise_append (front back : String) : rise (front ++ back) = rise front + rise back := by
  simp only [rise, String.toList_append, List.count_append]
  omega

theorem rise_of_inline {text : String} (inline : ∀ c ∈ text.toList, isInline c = true) :
    rise text = 0 := by
  have noOpen : '\x7b' ∉ text.toList := fun found => absurd (inline _ found) (by decide)
  have noClose : '\x7d' ∉ text.toList := fun found => absurd (inline _ found) (by decide)
  rw [rise, List.count_eq_zero.mpr noOpen, List.count_eq_zero.mpr noClose]
  rfl

theorem single_of_inline {text : List Char} (inline : ∀ c ∈ text, isInline c = true) :
    '\n' ∉ text :=
  fun found => absurd (inline _ found) (by decide)

theorem rise_cLine (depth : Nat) (text : String) : rise (Stmt.cLine depth text) = rise text := by
  have blanks : rise (String.ofList (List.replicate (4 * depth) ' ')) = 0 := by
    apply rise_of_inline
    intro c found
    rw [String.toList_ofList] at found
    rw [List.eq_of_mem_replicate found]
    rfl
  rw [Stmt.cLine, rise_append, blanks, Int.zero_add]

theorem single_cLine (depth : Nat) {text : String} (single : '\n' ∉ text.toList) :
    '\n' ∉ (Stmt.cLine depth text).toList := by
  rw [Stmt.cLine, String.toList_append, String.toList_ofList, List.mem_append, not_or]
  refine ⟨?_, single⟩
  intro found
  cases List.eq_of_mem_replicate found

/-- A text that starts by closing a block stands one level further out than the lines of the block. -/
theorem isIndented_cLine (depth : Nat) {text : String} (visible : text.toList.head? ≠ some ' ') :
    IsIndented (depth + if text.toList.head? = some '\x7d' then 1 else 0) (Stmt.cLine depth text) := by
  have blank : ∀ c ∈ List.replicate (4 * depth) ' ', decide (c = ' ') = true := by
    intro c found
    rw [List.eq_of_mem_replicate found]
    rfl
  have none : text.toList.takeWhile (· = ' ') = [] ∧ text.toList.dropWhile (· = ' ') = text.toList := by
    cases chars : text.toList with
    | nil => exact ⟨rfl, rfl⟩
    | cons first rest =>
      rw [chars] at visible
      have apart : first ≠ ' ' := by simpa using visible
      simp [apart]
  have width : margin (Stmt.cLine depth text) = 4 * depth := by
    rw [margin, Stmt.cLine, String.toList_append, String.toList_ofList,
      List.takeWhile_append_of_pos blank, none.1, List.append_nil, List.length_replicate]
  have closing : startsClosing (Stmt.cLine depth text) = (text.toList.head? = some '\x7d') := by
    rw [startsClosing, Stmt.cLine, String.toList_append, String.toList_ofList,
      List.dropWhile_append_of_pos blank, none.2, decide_eq_true_eq]
  rw [IsIndented, width]
  simp only [closing]
  omega

theorem nests_line (depth : Nat) {text : String} {first : Char}
    (starts : text.toList.head? = some first) (visible : first ≠ ' ') (opens : first ≠ '\x7d')
    (single : '\n' ∉ text.toList) : Nests depth [Stmt.cLine depth text] (depth + rise text) := by
  have head {c : Char} (apart : first ≠ c) : text.toList.head? ≠ some c := by
    rw [starts]
    exact fun same => apart (Option.some.inj same)
  have indented := isIndented_cLine depth (head visible)
  rw [if_neg (head opens), Int.add_zero] at indented
  exact ⟨⟨indented, single_cLine depth single⟩, by rw [rise_cLine]; rfl⟩

theorem nests_closingLine (depth : Nat) {text : String} (closes : text.toList.head? = some '\x7d')
    (single : '\n' ∉ text.toList) :
    Nests (depth + 1) [Stmt.cLine depth text] (depth + 1 + rise text) := by
  have visible : text.toList.head? ≠ some ' ' := by
    rw [closes]
    decide
  have indented := isIndented_cLine depth visible
  rw [if_pos closes] at indented
  exact ⟨⟨indented, single_cLine depth single⟩, by rw [rise_cLine]; rfl⟩

end C

open C

theorem Expr.inline_cChars {expr : Expr} (lexical : expr.IsLexical) :
    ∀ c ∈ expr.cChars, isInline c = true := by
  have parens {text : List Char} (inside : ∀ c ∈ text, isInline c = true) :
      ∀ c ∈ '(' :: text ++ [')'], isInline c = true := by
    rw [List.cons_append, List.forall_mem_cons, List.forall_mem_append]
    exact ⟨rfl, inside, by simp [isInline]⟩
  induction expr with
  | literal value place => exact inline_of_isNumeral (Literal.isNumeral_cText lexical)
  | name text place => exact inline_of_isIdentifier lexical
  | unary op operand place ih =>
    cases op with
    | not =>
      rw [cChars]
      split
      · exact List.forall_mem_cons.mpr ⟨rfl, parens (ih lexical)⟩
      · exact List.forall_mem_cons.mpr ⟨rfl, ih lexical⟩
    | negate =>
      rw [cChars]
      split
      · exact List.forall_mem_cons.mpr ⟨rfl, parens (ih lexical)⟩
      · exact List.forall_mem_cons.mpr ⟨rfl, ih lexical⟩
  | binary op left right ihLeft ihRight =>
    have operator : ∀ c ∈ op.cText.toList, isInline c = true := by
      cases op <;> exact List.all_eq_true.mp rfl
    rw [cChars, List.forall_mem_append, List.forall_mem_append, List.forall_mem_cons,
      List.forall_mem_cons]
    exact ⟨⟨ihLeft lexical.1, rfl, operator⟩, rfl, ihRight lexical.2⟩
  | group inner place ih => exact parens (ih lexical)

namespace Stmt

theorem header_shape {opening : String} {first : Char} (starts : opening.toList.head? = some first)
    (single : '\n' ∉ opening.toList) {guard : Expr} (lexical : guard.IsLexical) :
    (opening ++ guard.cText ++ ") \x7b").toList.head? = some first ∧
      '\n' ∉ (opening ++ guard.cText ++ ") \x7b").toList ∧
      rise (opening ++ guard.cText ++ ") \x7b") = rise opening + 1 := by
  have inline : ∀ c ∈ guard.cText.toList, isInline c = true := by
    rw [Expr.toList_cText]
    exact Expr.inline_cChars lexical
  refine ⟨?_, ?_, ?_⟩
  · rw [String.toList_append, String.toList_append, List.append_assoc, List.head?_append, starts]
    rfl
  · rw [String.toList_append, String.toList_append, List.mem_append, List.mem_append, not_or, not_or]
    exact ⟨⟨single, single_of_inline inline⟩, by decide⟩
  · rw [rise_append, rise_append, rise_of_inline inline, Int.add_zero]
    rfl

theorem nests_header {opening : String} {first : Char} (starts : opening.toList.head? = some first)
    (visible : first ≠ ' ') (opens : first ≠ '\x7d') (single : '\n' ∉ opening.toList)
    (level : rise opening = 0) {guard : Expr} (lexical : guard.IsLexical) (depth : Nat) :
    Nests depth [cLine depth (opening ++ guard.cText ++ ") \x7b")] (depth + 1) := by
  obtain ⟨begins, whole, same⟩ := header_shape starts single lexical
  have nests := nests_line depth begins visible opens whole
  rwa [same, level, Int.zero_add] at nests

/-- Closing one block and opening the next, a line stands where the header of the first does. -/
theorem nests_elseIf {guard : Expr} (lexical : guard.IsLexical) (depth : Nat) :
    Nests (depth + 1) [cLine depth ("\x7d else if (" ++ guard.cText ++ ") \x7b")] (depth + 1) := by
  obtain ⟨starts, single, same⟩ :=
    header_shape (show "\x7d else if (".toList.head? = some '\x7d' from rfl) (by decide) lexical
  have nests := nests_closingLine depth starts single
  rwa [same] at nests

theorem nests_else (depth : Nat) : Nests (depth + 1) [cLine depth "\x7d else \x7b"] (depth + 1) :=
  nests_closingLine depth rfl (by decide)

theorem nests_close (depth : Nat) : Nests (depth + 1) [cLine depth "\x7d"] depth := by
  have closes : "\x7d".toList.head? = some '\x7d' := rfl
  have nests := nests_closingLine depth closes (by decide)
  rwa [show rise "\x7d" = -1 from rfl, Int.add_neg_cancel_right] at nests

theorem nests_assign {target : String} {value : Expr} (identifier : isIdentifier target.toList = true)
    (lexical : value.IsLexical) (depth : Nat) :
    Nests depth [cLine depth (target ++ " = " ++ value.cText ++ ";")] depth := by
  have inline : ∀ c ∈ (target ++ " = " ++ value.cText ++ ";").toList, isInline c = true := by
    rw [String.toList_append, String.toList_append, String.toList_append, Expr.toList_cText,
      List.forall_mem_append, List.forall_mem_append, List.forall_mem_append]
    exact ⟨⟨⟨inline_of_isIdentifier identifier, List.all_eq_true.mp rfl⟩, Expr.inline_cChars lexical⟩,
      List.all_eq_true.mp rfl⟩
  obtain ⟨first, starts, word⟩ :
      ∃ first, target.toList.head? = some first ∧ Segment.isWordStart first = true := by
    cases chars : target.toList with
    | nil =>
      rw [chars] at identifier
      cases identifier
    | cons first rest =>
      rw [chars, isIdentifier, Bool.and_eq_true] at identifier
      exact ⟨first, rfl, identifier.1⟩
  have begins : (target ++ " = " ++ value.cText ++ ";").toList.head? = some first := by
    rw [String.toList_append, String.toList_append, String.toList_append, List.append_assoc,
      List.append_assoc, List.head?_append, starts]
    rfl
  have nests := nests_line depth begins (ne_of_class word rfl) (ne_of_class word rfl)
    (single_of_inline inline)
  rwa [rise_of_inline inline, Int.add_zero] at nests

mutual

theorem nests_cLines (depth : Nat) : (stmt : Stmt) → stmt.IsWritable →
    Nests depth (stmt.cLines depth) depth
  | assign target value place, writable => nests_assign writable.1 writable.2.2.1 depth
  | choose .done place, writable => by cases writable.1
  | choose (.otherwise body) place, writable => by cases writable.1
  | choose (.arm guard body rest) place, writable => by
    obtain ⟨-, readable, bodyWritable, restWritable⟩ := writable
    have header := nests_header (show "if (".toList.head? = some 'i' from rfl) (by decide) (by decide)
      (by decide) rfl readable.1 depth
    have inside := nests_cLinesOfAll (depth + 1) body bodyWritable
    exact (header.append inside).append (nests_cLinesOfRest depth rest restWritable)
  | loop condition body place, writable => by
    obtain ⟨readable, bodyWritable⟩ := writable
    have header := nests_header (show "while (".toList.head? = some 'w' from rfl) (by decide)
      (by decide) (by decide) rfl readable.1 depth
    have inside := nests_cLinesOfAll (depth + 1) body bodyWritable
    exact (header.append inside).append (nests_close depth)
  | leave place, _ => by
    have nests := nests_line depth (show "break;".toList.head? = some 'b' from rfl) (by decide)
      (by decide) (by decide)
    rwa [show rise "break;" = 0 from rfl, Int.add_zero] at nests

theorem nests_cLinesOfAll (depth : Nat) : (stmts : List Stmt) → AllWritable stmts →
    Nests depth (cLinesOfAll depth stmts) depth
  | [], _ => rfl
  | first :: rest, writable =>
    (nests_cLines depth first writable.1).append (nests_cLinesOfAll depth rest writable.2)

theorem nests_cLinesOfRest (depth : Nat) : (arms : Arms Expr Stmt) → ArmsWritable arms →
    Nests (depth + 1) (cLinesOfArms depth "\x7d else if (" arms) depth
  | .done, _ => nests_close depth
  | .otherwise body, writable =>
    ((nests_else depth).append (nests_cLinesOfAll (depth + 1) body writable)).append (nests_close depth)
  | .arm guard body rest, writable => by
    obtain ⟨readable, bodyWritable, restWritable⟩ := writable
    have inside := nests_cLinesOfAll (depth + 1) body bodyWritable
    exact ((nests_elseIf readable.1 depth).append inside).append
      (nests_cLinesOfRest depth rest restWritable)

end

end Stmt

end Offside
