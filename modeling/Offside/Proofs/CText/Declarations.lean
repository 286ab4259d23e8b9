import Offside.Proofs.CText.Program
import Offside.Proofs.Resolution.Targets

/-!
The variables of a compiled program. Each is declared in one line of the text and printed in one, in
the order in which the program first assigns them, and the body reads and assigns no others.
-/

namespace Offside

namespace C

def declaration (name : String) : String := "double " ++ name ++ ";"

def printing (name : String) : String := "printf(\"" ++ name ++ ": %lf\\n\", " ++ name ++ ");"

def named? (lead : Nat) (form : String → String) (line : List Char) : Option String :=
  (some (String.ofList ((line.drop lead).takeWhile Segment.isWordPart))).filter fun name =>
    isIdentifier name.toList && line = (form name).toList

def declared? : List Char → Option String := named? "double ".length declaration

def printed? : List Char → Option String := named? "printf(\"".length printing

theorem takeWhile_identifier {text : List Char} (identifier : isIdentifier text = true) {stop : Char}
    (stops : Segment.isWordPart stop = false) (rest : List Char) :
    (text ++ stop :: rest).takeWhile Segment.isWordPart = text ∧
      (text ++ stop :: rest).dropWhile Segment.isWordPart = stop :: rest := by
  have inside := isWordPart_of_isIdentifier identifier
  rw [List.takeWhile_append_of_pos inside, List.dropWhile_append_of_pos inside]
  simp [stops]

theorem named?_eq_some_iff (front : List Char) {form : String → String}
    (shape : ∀ name, ∃ stop rest, Segment.isWordPart stop = false ∧
      (form name).toList = front ++ (name.toList ++ stop :: rest))
    (line : List Char) (name : String) :
    named? front.length form line = some name ↔
      isIdentifier name.toList = true ∧ line = (form name).toList := by
  rw [named?, Option.filter_eq_some_iff, Option.some.injEq, Bool.and_eq_true, decide_eq_true_eq]
  constructor
  · exact fun found => found.2
  · rintro ⟨identifier, rfl⟩
    obtain ⟨stop, rest, stops, same⟩ := shape name
    refine ⟨?_, identifier, rfl⟩
    rw [same, List.drop_left, (takeWhile_identifier identifier stops rest).1, String.ofList_toList]

theorem declared?_eq_some_iff (line : List Char) (name : String) :
    declared? line = some name ↔ isIdentifier name.toList = true ∧ line = (declaration name).toList := by
  apply named?_eq_some_iff "double ".toList
  intro name
  exact ⟨';', [], rfl, by simp [declaration]⟩

theorem printed?_eq_some_iff (line : List Char) (name : String) :
    printed? line = some name ↔ isIdentifier name.toList = true ∧ line = (printing name).toList := by
  apply named?_eq_some_iff "printf(\"".toList
  intro name
  refine ⟨':', (" %lf\\n\", " ++ name ++ ");").toList, rfl, ?_⟩
  simp [printing]

def IsPlain (line : List Char) : Prop := declared? line = none ∧ printed? line = none

theorem declared?_eq_none_iff (line : List Char) : declared? line = none ↔
    ∀ name : String, isIdentifier name.toList = true → line ≠ (declaration name).toList := by
  simp only [Option.eq_none_iff_forall_ne_some, ne_eq, declared?_eq_some_iff, not_and]

theorem printed?_eq_none_iff (line : List Char) : printed? line = none ↔
    ∀ name : String, isIdentifier name.toList = true → line ≠ (printing name).toList := by
  simp only [Option.eq_none_iff_forall_ne_some, ne_eq, printed?_eq_some_iff, not_and]

theorem declared?_of_head {line : List Char} (noDouble : line.head? ≠ some 'd') :
    declared? line = none := by
  rw [declared?_eq_none_iff]
  rintro name _ rfl
  exact noDouble (by simp [declaration])

theorem printed?_of_head {line : List Char} (noPrint : line.head? ≠ some 'p') :
    printed? line = none := by
  rw [printed?_eq_none_iff]
  rintro name _ rfl
  exact noPrint (by simp [printing])

theorem isPlain_of_head {line : List Char} (noDouble : line.head? ≠ some 'd')
    (noPrint : line.head? ≠ some 'p') : IsPlain line :=
  ⟨declared?_of_head noDouble, printed?_of_head noPrint⟩

/-- An assignment declares nothing, not even one to a variable with the name of a type or of a
function: an `=` follows the name. -/
theorem isPlain_assign {target : List Char} (identifier : isIdentifier target = true)
    (rest : List Char) : IsPlain (target ++ ' ' :: '=' :: rest) := by
  have after := (takeWhile_identifier identifier (show Segment.isWordPart ' ' = false from rfl)
    ('=' :: rest)).2
  constructor
  · rw [declared?_eq_none_iff]
    intro name named same
    have double := (takeWhile_identifier (show isIdentifier "double".toList = true from rfl)
      (show Segment.isWordPart ' ' = false from rfl) (name.toList ++ [';'])).2
    have text : (declaration name).toList = "double".toList ++ ' ' :: (name.toList ++ [';']) := by
      simp [declaration]
    rw [same, text, double] at after
    cases chars : name.toList with
    | nil =>
      rw [chars] at named
      cases named
    | cons first others =>
      rw [chars, isIdentifier, Bool.and_eq_true] at named
      rw [chars] at after
      cases after
      exact absurd named.1 (by decide)
  · rw [printed?_eq_none_iff]
    intro name named same
    have print := (takeWhile_identifier (show isIdentifier "printf".toList = true from rfl)
      (show Segment.isWordPart '(' = false from rfl)
      ("\"".toList ++ name.toList ++ ": %lf\\n\", ".toList ++ name.toList ++ ");".toList)).2
    have text : (printing name).toList = "printf".toList ++ '(' ::
        ("\"".toList ++ name.toList ++ ": %lf\\n\", ".toList ++ name.toList ++ ");".toList) := by
      simp [printing]
    rw [same, text, print] at after
    cases after

end C

open C

namespace Stmt

theorem isPlain_cLine (depth : Nat) {text : String} (plain : IsPlain text.toList) :
    IsPlain (cLine depth text).toList := by
  rw [cLine, String.toList_append, String.toList_ofList]
  cases depth with
  | zero => exact plain
  | succ depth =>
    rw [Nat.mul_succ, List.replicate_succ]
    exact isPlain_of_head (by simp) (by simp)

theorem isPlain_opened (depth : Nat) {opening : String} {first : Char}
    (starts : opening.toList.head? = some first) (noDouble : first ≠ 'd') (noPrint : first ≠ 'p')
    (rest : String) : IsPlain (cLine depth (opening ++ rest)).toList := by
  have head : (opening ++ rest).toList.head? = some first := by
    rw [String.toList_append, List.head?_append, starts]
    rfl
  apply isPlain_cLine
  apply isPlain_of_head
  · rw [head]
    exact fun same => noDouble (Option.some.inj same)
  · rw [head]
    exact fun same => noPrint (Option.some.inj same)

mutual

theorem isPlain_cLines (depth : Nat) : (stmt : Stmt) → stmt.IsWritable →
    ∀ line ∈ stmt.cLines depth, IsPlain line.toList
  | assign target value place, writable => by
    have text : (target ++ " = " ++ value.cText ++ ";").toList =
        target.toList ++ ' ' :: '=' :: (" " ++ value.cText ++ ";").toList := by
      simp
    rw [cLines, List.forall_mem_singleton]
    apply isPlain_cLine
    rw [text]
    exact isPlain_assign writable.1 _
  | choose arms place, writable =>
    isPlain_cLinesOfArms depth (show "if (".toList.head? = some 'i' from rfl) (by decide) (by decide)
      arms writable.2
  | loop condition body place, writable => by
    have header := isPlain_opened depth (show "while (".toList.head? = some 'w' from rfl) (by decide)
      (by decide) (condition.cText ++ ") \x7b")
    rw [cLines, List.forall_mem_append, List.forall_mem_cons, List.forall_mem_singleton,
      String.append_assoc]
    exact ⟨⟨header, isPlain_cLinesOfAll (depth + 1) body writable.2⟩,
      isPlain_cLine depth (isPlain_of_head (by decide) (by decide))⟩
  | leave place, _ => by
    rw [cLines, List.forall_mem_singleton]
    exact isPlain_cLine depth (isPlain_of_head (by decide) (by decide))

theorem isPlain_cLinesOfAll (depth : Nat) : (stmts : List Stmt) → AllWritable stmts →
    ∀ line ∈ cLinesOfAll depth stmts, IsPlain line.toList
  | [], _ => List.forall_mem_nil _
  | first :: rest, writable => by
    rw [cLinesOfAll, List.forall_mem_append]
    exact ⟨isPlain_cLines depth first writable.1, isPlain_cLinesOfAll depth rest writable.2⟩

theorem isPlain_cLinesOfArms (depth : Nat) {opening : String} {first : Char}
    (starts : opening.toList.head? = some first) (noDouble : first ≠ 'd') (noPrint : first ≠ 'p') :
    (arms : Arms Expr Stmt) → ArmsWritable arms →
    ∀ line ∈ cLinesOfArms depth opening arms, IsPlain line.toList
  | .done, _ => by
    rw [cLinesOfArms, List.forall_mem_singleton]
    exact isPlain_cLine depth (isPlain_of_head (by decide) (by decide))
  | .otherwise body, writable => by
    rw [cLinesOfArms, List.forall_mem_append, List.forall_mem_cons, List.forall_mem_singleton]
    exact ⟨⟨isPlain_cLine depth (isPlain_of_head (by decide) (by decide)),
      isPlain_cLinesOfAll (depth + 1) body writable⟩,
      isPlain_cLine depth (isPlain_of_head (by decide) (by decide))⟩
  | .arm guard body rest, writable => by
    have header := isPlain_opened depth starts noDouble noPrint (guard.cText ++ ") \x7b")
    have others := isPlain_cLinesOfArms depth (show "\x7d else if (".toList.head? = some '\x7d' from rfl)
      (by decide) (by decide) rest writable.2.2
    rw [cLinesOfArms, List.forall_mem_append, List.forall_mem_cons, String.append_assoc]
    exact ⟨⟨header, isPlain_cLinesOfAll (depth + 1) body writable.2.1⟩, others⟩

end

end Stmt

namespace C

theorem filterMap_eq_nil {lines : List String} {name? : List Char → Option String}
    (none : ∀ line ∈ lines, name? line.toList = .none) :
    (lines.map String.toList).filterMap name? = [] := by
  rw [List.filterMap_map, List.filterMap_eq_nil_iff]
  exact none

theorem filterMap_form {names : List String} {form : String → String}
    {name? : List Char → Option String} (found : ∀ name ∈ names, name? (form name).toList = some name) :
    ((names.map form).map String.toList).filterMap name? = names := by
  induction names with
  | nil => rfl
  | cons name rest ih =>
    rw [List.forall_mem_cons] at found
    rw [List.map_cons, List.map_cons, List.filterMap_cons_some found.1, ih found.2]

/-- Around a plain body, the text declares the variables one after the other, and prints them so. -/
theorem filterMap_frame {names body : List String}
    (identifiers : ∀ name ∈ names, isIdentifier name.toList = true)
    (plain : ∀ line ∈ body, IsPlain line.toList) :
    ((frame names body).map String.toList ++ [[]]).filterMap declared? = names ∧
      ((frame names body).map String.toList ++ [[]]).filterMap printed? = names := by
  have fixed (listed : List String) (other : ∀ line ∈ listed, line.toList.head? ≠ some 'd' ∧
      line.toList.head? ≠ some 'p') : (listed.map String.toList).filterMap declared? = [] ∧
      (listed.map String.toList).filterMap printed? = [] :=
    ⟨filterMap_eq_nil fun line found => declared?_of_head (other line found).1,
      filterMap_eq_nil fun line found => printed?_of_head (other line found).2⟩
  have declares : ((names.map declaration).map String.toList).filterMap declared? = names :=
    filterMap_form fun name found =>
      (declared?_eq_some_iff _ name).mpr ⟨identifiers name found, rfl⟩
  have prints : ((names.map printing).map String.toList).filterMap printed? = names :=
    filterMap_form fun name found => (printed?_eq_some_iff _ name).mpr ⟨identifiers name found, rfl⟩
  have unprinted : ((names.map declaration).map String.toList).filterMap printed? = [] := by
    apply filterMap_eq_nil
    rw [List.forall_mem_map]
    exact fun name _ => printed?_of_head (by simp [declaration])
  have undeclared : ((names.map printing).map String.toList).filterMap declared? = [] := by
    apply filterMap_eq_nil
    rw [List.forall_mem_map]
    exact fun name _ => declared?_of_head (by simp [printing])
  have unlisted := filterMap_eq_nil fun line found => (plain line found).1
  have silent := filterMap_eq_nil fun line found => (plain line found).2
  obtain ⟨opening, opening'⟩ := fixed ["#include <stdio.h>", "int main() \x7b"] (by decide)
  obtain ⟨begins, begins'⟩ := fixed ["", "/* Begin program */", ""] (by decide)
  obtain ⟨ends, ends'⟩ := fixed ["/* End program */", ""] (by decide)
  obtain ⟨closing, closing'⟩ := fixed ["\x7d", ""] (by decide)
  have last : (frame names body).map String.toList ++ [[]] =
      (["#include <stdio.h>", "int main() \x7b"] ++ names.map declaration ++
        ["", "/* Begin program */", ""] ++ body ++ ["/* End program */", ""] ++ names.map printing ++
        ["\x7d", ""]).map String.toList := by
    simp only [List.map_append, frame, List.append_assoc]
    rfl
  rw [last]
  constructor
  · simp only [List.map_append, List.filterMap_append, declares, undeclared, unlisted, opening, begins,
      ends, closing, List.nil_append, List.append_nil]
  · simp only [List.map_append, List.filterMap_append, unprinted, prints, silent, opening', begins',
      ends', closing', List.nil_append, List.append_nil]

end C

theorem Expr.mem_mentions_of_word {word : String} (expr : Expr) (found : .word word ∈ expr.cTokens) :
    word ∈ expr.mentions.map Mention.name := by
  induction expr with
  | literal value place => simp [cTokens] at found
  | name text place =>
    cases List.mem_singleton.mp found
    exact List.mem_singleton_self _
  | unary op operand place ih =>
    apply ih
    cases op with
    | not =>
      simp only [cTokens] at found
      split at found <;> simpa using found
    | negate =>
      simp only [cTokens] at found
      split at found <;> simpa using found
  | binary op left right ihLeft ihRight =>
    simp only [cTokens, List.mem_append, List.mem_cons, reduceCtorEq, false_or] at found
    rw [mentions, List.map_append, List.mem_append]
    exact found.imp ihLeft ihRight
  | group inner place ih => exact ih (by simpa [cTokens] using found)

namespace Stmt

mutual

theorem mem_mentions_of_word {word : String} : (stmt : Stmt) → stmt.IsWritable →
    {tokens : List C.Token} → DerivesStatement tokens stmt.cStatement → .word word ∈ tokens →
    word ∈ C.reserved ∨ word ∈ stmt.mentions.map Mention.name
  | assign target value place, writable, tokens, derives, found => by
    rw [cStatement, writable.2.2.tokensOf_cText] at derives
    rw [mentions, List.map_append, List.mem_append]
    cases derives with
    | assign free expr =>
      simp only [List.cons_append, List.mem_cons, List.mem_append, Token.word.injEq, reduceCtorEq,
        List.not_mem_nil, or_false, false_or] at found
      rcases found with rfl | inValue
      · exact .inr (.inr (List.mem_singleton_self _))
      · exact .inr (.inl (value.mem_mentions_of_word inValue))
  | choose .done place, writable, tokens, derives, found => by cases writable.1
  | choose (.otherwise body) place, writable, tokens, derives, found => by cases writable.1
  | choose (.arm guard body rest) place, writable, tokens, derives, found => by
    rw [cStatement, cArms, writable.2.1.tokensOf_cText] at derives
    rw [mentions, mentionsOfArms, List.map_append, List.map_append, List.mem_append, List.mem_append]
    cases derives with
    | choose expr block chain =>
      simp only [parens, braces, List.cons_append, List.mem_cons, List.mem_append, Token.word.injEq,
        reduceCtorEq, List.not_mem_nil, or_false, false_or] at found
      rcases found with rfl | (inGuard | inBody) | inRest
      · exact .inl (by decide)
      · exact .inr (.inl (.inl (guard.mem_mentions_of_word inGuard)))
      · exact (mem_mentions_of_word_all body writable.2.2.1 block inBody).imp_right
          fun listed => .inl (.inr listed)
      · exact (mem_mentions_of_word_rest rest writable.2.2.2 chain inRest).imp_right .inr
  | loop condition body place, writable, tokens, derives, found => by
    rw [cStatement, writable.1.tokensOf_cText] at derives
    rw [mentions, List.map_append, List.mem_append]
    cases derives with
    | loop expr block =>
      simp only [parens, braces, List.cons_append, List.mem_cons, List.mem_append, Token.word.injEq,
        reduceCtorEq, List.not_mem_nil, or_false, false_or] at found
      rcases found with rfl | inCondition | inBody
      · exact .inl (by decide)
      · exact .inr (.inl (condition.mem_mentions_of_word inCondition))
      · exact (mem_mentions_of_word_all body writable.2 block inBody).imp_right .inr
  | leave place, _, tokens, derives, found => by
    cases derives
    simp only [List.mem_cons, Token.word.injEq, reduceCtorEq, List.not_mem_nil, or_false] at found
    rw [found]
    exact .inl (by decide)

theorem mem_mentions_of_word_all {word : String} : (stmts : List Stmt) → AllWritable stmts →
    {tokens : List C.Token} → DerivesAll tokens (cStatements stmts) → .word word ∈ tokens →
    word ∈ C.reserved ∨ word ∈ (mentionsOfAll stmts).map Mention.name
  | [], _, tokens, derives, found => by
    cases derives
    cases found
  | first :: rest, writable, tokens, derives, found => by
    rw [mentionsOfAll, List.map_append, List.mem_append]
    cases derives with
    | cons one more =>
      rcases List.mem_append.mp found with here | later
      · exact (mem_mentions_of_word first writable.1 one here).imp_right .inl
      · exact (mem_mentions_of_word_all rest writable.2 more later).imp_right .inr

theorem mem_mentions_of_word_rest {word : String} : (arms : Arms Expr Stmt) → ArmsWritable arms →
    {tokens : List C.Token} → DerivesRest tokens (cArms arms) → .word word ∈ tokens →
    word ∈ C.reserved ∨ word ∈ (mentionsOfArms arms).map Mention.name
  | .done, _, tokens, derives, found => by
    cases derives
    cases found
  | .otherwise body, writable, tokens, derives, found => by
    cases derives with
    | otherwise block =>
      simp only [braces, List.cons_append, List.mem_cons, List.mem_append, Token.word.injEq,
        reduceCtorEq, List.not_mem_nil, or_false, false_or] at found
      rcases found with rfl | inBody
      · exact .inl (by decide)
      · exact mem_mentions_of_word_all body writable block inBody
  | .arm guard body rest, writable, tokens, derives, found => by
    rw [cArms, writable.1.tokensOf_cText] at derives
    rw [mentionsOfArms, List.map_append, List.map_append, List.mem_append, List.mem_append]
    cases derives with
    | elseIf expr block chain =>
      simp only [parens, braces, List.cons_append, List.mem_cons, List.mem_append, Token.word.injEq,
        reduceCtorEq, List.not_mem_nil, or_false, false_or] at found
      rcases found with rfl | rfl | (inGuard | inBody) | inRest
      · exact .inl (by decide)
      · exact .inl (by decide)
      · exact .inr (.inl (.inl (guard.mem_mentions_of_word inGuard)))
      · exact (mem_mentions_of_word_all body writable.2.1 block inBody).imp_right
          fun listed => .inl (.inr listed)
      · exact (mem_mentions_of_word_rest rest writable.2.2 chain inRest).imp_right .inr

end

end Stmt

section

variable {options : Options} {file : Option String} {source : String} {compilation : Compilation}

theorem names_of_compiled (result : (compile options file source).result = .ok compilation) :
    compilation.names.Nodup ∧
      ∀ target ∈ Stmt.targetsOfAll compilation.statements, target ∈ compilation.names := by
  obtain ⟨parsed, found, sameStatements, sameNames, -⟩ := exists_parsed_of_compiled result
  obtain ⟨done, same, -⟩ := Parsing.ofSource_of_ok found
  have final := congrArg Parsing.scope (Parsing.ofSource_of_finished done .empty)
  rw [sameStatements, sameNames, final, same]
  constructor
  · have none : Scope.empty.names.Nodup := List.nodup_nil
    exact Event.nodup_resolveAll _ none _
  · intro target listed
    obtain ⟨token, said, rfl⟩ := Parsed.exists_assigned _ _ target listed
    rw [Scope.mem_names_iff]
    exact Event.contains_of_assigned _ _ said

theorem names_of_succeeded (result : (compile options file source).result = .ok compilation)
    (succeeded : compilation.succeeded = true) :
    compilation.names = (Stmt.targetsOfAll compilation.statements).eraseDups ∧
      ∀ mention ∈ Stmt.mentionsOfAll compilation.statements, mention.name ∈ compilation.names := by
  obtain ⟨parsed, found, sameStatements, sameNames, sameProblems⟩ := exists_parsed_of_compiled result
  have nothing := List.isEmpty_iff.mp succeeded
  rw [sameProblems] at nothing
  obtain ⟨undefined, declared⟩ := Parsing.resolved_by_mentions found fun problem recorded => by
    rw [nothing] at recorded
    cases recorded
  rw [nothing, List.filter_nil] at undefined
  rw [sameStatements, sameNames, declared]
  constructor
  · rw [Mention.names_resolveAll_eq, Stmt.filterMap_target?_all]
    have all : (Stmt.targetsOfAll parsed.statements).filter (!Scope.empty.contains ·) =
        Stmt.targetsOfAll parsed.statements := List.filter_eq_self.mpr fun _ _ => rfl
    rw [all]
    rfl
  · intro mention listed
    rw [Scope.mem_names_iff]
    exact Mention.contains_of_defined undefined.symm mention listed

end

/-- The declared variables have different names, and the targets of the program are among them. In a
program without a fault they are its targets, each at its first occurrence; the text declares and
prints each in one line, in this order; and the words of its body are reserved or declared. -/
theorem declarations_match_assignments {options : Options} {file : Option String} {source : String}
    {compilation : Compilation} (result : (compile options file source).result = .ok compilation) :
    compilation.names.Nodup ∧
    (∀ target ∈ Stmt.targetsOfAll compilation.statements, target ∈ compilation.names) ∧
    (compilation.succeeded = true →
      compilation.names = (Stmt.targetsOfAll compilation.statements).eraseDups ∧
      (pieces compilation.code.toList).filterMap declared? = compilation.names ∧
      (pieces compilation.code.toList).filterMap printed? = compilation.names ∧
      ∃ (body : List String) (tokens : List C.Token),
        pieces compilation.code.toList = (frame compilation.names body).map String.toList ++ [[]] ∧
        tokens? ("\n".intercalate body).toList = some tokens ∧
        ∀ word, .word word ∈ tokens →
          word ∈ C.reserved ∨ word ∈ compilation.names) := by
  obtain ⟨distinct, declared⟩ := names_of_compiled result
  refine ⟨distinct, declared, ?_⟩
  intro succeeded
  have writable := allWritable_of_succeeded result succeeded
  have lines := pieces_code result succeeded
  obtain ⟨first, mentioned⟩ := names_of_succeeded result succeeded
  obtain ⟨declares, prints⟩ := filterMap_frame (isIdentifier_of_mem_names result succeeded)
    (Stmt.isPlain_cLinesOfAll 0 compilation.statements writable)
  obtain ⟨tokens, cut, derives⟩ := Stmt.exists_derivesAll 0 compilation.statements writable
  rw [← lines] at declares prints
  refine ⟨first, declares, prints, _, tokens, lines, cut.cuts.tokens?, ?_⟩
  intro word found
  rcases Stmt.mem_mentions_of_word_all _ writable derives found with reserved | named
  · exact .inl reserved
  · obtain ⟨mention, listed, rfl⟩ := List.mem_map.mp named
    exact .inr (mentioned mention listed)

/-- Variables that are assigned in both branches of a choice, one of them named like the type. -/
def branchTargetsSource : String :=
  "double = 1\nif double < 2:\n  b = double\nelse:\n  a = 2\n  b = a\ndouble = b\n"

theorem declarations_match_assignments_branches :
    ∃ compilation, (compile {} none branchTargetsSource).result = .ok compilation ∧
      compilation.succeeded = true ∧ compilation.names = ["double", "b", "a"] ∧
      compilation.names.Nodup ∧
      (∀ target ∈ Stmt.targetsOfAll compilation.statements, target ∈ compilation.names) ∧
      (compilation.succeeded = true →
        compilation.names = (Stmt.targetsOfAll compilation.statements).eraseDups ∧
        (pieces compilation.code.toList).filterMap declared? = compilation.names ∧
        (pieces compilation.code.toList).filterMap printed? = compilation.names ∧
        ∃ (body : List String) (tokens : List C.Token),
          pieces compilation.code.toList = (frame compilation.names body).map String.toList ++ [[]] ∧
          tokens? ("\n".intercalate body).toList = some tokens ∧
          ∀ word, .word word ∈ tokens → word ∈ C.reserved ∨ word ∈ compilation.names) := by
  have compiled : (compile {} none branchTargetsSource).result.toOption.map (fun compilation =>
      (compilation.succeeded, compilation.names)) = some (true, ["double", "b", "a"]) := by
    decide +kernel
  cases result : (compile {} none branchTargetsSource).result with
  | error problem =>
    rw [result] at compiled
    cases compiled
  | ok compilation =>
    rw [result] at compiled
    simp only [Except.toOption, Option.map_some, Option.some.injEq, Prod.mk.injEq] at compiled
    exact ⟨compilation, rfl, compiled.1, compiled.2, declarations_match_assignments result⟩

end Offside
