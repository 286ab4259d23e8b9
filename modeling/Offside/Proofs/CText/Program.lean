import Offside.Proofs.CText.Nesting
import Offside.Proofs.Resolution.Traversal
import Offside.Proofs.Scanner.Lines

/-!
The text of a compiled program: its frame line by line, and in it a body that C reads as the statements
of the program and as no others.
-/

namespace Offside

open C

theorem pieces_intercalate {lines : List String} (some : lines ≠ [])
    (single : ∀ line ∈ lines, '\n' ∉ line.toList) :
    pieces ("\n".intercalate lines ++ "\n").toList = lines.map String.toList ++ [[]] := by
  have flat : ∀ piece ∈ lines.map String.toList, '\n' ∉ piece := List.forall_mem_map.mpr single
  have inner := pieces_lineFeeds (mt List.map_eq_nil_iff.mp some) flat
  obtain ⟨early, last, cut⟩ := exists_pieces_concat (['\n'].intercalate (lines.map String.toList))
  have ended := pieces_append cut (show pieces ['\n'] = [[], []] from rfl)
  rw [String.toList_append, String.toList_intercalate, show "\n".toList = ['\n'] from rfl, ended, ← inner,
    cut, List.append_nil, List.append_assoc]
  rfl

/-- The lines of a program around its body: every variable is declared before it and printed after
it. -/
def C.frame (names body : List String) : List String :=
  ["#include <stdio.h>", "int main() \x7b"]
    ++ names.map (fun name => "double " ++ name ++ ";")
    ++ ["", "/* Begin program */", ""]
    ++ body
    ++ ["/* End program */", ""]
    ++ names.map (fun name => "printf(\"" ++ name ++ ": %lf\\n\", " ++ name ++ ");")
    ++ ["\x7d"]

theorem C.single_of_mem_frame {names body : List String}
    (inline : ∀ name ∈ names, '\n' ∉ name.toList) (single : ∀ line ∈ body, '\n' ∉ line.toList) :
    ∀ line ∈ frame names body, '\n' ∉ line.toList := by
  intro line found
  simp only [frame, List.mem_append, List.mem_map] at found
  rcases found with (((((found | ⟨name, listed, rfl⟩) | found) | found) | found) | ⟨name, listed, rfl⟩) | found
  · revert line
    decide
  · simp only [String.toList_append, List.mem_append, not_or]
    exact ⟨⟨by decide, inline name listed⟩, by decide⟩
  · revert line
    decide
  · exact single line found
  · revert line
    decide
  · simp only [String.toList_append, List.mem_append, not_or]
    exact ⟨⟨⟨⟨by decide, inline name listed⟩, by decide⟩, inline name listed⟩, by decide⟩
  · revert line
    decide

theorem Expr.assigned_not_mem_mentions (expr : Expr) (name : String) (place : Location) :
    .assigned name place ∉ expr.mentions := by
  induction expr with
  | literal value at' => exact List.not_mem_nil
  | name text at' => simp [mentions]
  | unary op operand at' ih => exact ih
  | binary op left right ihLeft ihRight =>
    rw [mentions, List.mem_append, not_or]
    exact ⟨ihLeft, ihRight⟩
  | group inner at' ih => exact ih

namespace Stmt

mutual

theorem isIdentifier_of_assigned {name : String} {place : Location} : (stmt : Stmt) → stmt.IsWritable →
    .assigned name place ∈ stmt.mentions → isIdentifier name.toList = true
  | assign target value place, writable, found => by
    rcases List.mem_append.mp found with inside | here
    · exact absurd inside (value.assigned_not_mem_mentions _ _)
    · cases List.mem_singleton.mp here
      exact writable.1
  | choose arms place, writable, found => isIdentifier_of_assigned_arms arms writable.2 found
  | loop condition body place, writable, found => by
    rcases List.mem_append.mp found with inside | within
    · exact absurd inside (condition.assigned_not_mem_mentions _ _)
    · exact isIdentifier_of_assigned_all body writable.2 within

theorem isIdentifier_of_assigned_all {name : String} {place : Location} : (stmts : List Stmt) →
    AllWritable stmts → .assigned name place ∈ mentionsOfAll stmts → isIdentifier name.toList = true
  | first :: rest, writable, found => by
    rcases List.mem_append.mp found with here | later
    · exact isIdentifier_of_assigned first writable.1 here
    · exact isIdentifier_of_assigned_all rest writable.2 later

theorem isIdentifier_of_assigned_arms {name : String} {place : Location} : (arms : Arms Expr Stmt) →
    ArmsWritable arms → .assigned name place ∈ mentionsOfArms arms → isIdentifier name.toList = true
  | .otherwise body, writable, found => isIdentifier_of_assigned_all body writable found
  | .arm guard body rest, writable, found => by
    rcases List.mem_append.mp found with front | later
    · rcases List.mem_append.mp front with inside | within
      · exact absurd inside (guard.assigned_not_mem_mentions _ _)
      · exact isIdentifier_of_assigned_all body writable.2.1 within
    · exact isIdentifier_of_assigned_arms rest writable.2.2 later

end

end Stmt

theorem mem_of_mem_firstAssignments {assignment : String × Location}
    {assignments : List (String × Location)} (found : assignment ∈ firstAssignments assignments) :
    assignment ∈ assignments := by
  induction assignments with
  | nil => cases found
  | cons first rest ih =>
    rcases List.mem_cons.mp found with rfl | later
    · exact List.mem_cons_self
    · exact List.mem_cons_of_mem _ (ih (List.mem_filter.mp later).1)

theorem Mention.names_resolveAll {lines : List String} {scope : Scope} {mentions : List Mention}
    {name : String} (found : name ∈ (resolveAll lines scope mentions).2.names) :
    name ∈ scope.names ∨ ∃ place, .assigned name place ∈ mentions := by
  rw [Scope.names, entries_resolveAll, List.map_append, List.mem_append] at found
  rcases found with old | new
  · exact .inl old
  · obtain ⟨⟨_, _⟩, entry, rfl⟩ := List.mem_map.mp new
    obtain ⟨⟨name, place⟩, first, same⟩ := List.mem_map.mp entry
    cases same
    have assigned := mem_of_mem_firstAssignments (List.mem_filter.mp first).1
    obtain ⟨mention, listed, said⟩ := List.mem_filterMap.mp assigned
    cases mention with
    | read text at' => cases said
    | assigned text at' =>
      cases said
      exact .inr ⟨place, listed⟩

/-- A program that was compiled without a fault is canonical. Written out it is the tokens of a scan
without a fault, but for the end of the input. -/
theorem spelled_of_succeeded {options : Options} {file : Option String} {source : String}
    {compilation : Compilation} (result : (compile options file source).result = .ok compilation)
    (succeeded : compilation.succeeded = true) :
    let scan := (Scanner.ofSource (options.nameFor file) options.limit source).run
    Stmt.CanonicalAll compilation.statements ∧ problems scan.journal = [] ∧
      ∃ inner last, scan.tokens = inner ++ [last] ∧ last.kind = .endOfInput ∧
        inner.map Token.lexeme = Stmt.lexemesOfAll compilation.statements := by
  obtain ⟨done, same, nothing⟩ := scanned_of_succeeded result succeeded
  obtain ⟨inner, last, tokens, ends, scanned, full⟩ := Scanner.exists_tokens_of_faultless done nothing
  obtain ⟨spelled, canonical⟩ := Parsed.lexemes_of_faultless (options.nameFor file) _
    (quotedLines source) .empty fun problem recorded => by
      rw [nothing] at recorded
      cases recorded
  rw [← same] at canonical
  rw [full, ← same] at spelled
  exact ⟨canonical, scanned, inner, last, tokens, ends, spelled⟩

theorem lexemes_of_succeeded {options : Options} {file : Option String} {source : String}
    {compilation : Compilation} (result : (compile options file source).result = .ok compilation)
    (succeeded : compilation.succeeded = true) :
    let scan := (Scanner.ofSource (options.nameFor file) options.limit source).run
    Stmt.CanonicalAll compilation.statements ∧ problems scan.journal = [] ∧
      ∀ lexeme ∈ Stmt.lexemesOfAll compilation.statements, ∃ token ∈ scan.tokens, token.lexeme = lexeme := by
  obtain ⟨canonical, scanned, inner, last, tokens, -, spelled⟩ := spelled_of_succeeded result succeeded
  refine ⟨canonical, scanned, fun lexeme found => ?_⟩
  rw [← spelled] at found
  obtain ⟨token, member, rfl⟩ := List.mem_map.mp found
  refine ⟨token, ?_, rfl⟩
  rw [tokens]
  exact List.mem_append_left _ member

theorem allWritable_of_succeeded {options : Options} {file : Option String} {source : String}
    {compilation : Compilation} (result : (compile options file source).result = .ok compilation)
    (succeeded : compilation.succeeded = true) : Stmt.AllWritable compilation.statements := by
  obtain ⟨canonical, scanned, spelled⟩ := lexemes_of_succeeded result succeeded
  apply Stmt.allWritable_of_lexemes _ canonical
  intro lexeme found
  obtain ⟨token, member, rfl⟩ := spelled lexeme found
  exact Scanner.isSourced_run scanned token member

theorem isIdentifier_of_mem_names {options : Options} {file : Option String} {source : String}
    {compilation : Compilation} (result : (compile options file source).result = .ok compilation)
    (succeeded : compilation.succeeded = true) :
    ∀ name ∈ compilation.names, isIdentifier name.toList = true := by
  intro name listed
  have writable := allWritable_of_succeeded result succeeded
  obtain ⟨parsed, found, sameStatements, sameNames, sameProblems⟩ := exists_parsed_of_compiled result
  have nothing := List.isEmpty_iff.mp succeeded
  obtain ⟨-, declared⟩ := Parsing.resolved_by_mentions found fun problem recorded => by
    rw [← sameProblems, nothing] at recorded
    cases recorded
  rw [sameNames, declared] at listed
  rcases Mention.names_resolveAll listed with old | ⟨place, assigned⟩
  · cases old
  · rw [← sameStatements] at assigned
    exact Stmt.isIdentifier_of_assigned_all _ writable assigned

theorem code_of_succeeded {compilation : Compilation} (succeeded : compilation.succeeded = true) :
    compilation.code = "\n".intercalate
      (frame compilation.names (Stmt.cLinesOfAll 0 compilation.statements)) ++ "\n" := by
  rw [Compilation.code, if_pos succeeded]
  rfl

theorem pieces_code {options : Options} {file : Option String} {source : String}
    {compilation : Compilation} (result : (compile options file source).result = .ok compilation)
    (succeeded : compilation.succeeded = true) :
    pieces compilation.code.toList =
      (frame compilation.names (Stmt.cLinesOfAll 0 compilation.statements)).map String.toList ++
        [[]] := by
  have nests := Stmt.nests_cLinesOfAll 0 _ (allWritable_of_succeeded result succeeded)
  rw [code_of_succeeded succeeded]
  apply pieces_intercalate
  · simp [frame]
  · apply single_of_mem_frame
    · intro name listed
      apply single_of_inline
      exact inline_of_isIdentifier (isIdentifier_of_mem_names result succeeded name listed)
    · intro line found
      obtain ⟨before, after, split⟩ := List.append_of_mem found
      rw [split] at nests
      exact nests.middle.2

/-- The text of a program that was compiled without a fault is the frame of its variables around a
body. C reads the body as the statements of the program, with the texts of their expressions, and as
no others. Each line of the body is indented by the braces open before it, and all of them are
closed. -/
theorem code_keeps_statements {options : Options} {file : Option String} {source : String}
    {compilation : Compilation} (result : (compile options file source).result = .ok compilation)
    (succeeded : compilation.succeeded = true) :
    ∃ body : List String,
      pieces compilation.code.toList = (frame compilation.names body).map String.toList ++ [[]] ∧
      (∃ tokens, tokens? ("\n".intercalate body).toList = some tokens ∧
        ∀ read, DerivesAll tokens read ↔ read = Stmt.cStatements compilation.statements) ∧
      (∀ before line after, body = before ++ line :: after → IsIndented (openBraces before) line) ∧
      openBraces body = 0 := by
  have writable := allWritable_of_succeeded result succeeded
  have nests := Stmt.nests_cLinesOfAll 0 compilation.statements writable
  refine ⟨Stmt.cLinesOfAll 0 compilation.statements, pieces_code result succeeded, ?_, ?_, ?_⟩
  · obtain ⟨tokens, cut, derives⟩ := Stmt.exists_derivesAll 0 compilation.statements writable
    refine ⟨tokens, cut.cuts.tokens?, fun read => ⟨fun other => other.unique derives, ?_⟩⟩
    rintro rfl
    exact derives
  · intro before line after split
    rw [split] at nests
    have middle := nests.middle.1
    rwa [Int.natCast_zero, Int.zero_add] at middle
  · have final := nests.openBraces
    omega

/-- A chain inside a loop, with a choice without an `else` inside one of its bodies. -/
def nestedSource : String :=
  "n = 1\nwhile n < 9:\n  if n == 4:\n    break\n  elif not n == 3:\n    if n:\n      m = n\n" ++
    "    n = n + 1\n  else:\n    n = 4.5\n"

def nestedLines : List String :=
  ["n = 1;", "while (n < 9) \x7b", "    if (n == 4) \x7b", "        break;",
    "    \x7d else if (!(n == 3)) \x7b", "        if (n) \x7b", "            m = n;", "        \x7d",
    "        n = n + 1;", "    \x7d else \x7b", "        n = 4.5;", "    \x7d", "\x7d"]

theorem code_keeps_statements_nested :
    ∃ compilation, (compile {} none nestedSource).result = .ok compilation ∧
      compilation.succeeded = true ∧ compilation.names = ["n", "m"] ∧
      Stmt.cLinesOfAll 0 compilation.statements = nestedLines ∧
      ∃ body : List String,
        pieces compilation.code.toList = (frame compilation.names body).map String.toList ++ [[]] ∧
        (∃ tokens, tokens? ("\n".intercalate body).toList = some tokens ∧
          ∀ read, DerivesAll tokens read ↔ read = Stmt.cStatements compilation.statements) ∧
        (∀ before line after, body = before ++ line :: after → IsIndented (openBraces before) line) ∧
        openBraces body = 0 := by
  have compiled : (compile {} none nestedSource).result.toOption.map (fun compilation =>
      (compilation.succeeded, compilation.names, Stmt.cLinesOfAll 0 compilation.statements)) =
      some (true, ["n", "m"], nestedLines) := by
    decide +kernel
  cases result : (compile {} none nestedSource).result with
  | error problem =>
    rw [result] at compiled
    cases compiled
  | ok compilation =>
    rw [result] at compiled
    simp only [Except.toOption, Option.map_some, Option.some.injEq, Prod.mk.injEq] at compiled
    exact ⟨compilation, rfl, compiled.1, compiled.2.1, compiled.2.2,
      code_keeps_statements result compiled.1⟩

end Offside
