import Offside.Proofs.CText.Statement
import Offside.Proofs.Scanner.Payload

/-!
The lines that statements are written in. Cut into tokens they are read as the same statements, and
each stands four columns deeper for every brace that is open before it.
-/

namespace Offside

namespace C

def tokensOf (text : String) : List Token := (tokens? text.toList).getD []

/-- A text that is cut into these tokens, whatever stands behind it. -/
def Cuts (text : List Char) (tokens : List Token) : Prop :=
  ∀ rest, tokens? (text ++ rest) = (tokens? rest).map (tokens ++ ·)

theorem Cuts.append {front back : List Char} {tokens others : List Token} (first : Cuts front tokens)
    (second : Cuts back others) : Cuts (front ++ back) (tokens ++ others) := by
  intro rest
  rw [List.append_assoc, first, second, Option.map_map]
  congr 1
  funext later
  exact (List.append_assoc tokens others later).symm

theorem Cuts.tokens? {text : List Char} {tokens : List Token} (cuts : Cuts text tokens) :
    tokens? text = some tokens := by
  have whole := cuts []
  rwa [List.append_nil, C.tokens?, Option.map_some, List.append_nil] at whole

theorem cuts_nil : Cuts [] [] := by
  intro rest
  exact Option.map_id'.symm

theorem cuts_blank {c : Char} (blank : isBlank c = true) : Cuts [c] [] := by
  intro rest
  rw [List.singleton_append, tokens?_blank blank]
  exact Option.map_id'.symm

theorem cuts_blanks (count : Nat) : Cuts (List.replicate count ' ') [] := by
  induction count with
  | zero => exact cuts_nil
  | succ count ih => exact (cuts_blank rfl).append ih

theorem cuts_openBrace : Cuts ['\x7b'] [.mark "\x7b"] := fun _ => tokens?_mark rfl rfl rfl rfl rfl

theorem cuts_closeBrace : Cuts ['\x7d'] [.mark "\x7d"] := fun _ => tokens?_mark rfl rfl rfl rfl rfl

theorem cuts_semicolon : Cuts [';'] [.mark ";"] := fun _ => tokens?_mark rfl rfl rfl rfl rfl

theorem cuts_openParen : Cuts ['('] [.mark "("] := tokens?_openParen

theorem cuts_closeParen : Cuts [')'] [.mark ")"] := tokens?_closeParen

theorem cuts_assign : Cuts ['=', ' '] [.mark "="] := by
  intro rest
  rw [← tokens?_blank (show isBlank ' ' = true from rfl) rest]
  exact tokens?_mark rfl rfl rfl rfl rfl

theorem cuts_word (word : String) (stop : Char) {tokens : List Token}
    (identifier : isIdentifier word.toList = true) (closed : isClosed [stop] = true)
    (cuts : Cuts [stop] tokens) : Cuts (word.toList ++ [stop]) (.word word :: tokens) := by
  intro rest
  have stops : isClosed ([stop] ++ rest) = true := closed
  rw [List.append_assoc, tokens?_word identifier stops, cuts, Option.map_map, String.ofList_toList]
  rfl

theorem cuts_expr {expr : Expr} {stop : Char} {tokens : List Token} (lexical : expr.IsLexical)
    (closed : isClosed [stop] = true) (cuts : Cuts [stop] tokens) :
    Cuts (expr.cChars ++ [stop]) (expr.cTokens ++ tokens) := by
  intro rest
  have stops : isClosed ([stop] ++ rest) = true := closed
  rw [List.append_assoc, Expr.tokens?_cChars lexical stops, cuts, Option.map_map]
  congr 1
  funext later
  exact (List.append_assoc expr.cTokens tokens later).symm

theorem cuts_cLine {text : String} {tokens : List Token} (depth : Nat) (cuts : Cuts text.toList tokens) :
    Cuts (Stmt.cLine depth text).toList tokens := by
  rw [Stmt.cLine, String.toList_append, String.toList_ofList]
  exact (cuts_blanks (4 * depth)).append cuts

inductive CutLines : List String → List Token → Prop where
  | nil : CutLines [] []
  | cons {line : String} {rest : List String} {tokens others : List Token}
    (first : Cuts line.toList tokens) (more : CutLines rest others) :
    CutLines (line :: rest) (tokens ++ others)

theorem CutLines.append {lines others : List String} {tokens later : List Token}
    (first : CutLines lines tokens) (second : CutLines others later) :
    CutLines (lines ++ others) (tokens ++ later) := by
  induction first with
  | nil => exact second
  | cons line more ih =>
    rw [List.append_assoc]
    exact .cons line ih

theorem cutLines_singleton {line : String} {tokens : List Token} (cuts : Cuts line.toList tokens) :
    CutLines [line] tokens := by
  rw [← List.append_nil tokens]
  exact .cons cuts .nil

theorem CutLines.cuts {lines : List String} {tokens : List Token} (cut : CutLines lines tokens) :
    Cuts ("\n".intercalate lines).toList tokens := by
  induction cut with
  | nil => exact cuts_nil
  | @cons line rest tokens others first more ih =>
    rw [String.toList_intercalate] at ih ⊢
    cases more with
    | nil =>
      simpa [List.intercalate] using first
    | cons second most =>
      rw [List.map_cons] at ih ⊢
      rw [List.map_cons, List.intercalate_cons_cons]
      have joined := (first.append (cuts_blank (c := '\n') rfl)).append ih
      rwa [List.append_nil] at joined

end C

open C

def Expr.IsWritable (expr : Expr) : Prop := expr.IsLexical ∧ expr.Ordered

theorem Expr.IsWritable.derives {expr : Expr} (writable : expr.IsWritable) :
    Derives 0 expr.cTokens expr.cTree :=
  (derives_cTokens writable.2).mono (Nat.zero_le _)

theorem Expr.IsWritable.tokensOf_cText {expr : Expr} (writable : expr.IsWritable) :
    tokensOf expr.cText = expr.cTokens := by
  rw [tokensOf, tokens?_cText writable.1, Option.getD_some]

theorem Expr.isWritable_of_lexemes {expr : Expr} (canonical : expr.Canonical)
    (sourced : ∀ lexeme ∈ expr.lexemes, lexeme.IsSourced) : expr.IsWritable :=
  ⟨isLexical_of_lexemes fun lexeme found => (sourced lexeme found).1, canonical.1⟩

namespace Stmt

mutual

/-- Every expression can be read back, every target is a variable of C, and every choice has a guarded
body. -/
def IsWritable : Stmt → Prop
  | assign target value _ =>
    isIdentifier target.toList = true ∧ target ∉ C.reserved ∧ value.IsWritable
  | choose arms _ => arms.isGuarded = true ∧ ArmsWritable arms
  | loop condition body _ => condition.IsWritable ∧ AllWritable body
  | leave _ => True

def AllWritable : List Stmt → Prop
  | [] => True
  | first :: rest => first.IsWritable ∧ AllWritable rest

def ArmsWritable : Arms Expr Stmt → Prop
  | .done => True
  | .otherwise body => AllWritable body
  | .arm guard body rest => guard.IsWritable ∧ AllWritable body ∧ ArmsWritable rest

end

mutual

def cStatement : Stmt → Statement
  | assign target value _ => .assign target (tokensOf value.cText)
  | choose arms _ => .choose (cArms arms)
  | loop condition body _ => .loop (tokensOf condition.cText) (cStatements body)
  | leave _ => .leave

def cStatements : List Stmt → List Statement
  | [] => []
  | first :: rest => first.cStatement :: cStatements rest

def cArms : Arms Expr Stmt → Arms (List C.Token) Statement
  | .done => .done
  | .otherwise body => .otherwise (cStatements body)
  | .arm guard body rest => .arm (tokensOf guard.cText) (cStatements body) (cArms rest)

end

theorem mem_keywords_of_reserved : ∀ word ∈ C.reserved, word ∈ keywords := by
  decide

mutual

/-- Canonical statements with lexemes that a source can give can be read back. -/
theorem isWritable_of_lexemes : (stmt : Stmt) → stmt.Canonical →
    (∀ lexeme ∈ stmt.lexemes, lexeme.IsSourced) → stmt.IsWritable
  | assign target value place, canonical, sourced => by
    obtain ⟨lexical, free⟩ := sourced (.name, .text target) (by simp [lexemes])
    refine ⟨lexical, ?_, ?_⟩
    · intro listed
      exact free target (mem_keywords_of_reserved target listed) rfl
    · exact Expr.isWritable_of_lexemes canonical fun lexeme found =>
        sourced lexeme (by simp [lexemes, found])
  | choose arms place, canonical, sourced =>
    ⟨canonical.1, armsWritable_of_lexemes .ifWord arms canonical.2 sourced⟩
  | loop condition body place, canonical, sourced =>
    ⟨Expr.isWritable_of_lexemes canonical.1 fun lexeme found =>
        sourced lexeme (by simp [lexemes, found]),
      allWritable_of_lexemes body canonical.2 fun lexeme found =>
        sourced lexeme (by simp [lexemes, blockLexemes, found])⟩
  | leave place, _, _ => trivial

theorem allWritable_of_lexemes : (stmts : List Stmt) → CanonicalAll stmts →
    (∀ lexeme ∈ lexemesOfAll stmts, lexeme.IsSourced) → AllWritable stmts
  | [], _, _ => trivial
  | first :: rest, canonical, sourced =>
    ⟨isWritable_of_lexemes first canonical.1 fun lexeme found =>
        sourced lexeme (by simp [lexemesOfAll, found]),
      allWritable_of_lexemes rest canonical.2 fun lexeme found =>
        sourced lexeme (by simp [lexemesOfAll, found])⟩

theorem armsWritable_of_lexemes (word : Kind) : (arms : Arms Expr Stmt) → CanonicalArms arms →
    (∀ lexeme ∈ lexemesOfArms word arms, lexeme.IsSourced) → ArmsWritable arms
  | .done, _, _ => trivial
  | .otherwise body, canonical, sourced =>
    allWritable_of_lexemes body canonical fun lexeme found =>
      sourced lexeme (by simp [lexemesOfArms, blockLexemes, found])
  | .arm guard body rest, canonical, sourced =>
    ⟨Expr.isWritable_of_lexemes canonical.1 fun lexeme found =>
        sourced lexeme (by simp [lexemesOfArms, found]),
      allWritable_of_lexemes body canonical.2.1 fun lexeme found =>
        sourced lexeme (by simp [lexemesOfArms, blockLexemes, found]),
      armsWritable_of_lexemes .elifWord rest canonical.2.2 fun lexeme found =>
        sourced lexeme (by simp [lexemesOfArms, found])⟩

end

theorem cuts_header {opening : String} {words : List C.Token} (starts : Cuts opening.toList words)
    {guard : Expr} (writable : guard.IsWritable) (depth : Nat) :
    Cuts (cLine depth (opening ++ guard.cText ++ ") \x7b")).toList
      (words ++ guard.cTokens ++ [.mark ")", .mark "\x7b"]) := by
  have text : (opening ++ guard.cText ++ ") \x7b").toList =
      opening.toList ++ (guard.cChars ++ [')']) ++ ([' '] ++ ['\x7b']) := by
    rw [String.toList_append, String.toList_append, Expr.toList_cText]
    simp
  have cuts := (starts.append (cuts_expr writable.1 rfl cuts_closeParen)).append
    ((cuts_blank (c := ' ') rfl).append cuts_openBrace)
  apply cuts_cLine
  rw [text]
  simpa using cuts

theorem cuts_if : Cuts "if (".toList [.word "if", .mark "("] :=
  (cuts_word "if" ' ' rfl rfl (cuts_blank rfl)).append cuts_openParen

theorem cuts_while : Cuts "while (".toList [.word "while", .mark "("] :=
  (cuts_word "while" ' ' rfl rfl (cuts_blank rfl)).append cuts_openParen

theorem cuts_closeElse : Cuts "\x7d else ".toList [.mark "\x7d", .word "else"] :=
  (cuts_closeBrace.append (cuts_blank (c := ' ') rfl)).append
    (cuts_word "else" ' ' rfl rfl (cuts_blank rfl))

theorem cuts_else : Cuts "\x7d else \x7b".toList [.mark "\x7d", .word "else", .mark "\x7b"] :=
  cuts_closeElse.append cuts_openBrace

theorem cuts_elseIf :
    Cuts "\x7d else if (".toList [.mark "\x7d", .word "else", .word "if", .mark "("] :=
  cuts_closeElse.append cuts_if

theorem cutLines_closing (depth : Nat) : CutLines [cLine depth "\x7d"] [.mark "\x7d"] := by
  apply cutLines_singleton
  apply cuts_cLine
  exact cuts_closeBrace

mutual

theorem exists_derives (depth : Nat) : (stmt : Stmt) → stmt.IsWritable →
    ∃ tokens, CutLines (stmt.cLines depth) tokens ∧ DerivesStatement tokens stmt.cStatement
  | assign target value place, writable => by
    obtain ⟨identifier, free, readable⟩ := writable
    have text : (target ++ " = " ++ value.cText ++ ";").toList =
        (target.toList ++ [' ']) ++ ['=', ' '] ++ (value.cChars ++ [';']) := by
      simp only [String.toList_append, Expr.toList_cText, List.append_assoc]
      rfl
    have cuts := ((cuts_word target ' ' identifier rfl (cuts_blank rfl)).append cuts_assign).append
      (cuts_expr readable.1 rfl cuts_semicolon)
    rw [← text] at cuts
    have derives := DerivesStatement.assign free readable.derives
    rw [← readable.tokensOf_cText] at derives cuts
    exact ⟨_, cutLines_singleton (cuts_cLine depth cuts), derives⟩
  | choose .done place, writable => by cases writable.1
  | choose (.otherwise body) place, writable => by cases writable.1
  | choose (.arm guard body rest) place, writable => by
    obtain ⟨-, readable, bodyWritable, restWritable⟩ := writable
    obtain ⟨inside, bodyCut, block⟩ := exists_derivesAll (depth + 1) body bodyWritable
    obtain ⟨others, restCut, chain⟩ := exists_derivesRest depth rest restWritable
    have cut := (CutLines.cons (cuts_header cuts_if readable depth) bodyCut).append restCut
    have derives := DerivesStatement.choose readable.derives block chain
    rw [← readable.tokensOf_cText] at derives cut
    refine ⟨_, ?_, derives⟩
    simpa [parens, braces, cLines, cLinesOfArms] using cut
  | loop condition body place, writable => by
    obtain ⟨readable, bodyWritable⟩ := writable
    obtain ⟨inside, bodyCut, block⟩ := exists_derivesAll (depth + 1) body bodyWritable
    have cut := (CutLines.cons (cuts_header cuts_while readable depth) bodyCut).append
      (cutLines_closing depth)
    have derives := DerivesStatement.loop readable.derives block
    rw [← readable.tokensOf_cText] at derives cut
    refine ⟨_, ?_, derives⟩
    simpa [parens, braces, cLines] using cut
  | leave place, _ =>
    ⟨_, cutLines_singleton (cuts_cLine depth (cuts_word "break" ';' rfl rfl cuts_semicolon)), .leave⟩

theorem exists_derivesAll (depth : Nat) : (stmts : List Stmt) → AllWritable stmts →
    ∃ tokens, CutLines (cLinesOfAll depth stmts) tokens ∧ DerivesAll tokens (cStatements stmts)
  | [], _ => ⟨[], .nil, .nil⟩
  | first :: rest, writable => by
    obtain ⟨tokens, cut, derives⟩ := exists_derives depth first writable.1
    obtain ⟨others, restCut, more⟩ := exists_derivesAll depth rest writable.2
    exact ⟨tokens ++ others, cut.append restCut, .cons derives more⟩

/-- The lines after a body start with the brace that closes it. -/
theorem exists_derivesRest (depth : Nat) : (arms : Arms Expr Stmt) → ArmsWritable arms →
    ∃ others, CutLines (cLinesOfArms depth "\x7d else if (" arms) (.mark "\x7d" :: others) ∧
      DerivesRest others (cArms arms)
  | .done, _ => ⟨[], cutLines_closing depth, .done⟩
  | .otherwise body, writable => by
    obtain ⟨inside, bodyCut, block⟩ := exists_derivesAll (depth + 1) body writable
    have cut := (CutLines.cons (cuts_cLine depth cuts_else) bodyCut).append
      (cutLines_closing depth)
    refine ⟨_, ?_, .otherwise block⟩
    simpa [braces, cLinesOfArms] using cut
  | .arm guard body rest, writable => by
    obtain ⟨readable, bodyWritable, restWritable⟩ := writable
    obtain ⟨inside, bodyCut, block⟩ := exists_derivesAll (depth + 1) body bodyWritable
    obtain ⟨others, restCut, chain⟩ := exists_derivesRest depth rest restWritable
    have cut := (CutLines.cons (cuts_header cuts_elseIf readable depth)
      bodyCut).append restCut
    have derives := DerivesRest.elseIf readable.derives block chain
    rw [← readable.tokensOf_cText] at derives cut
    refine ⟨_, ?_, derives⟩
    simpa [parens, braces, cLinesOfArms] using cut

end

end Stmt

end Offside
