import Offside.Proofs.CText.Program
import Offside.Proofs.Scanner.Places

/-!
The numbers in the text of a program. A comment and what stands between quotes are no code; the rest of
the text is cut into tokens, and the numbers among them are the literals of the program in their order.
-/

namespace Offside

namespace C

/-- Where a text of C is read: in the code, behind a slash there, in a comment, behind an asterisk there,
in a comment that ends with its line, between quotes, and behind a backslash there. -/
inductive Region where
  | code
  | slash
  | comment
  | asterisk
  | line
  | quoted (mark : Char)
  | escaped (mark : Char)

def isQuote (c : Char) : Bool := "\"'".toList.contains c

/-- Where the text behind a character is read, and what is code up to there. A comment, or what stands
between quotes, is a blank. -/
def Region.step : Region → Char → Region × List Char
  | code, c =>
    if c = '/' then (slash, []) else if isQuote c then (quoted c, [' ']) else (code, [c])
  | slash, c =>
    if c = '*' then (comment, [' '])
    else if c = '/' then (line, [' '])
    else if isQuote c then (quoted c, ['/', ' '])
    else (code, ['/', c])
  | comment, c => (if c = '*' then asterisk else comment, [])
  | asterisk, c => (if c = '/' then code else if c = '*' then asterisk else comment, [])
  | line, c => if c = '\n' then (code, [c]) else (line, [])
  | quoted mark, c => (if c = '\\' then escaped mark else if c = mark then code else quoted mark, [])
  | escaped mark, _ => (quoted mark, [])

def codeFrom : Region → List Char → List Char
  | .slash, [] => ['/']
  | _, [] => []
  | region, c :: rest => (region.step c).2 ++ codeFrom (region.step c).1 rest

/-- A text whose code is this one, whatever stands behind it. -/
def HasCode (text code : List Char) : Prop :=
  ∀ rest, codeFrom .code (text ++ rest) = code ++ codeFrom .code rest

theorem HasCode.append {front back code other : List Char} (first : HasCode front code)
    (second : HasCode back other) : HasCode (front ++ back) (code ++ other) := by
  intro rest
  rw [List.append_assoc, first, second, List.append_assoc]

abbrev IsBare (text : List Char) : Prop := HasCode text text

def opensNothing (c : Char) : Bool := c ≠ '/' && !isQuote c

theorem isBare_of_opensNothing {text : List Char} (plain : ∀ c ∈ text, opensNothing c = true) :
    IsBare text := by
  intro rest
  induction text with
  | nil => rfl
  | cons c others ih =>
    rw [List.forall_mem_cons, opensNothing, Bool.and_eq_true, Bool.not_eq_true', decide_eq_true_eq] at plain
    rw [List.cons_append, List.cons_append, codeFrom, Region.step, if_neg plain.1.1,
      if_neg (by simp [plain.1.2]), ih plain.2]
    rfl

theorem isBare_blanks (count : Nat) : IsBare (List.replicate count ' ') := by
  apply isBare_of_opensNothing
  intro c found
  rw [List.eq_of_mem_replicate found]
  rfl

theorem opensNothing_of_class {p : Char → Bool} {c : Char} (inside : p c = true)
    (outside : "/\"'".toList.any p = false) : opensNothing c = true := by
  have other : c ∉ "/\"'".toList := by
    intro found
    rw [List.any_eq_false] at outside
    exact outside c found inside
  simpa [opensNothing, isQuote] using other

theorem isBare_of_isIdentifier {text : List Char} (identifier : isIdentifier text = true) :
    IsBare text := by
  apply isBare_of_opensNothing
  intro c found
  exact opensNothing_of_class (isWordPart_of_isIdentifier identifier c found) rfl

theorem isBare_of_isNumeral {text : List Char} (numeral : isNumeral text = true) : IsBare text := by
  apply isBare_of_opensNothing
  intro c found
  obtain ⟨before, continues⟩ := exists_continues_of_mem numeral c found
  exact opensNothing_of_class (p := continuesNumber before) continues rfl

def Token.number? : Token → Option String
  | number text => some text
  | _ => none

def numbersIn (tokens : List Token) : List String := tokens.filterMap Token.number?

@[simp]
theorem numbersIn_nil : numbersIn [] = [] := rfl

@[simp]
theorem numbersIn_word (text : String) (rest : List Token) :
    numbersIn (.word text :: rest) = numbersIn rest :=
  rfl

@[simp]
theorem numbersIn_number (text : String) (rest : List Token) :
    numbersIn (.number text :: rest) = text :: numbersIn rest :=
  rfl

@[simp]
theorem numbersIn_mark (text : String) (rest : List Token) :
    numbersIn (.mark text :: rest) = numbersIn rest :=
  rfl

@[simp]
theorem numbersIn_append (early late : List Token) :
    numbersIn (early ++ late) = numbersIn early ++ numbersIn late :=
  List.filterMap_append

def HasNumbers (text : List Char) (numbers : List String) : Prop :=
  ∃ code tokens, HasCode text code ∧ Cuts code tokens ∧ numbersIn tokens = numbers

theorem HasNumbers.append {front back : List Char} {numbers others : List String}
    (first : HasNumbers front numbers) (second : HasNumbers back others) :
    HasNumbers (front ++ back) (numbers ++ others) := by
  obtain ⟨code, tokens, has, cuts, rfl⟩ := first
  obtain ⟨code', tokens', has', cuts', rfl⟩ := second
  exact ⟨_, _, has.append has', cuts.append cuts', numbersIn_append _ _⟩

theorem HasNumbers.exists_tokens {text : List Char} {numbers : List String}
    (has : HasNumbers text numbers) :
    ∃ tokens, tokens? (codeFrom .code text) = some tokens ∧ numbersIn tokens = numbers := by
  obtain ⟨code, tokens, has, cuts, found⟩ := has
  have whole := has []
  rw [List.append_nil, codeFrom, List.append_nil] at whole
  · exact ⟨tokens, whole ▸ cuts.tokens?, found⟩
  · simp

def endedLines (lines : List String) : List Char := lines.flatMap fun line => line.toList ++ ['\n']

theorem endedLines_append (early late : List String) :
    endedLines (early ++ late) = endedLines early ++ endedLines late :=
  List.flatMap_append

theorem endedLines_cons (line : String) (rest : List String) :
    endedLines (line :: rest) = endedLines [line] ++ endedLines rest :=
  endedLines_append [line] rest

theorem hasNumbers_line {line : String} {tokens : List Token} (bare : IsBare line.toList)
    (cuts : Cuts line.toList tokens) : HasNumbers (endedLines [line]) (numbersIn tokens) := by
  have single : endedLines [line] = line.toList ++ ['\n'] := List.append_nil _
  have feed : IsBare ['\n'] := fun rest => rfl
  rw [single]
  refine ⟨_, _, bare.append feed, cuts.append (cuts_blank rfl), ?_⟩
  rw [List.append_nil]

theorem hasNumbers_lines {lines : List String} (each : ∀ line ∈ lines, HasNumbers (endedLines [line]) []) :
    HasNumbers (endedLines lines) [] := by
  induction lines with
  | nil => exact ⟨[], [], fun rest => rfl, cuts_nil, rfl⟩
  | cons line rest ih =>
    rw [List.forall_mem_cons] at each
    rw [endedLines_cons]
    exact each.1.append (ih each.2)

end C

open C

theorem BinaryOp.isBare_cText (op : BinaryOp) : IsBare (op.cText.toList ++ [' ']) := by
  cases op <;> exact fun rest => rfl

theorem Expr.isBare_cChars {expr : Expr} (lexical : expr.IsLexical) : IsBare expr.cChars := by
  have fixed (text : List Char) (plain : text.all opensNothing = true) : IsBare text :=
    isBare_of_opensNothing (List.all_eq_true.mp plain)
  induction expr with
  | literal value place => exact isBare_of_isNumeral (Literal.isNumeral_cText lexical)
  | name text place => exact isBare_of_isIdentifier lexical
  | unary op operand place ih =>
    have inner := ih lexical
    cases op with
    | not =>
      rw [cChars]
      split
      · exact ((fixed ['!', '('] rfl).append inner).append (fixed [')'] rfl)
      · exact (fixed ['!'] rfl).append inner
    | negate =>
      rw [cChars]
      split
      · exact ((fixed ['-', '('] rfl).append inner).append (fixed [')'] rfl)
      · exact (fixed ['-'] rfl).append inner
  | binary op left right ihLeft ihRight =>
    have whole := (((ihLeft lexical.1).append (fixed [' '] rfl)).append op.isBare_cText).append
      (ihRight lexical.2)
    simpa [cChars] using whole
  | group inner place ih => exact ((fixed ['('] rfl).append (ih lexical)).append (fixed [')'] rfl)

def Lexeme.literal? : Lexeme → Option Literal
  | (.integer, .integer value) => some (.integer value)
  | (.float, .float value) => some (.float value)
  | (.boolean, .integer value) => some (.boolean (value ≠ 0))
  | _ => none

def numberTexts (lexemes : List Lexeme) : List String :=
  (lexemes.filterMap Lexeme.literal?).map Literal.cText

@[simp]
theorem numberTexts_append (early late : List Lexeme) :
    numberTexts (early ++ late) = numberTexts early ++ numberTexts late := by
  rw [numberTexts, List.filterMap_append, List.map_append]
  rfl

@[simp]
theorem numberTexts_bare (kind : Kind) (rest : List Lexeme) :
    numberTexts (kind.bare :: rest) = numberTexts rest := by
  cases kind <;> rfl

@[simp]
theorem numberTexts_name (text : String) (rest : List Lexeme) :
    numberTexts ((.name, .text text) :: rest) = numberTexts rest :=
  rfl

@[simp]
theorem numberTexts_nil : numberTexts [] = [] := rfl

theorem Literal.literal?_lexeme (value : Literal) : value.lexeme.literal? = some value := by
  cases value with
  | boolean truth => cases truth <;> rfl
  | _ => rfl

theorem Expr.numbersIn_cTokens (expr : Expr) : numbersIn expr.cTokens = numberTexts expr.lexemes := by
  induction expr with
  | literal value place =>
    rw [cTokens, numbersIn_number, lexemes, numberTexts, List.filterMap_cons_some value.literal?_lexeme]
    rfl
  | name text place => rfl
  | unary op operand place ih =>
    cases op with
    | not =>
      rw [cTokens]
      split <;> simp [lexemes, ih]
    | negate =>
      rw [cTokens]
      split <;> simp [lexemes, ih]
  | binary op left right ihLeft ihRight => simp [cTokens, lexemes, ihLeft, ihRight]
  | group inner place ih => simp [cTokens, lexemes, ih]

namespace Stmt

@[simp]
theorem numberTexts_blockLexemes (body : List Lexeme) :
    numberTexts (blockLexemes body) = numberTexts body := by
  simp [blockLexemes]

theorem isBare_cLine (depth : Nat) {text : String} (bare : IsBare text.toList) :
    IsBare (cLine depth text).toList := by
  rw [cLine, String.toList_append, String.toList_ofList]
  exact (isBare_blanks (4 * depth)).append bare

theorem hasNumbers_cLine (text : String) {tokens : List C.Token} (depth : Nat) (bare : IsBare text.toList)
    (cuts : Cuts text.toList tokens) : HasNumbers (endedLines [cLine depth text]) (numbersIn tokens) :=
  hasNumbers_line (isBare_cLine depth bare) (cuts_cLine depth cuts)

theorem hasNumbers_header {opening : String} {words : List C.Token} (starts : Cuts opening.toList words)
    (bare : IsBare opening.toList) (none : numbersIn words = []) {guard : Expr}
    (writable : guard.IsWritable) (depth : Nat) :
    HasNumbers (endedLines [cLine depth (opening ++ guard.cText ++ ") \x7b")])
      (numberTexts guard.lexemes) := by
  have closing : IsBare ") \x7b".toList := fun rest => rfl
  have whole : IsBare (opening ++ guard.cText ++ ") \x7b").toList := by
    rw [String.toList_append, String.toList_append, Expr.toList_cText]
    exact (bare.append (Expr.isBare_cChars writable.1)).append closing
  have read := hasNumbers_line (isBare_cLine depth whole) (cuts_header starts writable depth)
  simpa [none, guard.numbersIn_cTokens] using read

theorem hasNumbers_closing (depth : Nat) : HasNumbers (endedLines [cLine depth "\x7d"]) [] :=
  hasNumbers_cLine "\x7d" depth (fun _ => rfl) cuts_closeBrace

mutual

theorem hasNumbers_cLines (depth : Nat) : (stmt : Stmt) → stmt.IsWritable →
    HasNumbers (endedLines (stmt.cLines depth)) (numberTexts stmt.lexemes)
  | assign target value place, writable => by
    obtain ⟨identifier, -, readable⟩ := writable
    have text : (target ++ " = " ++ value.cText ++ ";").toList =
        (target.toList ++ [' ']) ++ ['=', ' '] ++ (value.cChars ++ [';']) := by
      simp only [String.toList_append, Expr.toList_cText, List.append_assoc]
      rfl
    have cuts := ((cuts_word target ' ' identifier rfl (cuts_blank rfl)).append cuts_assign).append
      (cuts_expr readable.1 rfl cuts_semicolon)
    have bare : IsBare (target ++ " = " ++ value.cText ++ ";").toList := by
      have assign : IsBare " = ".toList := fun _ => rfl
      have ending : IsBare ";".toList := fun _ => rfl
      rw [String.toList_append, String.toList_append, String.toList_append, Expr.toList_cText]
      exact (((isBare_of_isIdentifier identifier).append assign).append
        (Expr.isBare_cChars readable.1)).append ending
    rw [← text] at cuts
    have read := hasNumbers_cLine _ depth bare cuts
    simpa [cLines, lexemes, value.numbersIn_cTokens] using read
  | choose arms place, writable =>
    hasNumbers_cLinesOfArms depth .ifWord cuts_if (fun _ => rfl) rfl arms writable.2
  | loop condition body place, writable => by
    have header := hasNumbers_header cuts_while (fun _ => rfl) rfl writable.1 depth
    have block := hasNumbers_cLinesOfAll (depth + 1) body writable.2
    have whole := (header.append block).append (hasNumbers_closing depth)
    rw [← endedLines_cons, ← endedLines_append] at whole
    simpa [cLines, lexemes] using whole
  | leave place, _ =>
    hasNumbers_cLine "break;" depth (fun _ => rfl) (cuts_word "break" ';' rfl rfl cuts_semicolon)

theorem hasNumbers_cLinesOfAll (depth : Nat) : (stmts : List Stmt) → AllWritable stmts →
    HasNumbers (endedLines (cLinesOfAll depth stmts)) (numberTexts (lexemesOfAll stmts))
  | [], _ => hasNumbers_lines (List.forall_mem_nil _)
  | first :: rest, writable => by
    rw [cLinesOfAll, endedLines_append, lexemesOfAll, numberTexts_append]
    exact (hasNumbers_cLines depth first writable.1).append (hasNumbers_cLinesOfAll depth rest writable.2)

theorem hasNumbers_cLinesOfArms (depth : Nat) (word : Kind) {opening : String} {words : List C.Token}
    (starts : Cuts opening.toList words) (bare : IsBare opening.toList) (none : numbersIn words = []) :
    (arms : Arms Expr Stmt) → ArmsWritable arms →
    HasNumbers (endedLines (cLinesOfArms depth opening arms)) (numberTexts (lexemesOfArms word arms))
  | .done, _ => hasNumbers_closing depth
  | .otherwise body, writable => by
    have header := hasNumbers_cLine _ depth (fun _ => rfl) cuts_else
    have block := hasNumbers_cLinesOfAll (depth + 1) body writable
    have whole := (header.append block).append (hasNumbers_closing depth)
    rw [← endedLines_cons, ← endedLines_append] at whole
    simpa [cLinesOfArms, lexemesOfArms] using whole
  | .arm guard body rest, writable => by
    have header := hasNumbers_header starts bare none writable.1 depth
    have block := hasNumbers_cLinesOfAll (depth + 1) body writable.2.1
    have others := hasNumbers_cLinesOfArms depth .elifWord cuts_elseIf (fun _ => rfl) rfl rest writable.2.2
    have whole := (header.append block).append others
    rw [← endedLines_cons, ← endedLines_append] at whole
    simpa [cLinesOfArms, lexemesOfArms] using whole

end

end Stmt

namespace C

theorem cuts_cons {c : Char} {text after : List Char} {token : Token} {tokens : List Token}
    (later : Cuts after tokens) (visible : isBlank c = false)
    (found : ∀ rest, next? c (text ++ rest) = some (token, after ++ rest)) :
    Cuts (c :: text) (token :: tokens) := by
  intro rest
  rw [List.cons_append, tokens?_cons visible (found rest), later, Option.map_map]
  rfl

theorem hasNumbers_include : HasNumbers (endedLines ["#include <stdio.h>"]) [] := by
  have ending : Cuts ">\n".toList [.mark ">"] := cuts_cons (cuts_blank (c := '\n') rfl) rfl fun _ => rfl
  have file : Cuts "stdio.h>\n".toList [.word "stdio", .mark ".", .word "h", .mark ">"] :=
    cuts_cons (cuts_cons (cuts_cons ending rfl fun _ => rfl) rfl fun _ => rfl) rfl fun _ => rfl
  have named : Cuts " <stdio.h>\n".toList (.mark "<" :: [.word "stdio", .mark ".", .word "h", .mark ">"]) :=
    (cuts_blank rfl).append (cuts_cons file rfl fun _ => rfl)
  have whole : Cuts "#include <stdio.h>\n".toList
      (.mark "#" :: .word "include" :: .mark "<" :: [.word "stdio", .mark ".", .word "h", .mark ">"]) :=
    cuts_cons (cuts_cons named rfl fun _ => rfl) rfl fun _ => rfl
  exact ⟨_, _, fun _ => rfl, whole, rfl⟩

theorem hasNumbers_main : HasNumbers (endedLines ["int main() \x7b"]) [] := by
  have brace : Cuts " \x7b\n".toList [.mark "\x7b"] :=
    (cuts_blank rfl).append (cuts_openBrace.append (cuts_blank rfl))
  have parens : Cuts "() \x7b\n".toList [.mark "(", .mark ")", .mark "\x7b"] :=
    cuts_openParen.append (cuts_closeParen.append brace)
  have main : Cuts "main() \x7b\n".toList [.word "main", .mark "(", .mark ")", .mark "\x7b"] :=
    cuts_cons parens rfl fun _ => rfl
  have whole := (cuts_word "int" ' ' rfl rfl (cuts_blank rfl)).append main
  exact ⟨_, _, fun _ => rfl, whole, rfl⟩

theorem hasNumbers_declaration {name : String} (identifier : isIdentifier name.toList = true) :
    HasNumbers (endedLines ["double " ++ name ++ ";"]) [] := by
  have bare : IsBare ("double " ++ name ++ ";").toList := by
    have word : IsBare "double ".toList := fun _ => rfl
    have ending : IsBare ";".toList := fun _ => rfl
    rw [String.toList_append, String.toList_append]
    exact (word.append (isBare_of_isIdentifier identifier)).append ending
  have cuts := (cuts_word "double" ' ' rfl rfl (cuts_blank rfl)).append
    (cuts_word name ';' identifier rfl cuts_semicolon)
  have text : ("double " ++ name ++ ";").toList = "double".toList ++ [' '] ++ (name.toList ++ [';']) := by
    simp
  rw [← text] at cuts
  exact hasNumbers_line bare cuts

theorem codeFrom_quoted {name : List Char} (identifier : isIdentifier name = true) (rest : List Char) :
    codeFrom (.quoted '"') (name ++ rest) = codeFrom (.quoted '"') rest := by
  have inside : ∀ c ∈ name, c ≠ '"' ∧ c ≠ '\\' := fun c found =>
    ⟨ne_of_class (isWordPart_of_isIdentifier identifier c found) rfl,
      ne_of_class (isWordPart_of_isIdentifier identifier c found) rfl⟩
  clear identifier
  induction name with
  | nil => rfl
  | cons c others ih =>
    rw [List.forall_mem_cons] at inside
    rw [List.cons_append, codeFrom, Region.step, if_neg inside.1.2, if_neg inside.1.1, ih inside.2]
    rfl

theorem hasNumbers_printing {name : String} (identifier : isIdentifier name.toList = true) :
    HasNumbers (endedLines ["printf(\"" ++ name ++ ": %lf\\n\", " ++ name ++ ");"]) [] := by
  have code : HasCode (endedLines ["printf(\"" ++ name ++ ": %lf\\n\", " ++ name ++ ");"])
      ("printf( , ".toList ++ name.toList ++ ");\n".toList) := by
    have front : HasCode ("printf(\"".toList ++ name.toList ++ ": %lf\\n\", ".toList)
        "printf( , ".toList := by
      intro rest
      have opened (rest : List Char) : codeFrom .code ("printf(\"".toList ++ rest) =
          "printf( ".toList ++ codeFrom (.quoted '"') rest := rfl
      have closed (rest : List Char) : codeFrom (.quoted '"') (": %lf\\n\", ".toList ++ rest) =
          ", ".toList ++ codeFrom .code rest := rfl
      rw [List.append_assoc, List.append_assoc, opened, codeFrom_quoted identifier, closed]
      rfl
    have ending : IsBare ");\n".toList := fun _ => rfl
    have whole := (front.append (isBare_of_isIdentifier identifier)).append ending
    simpa [endedLines] using whole
  have printf : Cuts "printf( , ".toList [.word "printf", .mark "(", .mark ","] := by
    have comma : Cuts ", ".toList [.mark ","] := cuts_cons (cuts_blank (c := ' ') rfl) rfl fun _ => rfl
    have parens : Cuts "( , ".toList [.mark "(", .mark ","] :=
      cuts_openParen.append ((cuts_blank (c := ' ') rfl).append comma)
    exact cuts_cons parens rfl fun _ => rfl
  have ending : Cuts ";\n".toList [.mark ";"] := cuts_semicolon.append (cuts_blank rfl)
  have cuts := (printf.append (cuts_word name ')' identifier rfl cuts_closeParen)).append ending
  refine ⟨_, [.word "printf", .mark "(", .mark ",", .word name, .mark ")", .mark ";"], code, ?_, rfl⟩
  simpa using cuts

theorem cuts_allBlank {text : List Char} (blank : text.all isBlank = true) : Cuts text [] := by
  induction text with
  | nil => exact cuts_nil
  | cons c rest ih =>
    rw [List.all_cons, Bool.and_eq_true] at blank
    exact (cuts_blank blank.1).append (ih blank.2)

theorem hasNumbers_frame {names body numbers : List String}
    (identifiers : ∀ name ∈ names, isIdentifier name.toList = true)
    (inside : HasNumbers (endedLines body) numbers) :
    HasNumbers (endedLines (frame names body)) numbers := by
  have begins : HasNumbers (endedLines ["", "/* Begin program */", ""]) [] :=
    ⟨"\n \n\n".toList, [], fun _ => rfl, cuts_allBlank rfl, rfl⟩
  have ends : HasNumbers (endedLines ["/* End program */", ""]) [] :=
    ⟨" \n\n".toList, [], fun _ => rfl, cuts_allBlank rfl, rfl⟩
  have closes : HasNumbers (endedLines ["\x7d"]) [] := Stmt.hasNumbers_closing 0
  have declares : HasNumbers (endedLines (names.map fun name => "double " ++ name ++ ";")) [] :=
    hasNumbers_lines (List.forall_mem_map.mpr fun name listed =>
      hasNumbers_declaration (identifiers name listed))
  have prints : HasNumbers (endedLines (names.map fun name =>
      "printf(\"" ++ name ++ ": %lf\\n\", " ++ name ++ ");")) [] :=
    hasNumbers_lines (List.forall_mem_map.mpr fun name listed =>
      hasNumbers_printing (identifiers name listed))
  have whole := ((((((hasNumbers_include.append hasNumbers_main).append declares).append begins).append
    inside).append ends).append prints).append closes
  simp only [List.nil_append, List.append_nil, ← endedLines_append] at whole
  exact whole

end C

theorem toList_lines {lines : List String} (some : lines ≠ []) :
    ("\n".intercalate lines ++ "\n").toList = endedLines lines := by
  obtain ⟨early, last, rfl⟩ := (List.eq_nil_or_concat lines).resolve_left some
  have joined := intercalate_lineFeed (early.map String.toList) last.toList []
  rw [String.toList_append, String.toList_intercalate, show "\n".toList = ['\n'] from rfl,
    List.concat_eq_append, List.map_append, List.map_singleton, joined, endedLines_append]
  simp [endedLines, List.flatMap_map]

/-- The numbers in the text of a program that was compiled without a fault are its literals. -/
theorem hasNumbers_code {options : Options} {file : Option String} {source : String}
    {compilation : Compilation} (result : (compile options file source).result = .ok compilation)
    (succeeded : compilation.succeeded = true) :
    HasNumbers compilation.code.toList (numberTexts (Stmt.lexemesOfAll compilation.statements)) := by
  rw [code_of_succeeded succeeded, toList_lines (by simp [frame])]
  exact hasNumbers_frame (isIdentifier_of_mem_names result succeeded)
    (Stmt.hasNumbers_cLinesOfAll 0 _ (allWritable_of_succeeded result succeeded))

end Offside
