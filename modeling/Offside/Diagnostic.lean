import Offside.Location

/-!
Faults found in a program, and how they are shown: a header with the place, the source line with a
caret under the column, and a hint.
-/

namespace Offside

inductive Stage where
  | lexical
  | grammatical
  | semantic
deriving DecidableEq, Repr

inductive Cause where
  /-- A fault given by its wording, with or without a stage. -/
  | general (stage : Option Stage) (message : String) (hint : Option String)
  /-- A whole run that failed, given by its report. -/
  | failed (report : String)
  | misalignedDedent (width enclosing : Nat)
  | tooManyLevels (limit : Int)
  | unknownCharacter (char : Char)
  | numberOutOfRange (lexeme : String)
  | unexpectedToken (found : String) (expected : Option String)
  | strayIndent
  | expressionTooDeep (limit : Int)
  | undefinedVariable (name : String) (similar : List String)
deriving DecidableEq, Repr

namespace Cause

def stage : Cause → Option Stage
  | general stage _ _ => stage
  | failed _ => none
  | misalignedDedent _ _ | tooManyLevels _ | unknownCharacter _ | numberOutOfRange _ => some .lexical
  | unexpectedToken _ _ | strayIndent | expressionTooDeep _ => some .grammatical
  | undefinedVariable _ _ => some .semantic

def label : Cause → String
  | general none _ _ => "TranslationError"
  | general (some .lexical) _ _ => "LexicalError"
  | general (some .grammatical) _ _ => "ParseError"
  | general (some .semantic) _ _ => "SemanticError"
  | failed _ => "TranslationFailedError"
  | misalignedDedent _ _ => "IndentationMismatchError"
  | tooManyLevels _ => "IndentationOverflowError"
  | unknownCharacter _ => "InvalidCharacterError"
  | numberOutOfRange _ => "NumberOutOfRangeError"
  | unexpectedToken _ _ => "UnexpectedTokenError"
  | strayIndent => "StrayIndentError"
  | expressionTooDeep _ => "ExpressionTooDeepError"
  | undefinedVariable _ _ => "UndefinedVariableError"

def codePoint (char : Char) : String :=
  let digits := (Nat.toDigits 16 char.toNat).map Char.toUpper
  String.ofList (if digits.length < 2 then '0' :: digits else digits)

def shownLiteral (lexeme : String) : String :=
  if lexeme.length ≤ 24 then lexeme else String.ofList (lexeme.toList.take 20) ++ "..."

def message : Cause → String
  | general _ message _ => message
  | failed report => report
  | misalignedDedent width _ =>
    "unindent to width " ++ toString width ++ " does not match any outer indentation level"
  | tooManyLevels limit => "too many indentation levels (maximum is " ++ toString limit ++ ")"
  | unknownCharacter char =>
    "unrecognized character '" ++ String.singleton char ++ "' (0x" ++ codePoint char ++ ")"
  | numberOutOfRange lexeme => "numeric literal " ++ shownLiteral lexeme ++ " is out of range"
  | unexpectedToken found _ => "syntax error at " ++ found
  | strayIndent => "unexpected indent"
  | expressionTooDeep limit =>
    "expression nested too deeply (maximum is " ++ toString limit ++ " levels)"
  | undefinedVariable name _ => "undefined variable '" ++ name ++ "'"

def suggestions (names : List String) : String :=
  ", ".intercalate ((names.take 3).map fun name => "'" ++ name ++ "'")

def hint : Cause → Option String
  | general _ _ hint => hint
  | misalignedDedent _ enclosing =>
    some ("the enclosing block is indented to width " ++ toString enclosing)
  | numberOutOfRange _ =>
    some "integers must not exceed 9223372036854775807 and floats must be finite"
  | unexpectedToken _ (some expected) => if expected = "" then none else some ("expected " ++ expected)
  | strayIndent => some "only the body of 'if', 'elif', 'else' and 'while' may be indented"
  | expressionTooDeep _ => some "split the expression over several assignments"
  | undefinedVariable _ similar =>
    if similar = [] then none else some ("did you mean " ++ suggestions similar ++ "?")
  | _ => none

end Cause

structure Diagnostic where
  cause : Cause
  place : Option Location
  line : Option String
deriving DecidableEq, Repr

namespace Diagnostic

def header (problem : Diagnostic) : String :=
  match problem.place with
  | some place => place.text ++ ": error: " ++ problem.cause.message
  | none => "error: " ++ problem.cause.message

/-- The caret stands under the column; a column below one has none. -/
def caret (column : Int) : List String :=
  if 0 < column then [String.ofList (List.replicate (4 + column.toNat - 1) ' ' ++ ['^'])] else []

def excerpt (problem : Diagnostic) : List String :=
  match problem.place, problem.line with
  | some place, some line => ("    " ++ line) :: caret place.column
  | _, _ => []

def advice (problem : Diagnostic) : List String :=
  match problem.cause.hint with
  | some hint => if hint = "" then [] else ["hint: " ++ hint]
  | none => []

/-- A failed run is shown by its report alone. -/
def text (problem : Diagnostic) : String :=
  match problem.cause with
  | .failed report => report
  | _ => "\n".intercalate (problem.header :: problem.excerpt ++ problem.advice)

def report (problems : List Diagnostic) : String :=
  let word := if problems.length = 1 then " error" else " errors"
  "\n".intercalate (problems.flatMap (fun problem => [problem.text, ""]) ++
    [toString problems.length ++ word])

end Diagnostic

end Offside
