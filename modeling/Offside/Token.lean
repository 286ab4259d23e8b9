import Offside.Location
import Offside.Binary64.Shortest
import Offside.Text.Quoted

/-! The tokens of the language: their kinds, what they carry, and how they are shown. -/

namespace Offside

inductive Kind where
  | endOfInput
  | endOfLine
  | indent
  | dedent
  | name
  | integer
  | float
  | boolean
  | andWord
  | breakWord
  | elifWord
  | elseWord
  | ifWord
  | notWord
  | orWord
  | whileWord
  | assign
  | plus
  | minus
  | star
  | slash
  | equal
  | unequal
  | greater
  | greaterEqual
  | less
  | lessEqual
  | openParen
  | closeParen
  | comma
  | colon
deriving DecidableEq, Repr

namespace Kind

def label : Kind → String
  | endOfInput => "EOF"
  | endOfLine => "NEWLINE"
  | indent => "INDENT"
  | dedent => "DEDENT"
  | name => "IDENTIFIER"
  | integer => "INTEGER"
  | float => "FLOAT"
  | boolean => "BOOLEAN"
  | andWord => "AND"
  | breakWord => "BREAK"
  | elifWord => "ELIF"
  | elseWord => "ELSE"
  | ifWord => "IF"
  | notWord => "NOT"
  | orWord => "OR"
  | whileWord => "WHILE"
  | assign => "ASSIGN"
  | plus => "PLUS"
  | minus => "MINUS"
  | star => "STAR"
  | slash => "SLASH"
  | equal => "EQ"
  | unequal => "NE"
  | greater => "GT"
  | greaterEqual => "GE"
  | less => "LT"
  | lessEqual => "LE"
  | openParen => "LPAREN"
  | closeParen => "RPAREN"
  | comma => "COMMA"
  | colon => "COLON"

def isStructural : Kind → Bool
  | endOfInput | endOfLine | indent | dedent => true
  | _ => false

end Kind

inductive Payload where
  | none
  | text (written : String)
  | integer (value : Int)
  | float (value : Binary64)
deriving DecidableEq, Repr

namespace Payload

def shown : Payload → String
  | none => "None"
  | text written => written
  | integer value => toString value
  | float value => value.text

/-- Zero, an empty text and nothing count as false. -/
def holds : Payload → Bool
  | none => false
  | text written => written ≠ ""
  | integer value => value ≠ 0
  | float (.finite _ mantissa _) => mantissa ≠ 0
  | float _ => true

end Payload

structure Token where
  kind : Kind
  payload : Payload
  place : Location
deriving DecidableEq, Repr

namespace Token

def position (token : Token) : String :=
  toString token.place.line ++ ":" ++ toString token.place.column

def text (token : Token) : String :=
  let value := match token.payload with
    | .none => ""
    | .text written => Text.quoted written ++ ", "
    | value => value.shown ++ ", "
  "Token(" ++ token.kind.label ++ ", " ++ value ++ token.position ++ ")"

def described (token : Token) : String :=
  match token.kind with
  | .endOfLine => "end of line"
  | .indent => "indent"
  | .dedent => "dedent"
  | .endOfInput => "end of input"
  | .boolean => if token.payload.holds then "'True'" else "'False'"
  | _ => "'" ++ token.payload.shown ++ "'"

end Token

end Offside
