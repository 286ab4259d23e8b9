import Offside.Binary64.Reading
import Offside.Line
import Offside.Token

/-!
The segments of a line: runs of blanks, comments, lexemes, and characters that start none. The
longest lexeme is taken at each place.
-/

namespace Offside

inductive Segment where
  | blank (text : List Char)
  | comment (text : List Char)
  | word (text : List Char)
  | integer (digits : List Char)
  | float (whole fraction : List Char)
  | symbol (kind : Kind) (text : List Char)
  | stray (char : Char)
deriving DecidableEq, Repr

namespace Segment

def text : Segment → List Char
  | blank text | comment text | word text | integer text | symbol _ text => text
  | float whole fraction => whole ++ '.' :: fraction
  | stray char => [char]

def isWordStart (c : Char) : Bool := c.isAlpha || c = '_'

def isWordPart (c : Char) : Bool := c.isAlphanum || c = '_'

def fraction? : List Char → Option (List Char × List Char)
  | '.' :: c :: rest =>
    if c.isDigit then some (c :: rest.takeWhile Char.isDigit, rest.dropWhile Char.isDigit) else none
  | _ => none

def number (c : Char) (cs : List Char) : Segment × List Char :=
  let whole := c :: cs.takeWhile Char.isDigit
  let rest := cs.dropWhile Char.isDigit
  match fraction? rest with
  | some (fraction, rest) => (float whole fraction, rest)
  | none => (integer whole, rest)

def pair? (c : Char) : Option Kind :=
  if c = '=' then some .equal
  else if c = '!' then some .unequal
  else if c = '>' then some .greaterEqual
  else if c = '<' then some .lessEqual
  else none

def single? (c : Char) : Option Kind :=
  if c = '=' then some .assign
  else if c = '>' then some .greater
  else if c = '<' then some .less
  else if c = '+' then some .plus
  else if c = '-' then some .minus
  else if c = '*' then some .star
  else if c = '/' then some .slash
  else if c = '(' then some .openParen
  else if c = ')' then some .closeParen
  else if c = ',' then some .comma
  else if c = ':' then some .colon
  else none

def singleOrStray (c : Char) : Segment :=
  match single? c with
  | some kind => symbol kind [c]
  | none => stray c

def symbolOrStray (c : Char) (cs : List Char) : Segment × List Char :=
  match pair? c, cs with
  | some kind, '=' :: rest => (symbol kind [c, '='], rest)
  | _, _ => (singleOrStray c, cs)

def next (c : Char) (cs : List Char) : Segment × List Char :=
  if Line.isMargin c then (blank (c :: cs.takeWhile Line.isMargin), cs.dropWhile Line.isMargin)
  else if c = '#' then (comment (c :: cs), [])
  else if isWordStart c then (word (c :: cs.takeWhile isWordPart), cs.dropWhile isWordPart)
  else if c.isDigit then number c cs
  else
    match fraction? (c :: cs) with
    | some (fraction, rest) => (float [] fraction, rest)
    | none => symbolOrStray c cs

def upTo : Nat → List Char → List Segment
  | 0, _ => []
  | _, [] => []
  | count + 1, c :: cs =>
    let step := next c cs
    step.1 :: upTo count step.2

def all (text : List Char) : List Segment := upTo text.length text

def greatestInteger : Nat := Nat.pow 2 63 - 1

def wordKind (word : String) : Kind :=
  if word = "and" then .andWord
  else if word = "break" then .breakWord
  else if word = "elif" then .elifWord
  else if word = "else" then .elseWord
  else if word = "if" then .ifWord
  else if word = "not" then .notWord
  else if word = "or" then .orWord
  else if word = "while" then .whileWord
  else if word = "True" || word = "False" then .boolean
  else .name

def wordPayload (word : String) : Payload :=
  if word = "True" then .integer 1
  else if word = "False" then .integer 0
  else .text word

/-- The kind and payload of the token that a lexeme gives. An integer that is too large is replaced
by the greatest one. -/
def token? : Segment → Option (Kind × Payload)
  | word text => some (wordKind (String.ofList text), wordPayload (String.ofList text))
  | integer digits => some (.integer, .integer (min (Binary64.digitsValue digits) greatestInteger))
  | float whole fraction => some (.float, .float (Binary64.ofDigits false whole fraction 0))
  | symbol kind text => some (kind, .text (String.ofList text))
  | blank _ | comment _ | stray _ => none

def isOutOfRange : Segment → Bool
  | integer digits => greatestInteger < Binary64.digitsValue digits
  | float whole fraction => (Binary64.ofDigits false whole fraction 0).isInfinite
  | _ => false

end Segment

end Offside
