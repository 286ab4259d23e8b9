/-!
The lines of a source text. Only `LF` ends a line. A `CR` right before it belongs to the line end;
when a line is quoted, all `CR`s at its end are dropped.
-/

namespace Offside

def pieces : List Char → List (List Char)
  | [] => [[]]
  | c :: rest =>
    if c = '\n' then [] :: pieces rest
    else
      match pieces rest with
      | [] => [[c]]
      | piece :: others => (c :: piece) :: others

def dropReturns (piece : List Char) : List Char :=
  (piece.reverse.dropWhile (· = '\r')).reverse

def quotedLine (piece : List Char) : String := String.ofList (dropReturns piece)

def quotedLines (source : String) : List String := (pieces source.toList).map quotedLine

def dropReturn (piece : List Char) : List Char :=
  match piece.reverse with
  | '\r' :: rest => rest.reverse
  | _ => piece

/-- A line, or what is left of it: its number, its text as it is quoted, the characters to read
and the column of the first of them. -/
structure Line where
  number : Nat
  quote : String
  column : Nat
  content : List Char
deriving DecidableEq, Repr

namespace Line

/-- Lines numbered from `number` on. The last piece has no line end. -/
def ofPieces (number : Nat) : List (List Char) → List Line
  | [] => []
  | [last] => [⟨number, quotedLine last, 1, last⟩]
  | piece :: rest => ⟨number, quotedLine piece, 1, dropReturn piece⟩ :: ofPieces (number + 1) rest

def isMargin (c : Char) : Bool := c = ' ' || c = '\t'

def width (line : Line) : Nat := (line.content.takeWhile isMargin).length

def afterMargin (line : Line) : Line :=
  { line with column := line.column + line.width, content := line.content.dropWhile isMargin }

def isIdle (line : Line) : Bool :=
  match line.content.dropWhile isMargin with
  | [] => true
  | c :: _ => c = '#'

end Line

end Offside
