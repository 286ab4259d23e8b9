/-!
Text for a stream that is no terminal: it holds no control sequences, and its lines end with `LF`.
A control sequence is an escape character and a bracket, then parameters, then a letter.
-/

namespace Offside.Text

def isParameter (c : Char) : Bool := c.isDigit || c = ';' || c = '?'

def sequenceLength : List Char → Nat
  | '\x1b' :: '[' :: rest =>
    match rest.dropWhile isParameter with
    | [] => 0
    | c :: _ => if c.isAlpha then (rest.takeWhile isParameter).length + 3 else 0
  | _ => 0

def dropSequences : Nat → List Char → List Char
  | _, [] => []
  | n + 1, _ :: rest => dropSequences n rest
  | 0, c :: rest =>
    match sequenceLength (c :: rest) with
    | 0 => c :: dropSequences 0 rest
    | n + 1 => dropSequences n rest

/-- A text without its control sequences. What is left is not looked at again, so it may form new
ones. -/
def withoutSequences (text : String) : String := String.ofList (dropSequences 0 text.toList)

def joinLineEnds : List Char → List Char
  | [] => []
  | '\r' :: '\n' :: rest => '\n' :: joinLineEnds rest
  | c :: rest => c :: joinLineEnds rest

def withLineFeeds (text : String) : String := String.ofList (joinLineEnds text.toList)

end Offside.Text
