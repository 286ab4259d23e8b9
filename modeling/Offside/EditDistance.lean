/-!
The edit distance of two words: the least number of insertions, deletions and replacements of
single characters that turn one into the other. It is computed row by row: the row of a word lists
the distances from it to the beginnings of the other word, shortest first.
-/

namespace Offside.EditDistance

/-- The rest of a row, given the rest of the row above it and the distance to its left. -/
def rowFrom (c : Char) : List Char → List Nat → Nat → List Nat
  | d :: word, corner :: above :: others, left =>
    let here := min (min (above + 1) (left + 1)) (corner + if c = d then 0 else 1)
    here :: rowFrom c word (above :: others) here
  | _, _, _ => []

def nextRow (word : List Char) (row : List Nat) (c : Char) : List Nat :=
  match row with
  | [] => []
  | first :: _ => (first + 1) :: rowFrom c word row (first + 1)

/-- The last number of the last row. The rows list the distances to the beginnings of `b`. -/
def byRows (a b : List Char) : Nat :=
  (a.foldl (nextRow b) (List.range (b.length + 1))).getLastD 0

def distance (a b : List Char) : Nat :=
  if a.length < b.length then byRows b a else byRows a b

end Offside.EditDistance
