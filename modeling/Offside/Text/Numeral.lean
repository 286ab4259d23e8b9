import Offside.Text.Blank
import Offside.Text.Digit

/-!
Whole numbers as a user writes them in a setting: white space around the numeral, one sign, and
decimal digits of any script with single underscores between them.
-/

namespace Offside.Text

def mostDigits : Nat := 4300

/-- The values of the digits of a numeral. An underscore stands between two digits only. -/
def numeralDigits? : List Char → Option (List Nat)
  | [] => none
  | [c] => (digitValue? c).map ([·])
  | c :: '_' :: rest => do
    let digit ← digitValue? c
    let others ← numeralDigits? rest
    return digit :: others
  | c :: rest => do
    let digit ← digitValue? c
    let others ← numeralDigits? rest
    return digit :: others

def digitsTotal (digits : List Nat) : Nat :=
  digits.foldl (fun value digit => 10 * value + digit) 0

def natural? (chars : List Char) : Option Nat := do
  let digits ← numeralDigits? chars
  if digits.length ≤ mostDigits then some (digitsTotal digits) else none

def integer? (text : String) : Option Int :=
  match trimBlank text.toList with
  | '-' :: rest => (natural? rest).map fun n => -(n : Int)
  | '+' :: rest => (natural? rest).map Int.ofNat
  | rest => (natural? rest).map Int.ofNat

end Offside.Text
