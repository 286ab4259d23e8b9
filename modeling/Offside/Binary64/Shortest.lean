import Offside.Binary64.Basic

/-!
The text of a 64-bit floating-point number: the fewest decimal digits that read back as the same
number, and of those the nearest to it. Decimal exponents from -4 to 15 are written with a point,
all others with an exponent.
-/

namespace Offside.Binary64

/-- The numbers that round to `mantissa * 2 ^ exponent`, in units of `2 ^ (exponent - 2)`. The gap
below a power of two is half the gap above it. The ends belong to the interval when the mantissa is
even. -/
structure Interval where
  low : Nat
  middle : Nat
  high : Nat
  closed : Bool

def intervalOf (mantissa : Nat) (exponent : Int) : Interval where
  low := 4 * mantissa - (if mantissa = Nat.pow 2 52 ∧ leastExponent < exponent then 1 else 2)
  middle := 4 * mantissa
  high := 4 * mantissa + 2
  closed := mantissa % 2 = 0

def unitRatio (two ten : Int) : Nat × Nat :=
  (Nat.pow 2 two.toNat * Nat.pow 10 ten.toNat, Nat.pow 2 (-two).toNat * Nat.pow 10 (-ten).toNat)

def digitCount (n : Nat) : Nat := (Nat.toDigits 10 n).length

def pointOf (num den : Nat) : Int :=
  if den ≤ num then digitCount (num / den) else 1 - (digitCount (den / num) : Int)

def Interval.holds (range : Interval) (num den count : Nat) : Bool :=
  if range.closed then range.low * num ≤ count * den && count * den ≤ range.high * num
  else range.low * num < count * den && count * den < range.high * num

/-- The best of the two decimals with `places` digits around the middle of the interval, if one of
them lies in it. The nearer one wins, the even one when both are equally near. -/
def decimalWithin (range : Interval) (exponent point : Int) (places : Nat) : Option (Nat × Int) :=
  let power := point - places
  let (num, den) := unitRatio (exponent - 2) (-power)
  let below := range.middle * num / den
  let twice := 2 * (range.middle * num % den)
  let lower := range.holds num den below
  let upper := range.holds num den (below + 1)
  if lower && upper then
    if twice < den || (twice = den && below % 2 = 0) then some (below, power)
    else some (below + 1, power)
  else if lower then some (below, power)
  else if upper then some (below + 1, power)
  else none

/-- The shortest decimal that reads back as `mantissa * 2 ^ exponent`: its digits and the power of
ten of the last one. -/
def shortest (mantissa : Nat) (exponent : Int) : Nat × Int :=
  let range := intervalOf mantissa exponent
  let (num, den) := unitRatio (exponent - 2) 0
  let point := pointOf (range.middle * num) den
  ((List.range 17).findSome? fun i => decimalWithin range exponent point (i + 1)).getD (mantissa, 0)

def significant (digits : Nat) (power : Int) : List Char × Int :=
  let written := Nat.toDigits 10 digits
  ((written.reverse.dropWhile (· = '0')).reverse, written.length + power)

def positional (digits : List Char) (point : Int) : List Char :=
  if point ≤ 0 then '0' :: '.' :: List.replicate (-point).toNat '0' ++ digits
  else if (digits.length : Int) ≤ point then
    digits ++ List.replicate (point.toNat - digits.length) '0' ++ ['.', '0']
  else digits.take point.toNat ++ '.' :: digits.drop point.toNat

def exponentText (exponent : Int) : List Char :=
  let digits := Nat.toDigits 10 exponent.natAbs
  (if exponent < 0 then '-' else '+') :: (if digits.length < 2 then '0' :: digits else digits)

def scientific (digits : List Char) (point : Int) : List Char :=
  digits.take 1 ++ (if digits.length ≤ 1 then [] else '.' :: digits.drop 1)
    ++ 'e' :: exponentText (point - 1)

def magnitudeText (mantissa : Nat) (exponent : Int) : List Char :=
  if mantissa = 0 then ['0', '.', '0']
  else
    let (digits, power) := shortest mantissa exponent
    let (digits, point) := significant digits power
    if -4 < point ∧ point ≤ 16 then positional digits point else scientific digits point

def signText (negative : Bool) : List Char := if negative then ['-'] else []

def text : Binary64 → String
  | finite negative mantissa exponent =>
    String.ofList (signText negative ++ magnitudeText mantissa exponent)
  | infinite negative => String.ofList (signText negative ++ ['i', 'n', 'f'])
  | nan => "nan"

end Offside.Binary64
