/-!
Numbers of the 64-bit binary floating-point format, held exactly. A finite number is
`mantissa * 2 ^ exponent`, with the exponent as small as the format allows, so that each number
has one form: the mantissa is below `2 ^ 53`, and at least `2 ^ 52` unless the exponent is the least.
-/

namespace Offside

inductive Binary64 where
  | finite (negative : Bool) (mantissa : Nat) (exponent : Int)
  | infinite (negative : Bool)
  | nan
deriving DecidableEq, Repr

namespace Binary64

def leastExponent : Int := -1074

def greatestExponent : Int := 971

def zero : Binary64 := finite false 0 leastExponent

def isInfinite : Binary64 → Bool
  | infinite _ => true
  | _ => false

end Binary64

end Offside
