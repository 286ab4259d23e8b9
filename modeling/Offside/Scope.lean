import Offside.EditDistance
import Offside.Location

/-! The variables declared so far, in the order of their first declarations. -/

namespace Offside

structure Scope where
  entries : List (String × Option Location)
deriving DecidableEq, Repr

namespace Scope

def empty : Scope := ⟨[]⟩

def names (scope : Scope) : List String := scope.entries.map Prod.fst

def contains (scope : Scope) (name : String) : Bool := scope.entries.any (·.1 = name)

def size (scope : Scope) : Nat := scope.entries.length

def declare (scope : Scope) (name : String) (place : Option Location) : Scope :=
  if scope.contains name then scope else ⟨scope.entries ++ [(name, place)]⟩

def placeOf? (scope : Scope) (name : String) : Option Location :=
  (scope.entries.find? (·.1 = name)).bind Prod.snd

def lowered (name : String) : List Char := name.toList.map Char.toLower

/-- Names are alike when they differ in case only, or when their lengths differ by at most one and
at most two edits lie between them, whatever the case. -/
def alike (name other : String) : Bool :=
  lowered other = lowered name ||
    (other.length ≤ name.length + 1 && name.length ≤ other.length + 1 &&
      EditDistance.distance (lowered name) (lowered other) ≤ 2)

def similar (scope : Scope) (name : String) : List String :=
  (scope.names.filter (alike name)).take 3

end Scope

end Offside
