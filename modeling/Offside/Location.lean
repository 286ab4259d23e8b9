/-! Places in a source text, as diagnostics name them. -/

namespace Offside

/-- Lines and columns count from one, columns in code points. A column below one points at no
character. -/
structure Location where
  file : String
  line : Int
  column : Int
deriving DecidableEq, Repr

namespace Location

def text (place : Location) : String :=
  place.file ++ ":" ++ toString place.line ++ ":" ++ toString place.column

def top (file : String) : Location := ⟨file, 1, 1⟩

end Location

end Offside
