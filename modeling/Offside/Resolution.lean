import Offside.Grammar.Event
import Offside.Scope

/-!
Looking up names in the order in which a program mentions them. A variable is declared by its first
assignment; one that is read before is a fault.
-/

namespace Offside

def lineAt? (lines : List String) (number : Int) : Option String :=
  if 0 < number then lines[(number - 1).toNat]? else none

namespace Event

def faultAt (lines : List String) (token : Token) (cause : Cause) : Entry :=
  .recorded ⟨cause, some token.place, lineAt? lines token.place.line⟩

/-- What an event adds to the journal, and the variables declared after it. -/
def resolve (lines : List String) (scope : Scope) : Event → List Entry × Scope
  | noted entry => ([entry], scope)
  | rejected cause token => ([faultAt lines token cause], scope)
  | used token =>
    let name := token.payload.shown
    if scope.contains name then ([], scope)
    else ([faultAt lines token (.undefinedVariable name (scope.similar name))], scope)
  | assigned token =>
    let name := token.payload.shown
    if scope.contains name then ([], scope)
    else ([.declared name (some token.place)], scope.declare name (some token.place))
  | recovered skipped => ([.recovered skipped.length], scope)

def resolveAll (lines : List String) (scope : Scope) : List Event → List Entry × Scope
  | [] => ([], scope)
  | event :: rest =>
    let (entries, after) := event.resolve lines scope
    let (others, final) := resolveAll lines after rest
    (entries ++ others, final)

end Event

end Offside
