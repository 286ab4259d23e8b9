import Offside.Journal
import Offside.Token

/-! What happens while tokens are parsed, before names are looked up. -/

namespace Offside

inductive Event where
  /-- Something happened while the token was read. -/
  | noted (entry : Entry)
  /-- A fault at a token. -/
  | rejected (cause : Cause) (token : Token)
  /-- A variable is read. -/
  | used (token : Token)
  /-- A variable is assigned, its statement being complete. -/
  | assigned (token : Token)
  /-- Tokens were skipped to reach the next statement. -/
  | recovered (skipped : List Token)
deriving DecidableEq, Repr

end Offside
