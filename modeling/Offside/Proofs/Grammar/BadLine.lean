import Offside.Proofs.Grammar.MachineComplete
import Offside.Proofs.Grammar.MachineSound

/-!
Malformed lines. A line that is no statement brings one fault, at a token of its own, and leaves the
statements of its block as they were, however much of it was read before the fault.
-/

namespace Offside

/-- A line that is neither an assignment nor a `break`, and does not start with a word of a choice
or a loop. -/
structure Token.Malformed (line : List Token) : Prop where
  ended : ∃ body last, line = body ++ [last] ∧ body ≠ [] ∧
    (∀ token ∈ body, token.kind.isStructural = false) ∧ last.kind = .endOfLine
  headless : ∀ first ∈ line.head?, first.kind ∉ [Kind.ifWord, .whileWord, .elifWord, .elseWord]
  noAssignment : ∀ target value place, Expr.Canonical value →
    line.map Token.lexeme ≠ (Stmt.assign target value place).lexemes
  noLeave : ∀ place, line.map Token.lexeme ≠ (Stmt.leave place).lexemes

/-- What happens in a malformed line: names are read, then there is a fault, and the rest is
skipped. -/
inductive Event.Blames (line : List Token) : List Event → Prop where
  | used {token : Token} {events : List Event} (inLine : token ∈ line) (isName : token.kind = .name)
    (rest : Blames line events) : Blames line (.used token :: events)
  | fault {cause : Cause} {token : Token} (inLine : token ∈ line)
    (grammatical : cause.stage = some .grammatical) (skipped : List Token) :
    Blames line [.rejected cause token, .recovered skipped]

namespace Machine

/-- Tokens of a malformed line, up to its end, lead back to the start of a statement. -/
def Spoils (line : List Token) (enclosing : List Enclosing) (statements : List Stmt)
    (machine : Machine) (tokens : List Token) : Prop :=
  (machine.drive tokens).1 = ⟨.start, enclosing, statements⟩ ∧
    Event.Blames line (machine.drive tokens).2

section

variable {line body : List Token} {enclosing : List Enclosing} {statements : List Stmt}
  {token last : Token}

theorem Spoils.turn {machine next : Machine} {rest : List Token}
    (reacts : machine.react token = ⟨next, [], []⟩)
    (spoils : Spoils line enclosing statements next rest) :
    Spoils line enclosing statements machine (token :: rest) := by
  simp only [Spoils, drive, reacts, List.nil_append]
  exact spoils

theorem exists_drive_skipping (plain : ∀ token ∈ body, token.kind.isStructural = false)
    (ends : last.kind = .endOfLine) (skipped : List Token) (enclosing : List Enclosing)
    (statements : List Stmt) :
    ∃ all, drive ⟨.skipping 0 skipped, enclosing, statements⟩ (body ++ [last]) =
      (⟨.start, enclosing, statements⟩, [.recovered all]) := by
  induction body generalizing skipped with
  | nil =>
    refine ⟨(last :: skipped).reverse, ?_⟩
    simp only [List.nil_append, drive, react, skip, ends, List.append_nil]
  | cons token rest ih =>
    rw [List.forall_mem_cons] at plain
    obtain ⟨all, drives⟩ := ih plain.2 (token :: skipped)
    refine ⟨all, ?_⟩
    simp only [List.cons_append, drive, react, skip_of_plain _ _ _ plain.1, turn, drives,
      List.nil_append]

theorem spoils_of_refuse {machine : Machine}
    (plain : ∀ token ∈ body, token.kind.isStructural = false) (ends : last.kind = .endOfLine)
    (within : ∀ token ∈ body ++ [last], token ∈ line)
    (refuses : ∀ token ∈ (body ++ [last]).head?, ∃ mode expected,
      machine.react token = refuse ⟨mode, enclosing, statements⟩ token expected) :
    Spoils line enclosing statements machine (body ++ [last]) := by
  cases body with
  | nil =>
    obtain ⟨mode, expected, reacts⟩ := refuses last rfl
    have drives : machine.drive [last] =
        (⟨.start, enclosing, statements⟩, [unexpected last expected, .recovered [last]]) := by
      simp only [drive, reacts, refuse, skip, ends, List.reverse_singleton, List.append_nil,
        List.singleton_append]
    rw [List.nil_append, Spoils, drives]
    exact ⟨rfl, .fault (within last (by simp)) rfl _⟩
  | cons token rest =>
    rw [List.forall_mem_cons] at plain
    obtain ⟨mode, expected, reacts⟩ := refuses token rfl
    obtain ⟨all, skips⟩ := exists_drive_skipping plain.2 ends [token] enclosing statements
    have drives : machine.drive (token :: rest ++ [last]) =
        (⟨.start, enclosing, statements⟩, [unexpected token expected, .recovered all]) := by
      simp only [List.cons_append, drive, reacts, refuse, skip_of_plain _ _ _ plain.1, turn, skips,
        List.append_nil, List.nil_append]
    rw [Spoils, drives]
    exact ⟨rfl, .fault (within token (by simp)) rfl _⟩

/-- A line that is read as an assignment is spoilt, unless an expression stands after the `=`. -/
theorem canonical_or_spoils {name : Token} {reading : Reading} (valid : reading.Valid)
    (plain : ∀ token ∈ body, token.kind.isStructural = false) (ends : last.kind = .endOfLine)
    (within : ∀ token ∈ body ++ [last], token ∈ line) :
    (∃ expr : Expr, expr.Canonical ∧ expr.lexemes = reading.lexemes ++ body.map Token.lexeme) ∨
      Spoils line enclosing statements ⟨.expression (.value name) reading, enclosing, statements⟩
        (body ++ [last]) := by
  induction body generalizing reading with
  | nil =>
    have structural : last.kind.isStructural = true := by rw [ends]; rfl
    rcases reading.feed_of_structural structural with ⟨expr, fed⟩ | ⟨expected, fed⟩
    · obtain ⟨canonical, same⟩ := Reading.feed_complete valid fed
      exact .inl ⟨expr, canonical, by rw [same, List.map_nil, List.append_nil]⟩
    · right
      apply spoils_of_refuse plain ends within
      intro token first
      cases Option.some.inj first
      exact ⟨_, expected, by simp only [react, readExpression, fed]; rfl⟩
  | cons token rest ih =>
    have first : token.kind.isStructural = false := plain token (by simp)
    have later : ∀ other ∈ rest, other.kind.isStructural = false :=
      fun other found => plain other (by simp [found])
    have withinRest : ∀ other ∈ rest ++ [last], other ∈ line :=
      fun other found => within other (List.mem_cons_of_mem _ found)
    cases fed : reading.feed token with
    | more next =>
      obtain ⟨nextValid, added⟩ := Reading.feed_more valid fed
      rcases ih nextValid later withinRest with ⟨expr, canonical, same⟩ | ⟨reached, blames⟩
      · refine .inl ⟨expr, canonical, ?_⟩
        rw [same, added, List.map_cons, List.append_assoc, List.singleton_append]
      · right
        simp only [Spoils, List.cons_append, drive, react, readExpression, fed, List.nil_append]
        refine ⟨reached, ?_⟩
        split
        next isName => exact .used (within token (by simp)) isName blames
        next => exact blames
    | complete expr =>
      right
      apply spoils_of_refuse plain ends within
      intro other head
      cases Option.some.inj head
      have notEnd : token.kind ≠ .endOfLine := by
        intro kind
        rw [kind] at first
        cases first
      refine ⟨.expression (.value name) reading, "end of line", ?_⟩
      simp only [react, readExpression, fed, conclude, notEnd, ↓reduceIte]
    | refused expected =>
      right
      apply spoils_of_refuse plain ends within
      intro other head
      cases Option.some.inj head
      exact ⟨_, expected, by simp only [react, readExpression, fed]; rfl⟩
    | tooDeep =>
      right
      obtain ⟨all, skips⟩ := exists_drive_skipping later ends [] enclosing statements
      simp only [Spoils, List.cons_append, drive, react, readExpression, fed, List.nil_append,
        skips]
      exact ⟨trivial, .fault (within token (by simp)) rfl _⟩

theorem spoils_target {name : Token} (malformed : Token.Malformed (name :: body ++ [last]))
    (isName : name.kind = .name) (plain : ∀ token ∈ body, token.kind.isStructural = false)
    (ends : last.kind = .endOfLine) :
    Spoils (name :: body ++ [last]) enclosing statements ⟨.target name, enclosing, statements⟩
      (body ++ [last]) := by
  have within : ∀ token ∈ body ++ [last], token ∈ name :: body ++ [last] :=
    fun token found => List.mem_cons_of_mem _ found
  have refused (unassigned : ∀ token ∈ (body ++ [last]).head?, token.kind ≠ .assign) :
      Spoils (name :: body ++ [last]) enclosing statements ⟨.target name, enclosing, statements⟩
        (body ++ [last]) := by
    apply spoils_of_refuse plain ends within
    intro token head
    refine ⟨.target name, "'='", ?_⟩
    simp only [react, unassigned token head, ↓reduceIte]
  cases body with
  | nil =>
    apply refused
    intro token head
    cases Option.some.inj head
    rw [ends]
    decide
  | cons second rest =>
    by_cases isAssign : second.kind = .assign
    · have assigns : react ⟨.target name, enclosing, statements⟩ second =
          ⟨⟨.expression (.value name) .start, enclosing, statements⟩, [], []⟩ := by
        simp only [react, isAssign, ↓reduceIte, turn]
      refine Spoils.turn assigns ?_
      rcases canonical_or_spoils Reading.valid_start
        (fun token found => plain token (List.mem_cons_of_mem _ found)) ends
        (fun token found => within token (List.mem_cons_of_mem _ found)) with
        ⟨expr, canonical, same⟩ | spoils
      · refine absurd ?_ (malformed.noAssignment name.payload.shown expr name.place canonical)
        simp only [List.cons_append, List.map_cons, List.map_append, List.map_nil, Stmt.lexemes,
          Token.lexeme_of_name isName, Token.lexeme_eq_bare isAssign (by decide),
          Token.lexeme_eq_bare ends (by decide), same, Reading.lexemes, Reading.start,
          Reading.openLexemes, List.nil_append]
      · exact spoils
    · apply refused
      intro token head
      cases Option.some.inj head
      exact isAssign

theorem spoils_leaving {word : Token} (malformed : Token.Malformed (word :: body ++ [last]))
    (isBreak : word.kind = .breakWord) (plain : ∀ token ∈ body, token.kind.isStructural = false)
    (ends : last.kind = .endOfLine) :
    Spoils (word :: body ++ [last]) enclosing statements
      ⟨.leaving word.place, enclosing, statements⟩ (body ++ [last]) := by
  apply spoils_of_refuse plain ends (fun token found => List.mem_cons_of_mem _ found)
  intro token head
  refine ⟨.leaving word.place, "end of line", if_neg ?_⟩
  intro ended
  cases body with
  | nil =>
    refine absurd ?_ (malformed.noLeave word.place)
    simp only [List.singleton_append, List.map_cons, List.map_nil, Stmt.lexemes,
      Token.lexeme_eq_bare isBreak (by decide), Token.lexeme_eq_bare ends (by decide)]
  | cons second rest =>
    cases Option.some.inj head
    have inner := plain token (by simp)
    rw [ended] at inner
    cases inner

theorem spoils_line {machine : Machine} (malformed : Token.Malformed line)
    (ready : machine.settled = ⟨.start, enclosing, statements⟩) :
    Spoils line enclosing statements machine line := by
  obtain ⟨body, last, rfl, some, plain, ends⟩ := malformed.ended
  cases body with
  | nil => exact absurd rfl some
  | cons first rest =>
    have headless := malformed.headless first rfl
    simp only [List.mem_cons, List.not_mem_nil, or_false, not_or] at headless
    obtain ⟨noIf, noWhile, noElif, noElse⟩ := headless
    have begins := react_of_settled ready noElif noElse
    obtain ⟨inner, plainRest⟩ := List.forall_mem_cons.mp plain
    by_cases isName : first.kind = .name
    · refine Spoils.turn ?_ (spoils_target malformed isName plainRest ends)
      rw [begins]
      simp only [begin, isName, turn]
    · by_cases isBreak : first.kind = .breakWord
      · refine Spoils.turn ?_ (spoils_leaving malformed isBreak plainRest ends)
        rw [begins]
        simp only [begin, isBreak, turn]
      · apply spoils_of_refuse plain ends (fun _ found => found)
        intro token head
        cases Option.some.inj head
        refine ⟨.start, "statement", ?_⟩
        rw [begins]
        unfold begin
        split <;> simp_all [Kind.isStructural]

end

theorem clean_of_quiet {events : List Event} (quiet : ∀ event ∈ events, event.isQuiet = true) :
    Clean events := by
  intro event found
  have calm := quiet event found
  cases event with
  | rejected cause token => cases calm
  | _ => rfl

theorem malformed_of_fault {body : List Token} {last : Token} (some : body ≠ [])
    (plain : ∀ token ∈ body, token.kind.isStructural = false) (ends : last.kind = .endOfLine)
    (headless : ∀ first ∈ (body ++ [last]).head?,
      first.kind ∉ [Kind.ifWord, .whileWord, .elifWord, .elseWord])
    (faulty : ¬ Clean (initial.drive (body ++ [last])).2) : Token.Malformed (body ++ [last]) := by
  have unwritten (stmt : Stmt) (canonical : stmt.Canonical) :
      (body ++ [last]).map Token.lexeme ≠ stmt.lexemes := by
    intro written
    obtain ⟨result, -, runs⟩ := exists_runs stmt canonical _ written
    obtain ⟨reached, ⟨-, quiet⟩, -⟩ := runs initial [] [] rfl
    exact faulty (clean_of_quiet quiet)
  exact ⟨⟨body, last, rfl, some, plain, ends⟩, headless,
    fun target value place canonical => unwritten (.assign target value place) canonical,
    fun place => unwritten (.leave place) trivial⟩

end Machine

end Offside
