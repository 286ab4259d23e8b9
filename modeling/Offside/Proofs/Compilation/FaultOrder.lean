import Offside.Proofs.Compilation.Quoting
import Offside.Proofs.Grammar.Locality
import Offside.Proofs.Grammar.Recovery
import Offside.Proofs.Scanner.Limit
import Offside.Proofs.Scanner.Order

/-!
The order in which faults are recorded. It is the order of the source, but for one case: a name is looked
up, and a level too many is refused, when the next token has already been read. What was found on the way
to that token stands before such a fault, though it is behind it in the source.
-/

namespace Offside

/-- What is said after the next token has been read: nothing is rejected but a level too many, and a dedent
outside all blocks. -/
def Event.IsDelayed : Event → Prop
  | rejected cause _ => cause = .expressionTooDeep deepestNesting ∨
      ∃ found, cause = .unexpectedToken found none
  | _ => True

def Reaction.Delays (reaction : Reaction) : Prop := ∀ event ∈ reaction.later, event.IsDelayed

namespace Machine

variable (machine : Machine) (token : Token)

theorem delays_turn (mode : Mode) : (machine.turn mode).Delays := List.forall_mem_nil _

theorem delays_closeBlock : (machine.closeBlock token).Delays := by
  intro event found
  unfold closeBlock at found
  split at found
  · cases List.mem_singleton.mp found
    exact .inr ⟨_, rfl⟩
  · cases found

theorem delays_skip (depth : Nat) (skipped : List Token) :
    (machine.skip depth skipped token).Delays := by
  have done (mode : Mode) :
      Reaction.Delays ⟨{ machine with mode }, [], [.recovered (token :: skipped).reverse]⟩ := by
    intro event found
    cases List.mem_singleton.mp found
    trivial
  unfold skip
  split
  · exact List.forall_mem_nil _
  · exact machine.delays_closeBlock token
  · exact done .start
  · exact machine.delays_turn _
  · exact machine.delays_turn _
  · exact done .start
  · exact machine.delays_turn _

theorem delays_refuse (expected : String) : (machine.refuse token expected).Delays :=
  machine.delays_skip token 0 []

theorem delays_begin : (machine.begin token).Delays := by
  unfold begin
  split
  case h_7 => exact machine.delays_closeBlock token
  case h_9 => exact machine.delays_refuse token "statement"
  all_goals exact List.forall_mem_nil _

theorem delays_ite {condition : Prop} [Decidable condition] {yes : Reaction} (expected : String)
    (accepted : yes.Delays) : (if condition then yes else machine.refuse token expected).Delays := by
  split
  · exact accepted
  · exact machine.delays_refuse token expected

theorem delays_conclude (expr : Expr) (goal : Goal) : (machine.conclude expr token goal).Delays := by
  cases goal with
  | value target =>
    apply delays_ite
    intro event found
    cases List.mem_singleton.mp found
    trivial
  | guard place earlier => exact machine.delays_ite token _ (machine.delays_turn _)
  | condition place => exact machine.delays_ite token _ (machine.delays_turn _)

theorem delays_readExpression (goal : Goal) (reading : Reading) :
    (machine.readExpression goal reading token).Delays := by
  unfold readExpression
  split
  · intro event found
    change event ∈ (if token.kind = .name then [Event.used token] else []) at found
    split at found
    · cases List.mem_singleton.mp found
      trivial
    · cases found
  · exact machine.delays_conclude token _ goal
  · exact machine.delays_refuse token _
  · intro event found
    cases List.mem_singleton.mp found
    exact .inl rfl

theorem delays_react : (machine.react token).Delays := by
  unfold react
  split
  · exact machine.delays_begin token
  · exact machine.delays_ite token _ (machine.delays_turn _)
  · exact machine.delays_readExpression token _ _
  · exact machine.delays_ite token _ (machine.delays_turn _)
  · exact machine.delays_ite token _ (machine.delays_turn _)
  · exact machine.delays_ite token _ (List.forall_mem_nil _)
  · split
    · exact machine.delays_turn _
    · exact machine.delays_turn _
    · exact delays_begin _ token
  · exact machine.delays_ite token _ (List.forall_mem_nil _)
  · exact machine.delays_skip token _ _

end Machine

namespace Diagnostic

def NoLater (first second : Diagnostic) : Prop :=
  ∃ place place', first.place = some place ∧ second.place = some place' ∧ place.rank ≤ place'.rank

def Behind (first second : Diagnostic) : Prop :=
  ∃ place place', first.place = some place ∧ second.place = some place' ∧ place'.rank < place.rank

theorem NoLater.not_behind {first second : Diagnostic} (noLater : first.NoLater second) :
    ¬ first.Behind second := by
  obtain ⟨place, place', here, there, le⟩ := noLater
  rintro ⟨other, other', here', there', lt⟩
  rw [Option.some.inj (here.symm.trans here'), Option.some.inj (there.symm.trans there')] at le
  exact absurd lt (not_lt.mpr le)

/-- A fault that is found only when the token behind its own has been read. -/
def IsLate (token : Token) (problem : Diagnostic) : Prop :=
  problem.place = some token.place ∧
    (problem.cause = .expressionTooDeep deepestNesting ∨
      token.kind = .name ∧ ∃ similar, problem.cause = .undefinedVariable token.payload.shown similar)

/-- A lexical fault that was found before a late one, on the way to the token behind the one that the late
fault is about. -/
def Overtakes (tokens : List Token) (first second : Diagnostic) : Prop :=
  first.isLexical = true ∧ ∃ early token next late, tokens = early ++ token :: next :: late ∧
    second.IsLate token ∧ ∃ place, first.place = some place ∧ place.rank ≤ next.place.rank

def Follows (tokens : List Token) (first second : Diagnostic) : Prop :=
  first.NoLater second ∨ first.Overtakes tokens second

theorem IsLate.not_lexical {token : Token} {problem : Diagnostic} (late : problem.IsLate token) :
    problem.isLexical = false := by
  rcases late.2 with cause | ⟨-, similar, cause⟩ <;> rw [isLexical, cause] <;> rfl

theorem noLater_of_follows {tokens : List Token} {faults : List Diagnostic} {isKind : Diagnostic → Bool}
    {kind : Bool} (follows : faults.Pairwise (Follows tokens))
    (alike : ∀ problem : Diagnostic, isKind problem = true → problem.isLexical = kind) :
    (faults.filter isKind).Pairwise NoLater := by
  apply List.Pairwise.imp_of_mem _ (follows.filter isKind)
  intro first second early late ordered
  rcases ordered with noLater | ⟨lexical, _, token, _, _, _, isLate, _⟩
  · exact noLater
  · have same := alike first (List.mem_filter.mp early).2
    have other := alike second (List.mem_filter.mp late).2
    rw [← other, isLate.not_lexical, lexical] at same
    cases same

end Diagnostic

theorem Event.IsDelayed.isLate {event : Event} {token : Token} {Skips : List Token → Prop}
    (delayed : event.IsDelayed) (about : event.IsAbout token) (orderly : event.IsOrderly Skips)
    {lines : List String} {scope : Scope} {problem : Diagnostic}
    (recorded : problem ∈ problems (event.resolve lines scope).1) : problem.IsLate token := by
  obtain ⟨located, -, accused⟩ := about.exists_place recorded
  refine ⟨located, accused.imp_left fun accuses => ?_⟩
  cases event with
  | rejected cause rejectedToken =>
    cases List.mem_singleton.mp recorded
    rcases delayed with deep | ⟨found, rfl⟩
    · exact deep
    · cases orderly
  | noted entry => exact about.elim
  | used name =>
    simp only [resolve] at recorded
    split at recorded
    · cases recorded
    · cases List.mem_singleton.mp recorded
      exact accuses.elim
  | assigned target =>
    simp only [resolve] at recorded
    split at recorded <;> cases recorded
  | recovered skipped => cases recorded

namespace Parse

/-- A parse in progress after some tokens: what is deferred is about the last of them, and the machine goes
on in order. -/
structure Continues (before : List Token) (parse : Parse) (pulls : List Pull) : Prop where
  deferred : ∀ event ∈ parse.deferred, ∃ token, before.getLast? = some token ∧ event.IsAbout token ∧
    event.IsDelayed ∧ event.IsOrderly fun _ => True
  orderly : ∀ event ∈ (parse.machine.drive (pulls.map Pull.token)).2, event.IsOrderly fun _ => True

theorem Continues.step {before : List Token} {parse : Parse} {pull : Pull} {rest : List Pull}
    (continues : Continues before parse (pull :: rest)) :
    Continues (before ++ [pull.token]) (parse.step pull.token).1 rest where
  deferred := by
    intro event found
    refine ⟨pull.token, List.getLast?_concat, ?_, ?_, ?_⟩
    · exact parse.machine.about_react pull.token event (List.mem_append_right _ found)
    · exact parse.machine.delays_react pull.token event found
    · exact continues.orderly event
        (List.mem_append_left _ (List.mem_append_right _ found))
  orderly := fun event found => continues.orderly event (List.mem_append_right _ found)

theorem exists_place_run {before : List Token} {parse : Parse} {pulls : List Pull} {last : Token}
    (continues : Continues (before ++ [last]) parse pulls)
    (ordered : InOrder (last.place :: pulls.flatMap Pull.places))
    (located : ∀ pull ∈ pulls, ∀ problem ∈ problems pull.journal, problem.place ≠ none)
    {lines : List String} {scope : Scope} {problem : Diagnostic}
    (recorded : problem ∈ problems (Event.resolveAll lines scope (parse.run pulls).2).1) :
    ∃ place, problem.place = some place ∧ last.place.rank ≤ place.rank := by
  obtain ⟨event, listed, reached, recorded⟩ := Event.exists_event_of_problem recorded
  have behind := (List.pairwise_cons.mp ordered).1
  have waiting : ∀ event ∈ parse.deferred,
      ∃ token, last.place.rank ≤ token.place.rank ∧ event.IsAbout token := by
    intro event found
    obtain ⟨token, isLast, about, -⟩ := continues.deferred event found
    rw [List.getLast?_concat] at isLast
    cases isLast
    exact ⟨last, le_rfl, about⟩
  have reacts : ∀ pull ∈ pulls, ∀ event : Event, event.IsAbout pull.token →
      ∃ token, last.place.rank ≤ token.place.rank ∧ event.IsAbout token := by
    intro pull member event about
    refine ⟨pull.token, behind _ (List.mem_flatMap.mpr ⟨pull, member, ?_⟩), about⟩
    simp [Pull.places]
  rcases mem_run waiting reacts listed with ⟨pull, member, entry, happened, rfl⟩ | ⟨token, after, about⟩
  · have read : problem ∈ problems pull.journal := by
      obtain ⟨other, found, fault⟩ := List.mem_filterMap.mp recorded
      rw [List.mem_singleton.mp found] at fault
      exact List.mem_filterMap.mpr ⟨entry, happened, fault⟩
    obtain ⟨place, here⟩ := Option.ne_none_iff_exists'.mp (located pull member problem read)
    refine ⟨place, here, behind _ (List.mem_flatMap.mpr ⟨pull, member, ?_⟩)⟩
    exact List.mem_append_left _ (List.mem_filterMap.mpr ⟨problem, read, here⟩)
  · exact ⟨token.place, (about.exists_place recorded).1, after⟩

structure Passes (before : List Token) (pull : Pull) (rest : List Pull) : Prop where
  found : InOrder (faultPlaces pull.journal)
  ahead : ∀ place ∈ faultPlaces pull.journal, place.rank ≤ pull.token.place.rank
  past : ∀ token ∈ before, token.place.rank ≤ pull.token.place.rank
  coming : InOrder (pull.token.place :: rest.flatMap Pull.places)
  onward : InOrder ((before ++ [pull.token]).map Token.place ++ rest.flatMap Pull.places)

theorem passes_of_inOrder {before : List Token} {pull : Pull} {rest : List Pull}
    (ordered : InOrder (before.map Token.place ++ (pull :: rest).flatMap Pull.places)) :
    Passes before pull rest := by
  rw [List.flatMap_cons, Pull.places, List.append_assoc] at ordered
  have onward : InOrder ((before ++ [pull.token]).map Token.place ++ rest.flatMap Pull.places) := by
    refine List.Pairwise.sublist ?_ ordered
    rw [List.map_append, List.append_assoc]
    exact (List.Sublist.refl _).append (List.sublist_append_right _ _)
  rw [inOrder_append, inOrder_append] at ordered
  obtain ⟨-, ⟨found, coming, ahead⟩, past⟩ := ordered
  refine ⟨found, fun place member => ahead place member _ (by simp), ?_, coming, onward⟩
  intro token member
  exact past _ (List.mem_map_of_mem member) _ (by simp)

theorem noLater_of_inOrder {faults : List Diagnostic} (located : ∀ problem ∈ faults, problem.place ≠ none)
    (ordered : InOrder (faults.filterMap Diagnostic.place)) : faults.Pairwise Diagnostic.NoLater := by
  apply List.Pairwise.imp_of_mem _ (List.pairwise_filterMap.mp ordered)
  intro first second early late no
  obtain ⟨place, here⟩ := Option.ne_none_iff_exists'.mp (located first early)
  obtain ⟨place', there⟩ := Option.ne_none_iff_exists'.mp (located second late)
  exact ⟨place, place', here, there, no place here place' there⟩

/-- The faults of one token: those found on the way to it come first, then those deferred from the token
before, and then its own. -/
theorem follows_token {before : List Token} {parse : Parse} {pull : Pull} {rest : List Pull}
    (continues : Continues before parse (pull :: rest)) (passes : Passes before pull rest)
    (read : ∀ problem ∈ problems pull.journal, problem.isLexical = true ∧ problem.place ≠ none)
    (lines : List String) (scope : Scope) :
    let faults := problems
      (Event.resolveAll lines scope (pull.journal.map .noted ++ (parse.step pull.token).2)).1
    faults.Pairwise (Diagnostic.Follows (before ++ (pull :: rest).map Pull.token)) ∧
      ∀ problem ∈ faults, ∃ place, problem.place = some place ∧ place.rank ≤ pull.token.place.rank := by
  have found : ∀ problem ∈ problems pull.journal,
      ∃ place, problem.place = some place ∧ place.rank ≤ pull.token.place.rank := by
    intro problem recorded
    obtain ⟨place, here⟩ := Option.ne_none_iff_exists'.mp (read problem recorded).2
    exact ⟨place, here, passes.ahead place (List.mem_filterMap.mpr ⟨problem, recorded, here⟩)⟩
  have late : ∀ problem ∈ problems (Event.resolveAll lines scope parse.deferred).1,
      ∃ token, before.getLast? = some token ∧ problem.IsLate token := by
    intro problem recorded
    obtain ⟨event, listed, reached, recorded⟩ := Event.exists_event_of_problem recorded
    obtain ⟨token, isLast, about, delayed, orderly⟩ := continues.deferred event listed
    exact ⟨token, isLast, delayed.isLate about orderly recorded⟩
  have own (scope : Scope) : ∀ problem ∈
      problems (Event.resolveAll lines scope (parse.machine.react pull.token).now).1,
      problem.place = some pull.token.place := by
    intro problem recorded
    obtain ⟨event, listed, reached, recorded⟩ := Event.exists_event_of_problem recorded
    have about := parse.machine.about_react pull.token event (List.mem_append_left _ listed)
    exact (about.exists_place recorded).1
  simp only [step, Event.resolveAll_append, Event.resolveAll_noted, problems_append,
    List.pairwise_append, List.forall_mem_append]
  refine ⟨⟨?_, ⟨?_, ?_, ?_⟩, ?_⟩, found, ?_, fun problem now => ⟨_, own _ problem now, le_rfl⟩⟩
  · have places := noLater_of_inOrder (fun problem recorded => (read problem recorded).2) passes.found
    exact places.imp .inl
  · apply List.pairwise_of_forall_mem_list
    intro first deferred second deferred'
    obtain ⟨token, isLast, located, -⟩ := late first deferred
    obtain ⟨token', isLast', located', -⟩ := late second deferred'
    rw [isLast] at isLast'
    cases isLast'
    exact .inl ⟨_, _, located, located', le_rfl⟩
  · apply List.pairwise_of_forall_mem_list
    intro first now second now'
    exact .inl ⟨_, _, own _ first now, own _ second now', le_rfl⟩
  · intro first deferred second now
    obtain ⟨token, isLast, located, -⟩ := late first deferred
    exact .inl ⟨_, _, located, own _ second now, passes.past token (List.mem_of_getLast? isLast)⟩
  · -- Only here a fault can be recorded before one that is earlier in the source.
    intro first recorded
    obtain ⟨place, here, ahead⟩ := found first recorded
    refine ⟨fun second deferred => .inr ⟨(read first recorded).1, ?_⟩, fun second now => ?_⟩
    · obtain ⟨token, isLast, isLate⟩ := late second deferred
      have split := List.dropLast_append_getLast? token isLast
      refine ⟨before.dropLast, token, pull.token, rest.map Pull.token, ?_, isLate, place, here, ahead⟩
      rw [← split]
      simp
    · exact .inl ⟨_, _, here, own _ second now, ahead⟩
  · intro problem deferred
    obtain ⟨token, isLast, located, -⟩ := late problem deferred
    exact ⟨_, located, passes.past token (List.mem_of_getLast? isLast)⟩

/-- The faults of a parse follow each other as told: by induction on the tokens, since the faults of each
are no later in the source than those still to come. -/
theorem follows_run {before : List Token} {parse : Parse} {pulls : List Pull}
    (continues : Continues before parse pulls)
    (ordered : InOrder (before.map Token.place ++ pulls.flatMap Pull.places))
    (read : ∀ pull ∈ pulls, ∀ problem ∈ problems pull.journal,
      problem.isLexical = true ∧ problem.place ≠ none) (lines : List String) (scope : Scope) :
    (problems (Event.resolveAll lines scope (parse.run pulls).2).1).Pairwise
      (Diagnostic.Follows (before ++ pulls.map Pull.token)) := by
  induction pulls generalizing before parse scope with
  | nil => exact List.Pairwise.nil
  | cons pull rest ih =>
    have passes := passes_of_inOrder ordered
    rw [List.forall_mem_cons] at read
    obtain ⟨now, ahead⟩ := follows_token continues passes read.1 lines scope
    have later (scope : Scope) := ih continues.step passes.onward read.2 scope
    rw [List.append_assoc] at later
    simp only [run]
    rw [Event.resolveAll_append, problems_append, List.pairwise_append]
    refine ⟨now, later _, ?_⟩
    intro first early second recorded
    obtain ⟨place, here, le⟩ := ahead first early
    obtain ⟨place', there, ge⟩ := exists_place_run continues.step passes.coming
      (fun pull member problem found => (read.2 pull member problem found).2) recorded
    exact .inl ⟨place, place', here, there, le.trans ge⟩

end Parse

/-- However far a scan gets, the machine is in order on its tokens: they are those of a scan that nothing
stops, or the first of them. -/
theorem Scanner.isOrderly_run (file : String) (limit : Int) (source : String) :
    ∀ event ∈ (Machine.initial.drive (ofSource file limit source).run.tokens).2,
      event.IsOrderly fun _ => True := by
  have whole {limit : Int} (done : (ofSource file limit source).run.ending = .finished) :
      ∀ event ∈ (Machine.initial.drive (ofSource file limit source).run.tokens).2,
        event.IsOrderly fun _ => True := by
    have keeps : Machine.initial.Keeps (ofSource file limit source).run.tokens := keeps_runLines done rfl rfl
    exact fun event found => (keeps.events event found).mono fun _ _ => trivial
  cases ending : (ofSource file limit source).run.ending with
  | finished => exact whole ending
  | overflow problem =>
    obtain ⟨enough, done⟩ : ∃ enough, (ofSource file enough source).run.ending = .finished :=
      ⟨(ofSource file limit source).lines.length, finished_of_large (by simp [ofSource])⟩
    obtain ⟨line, late, more, -⟩ := exists_opening_of_overflow (Levels.within_nil limit) ending
    have tokens : ∃ others, (ofSource file enough source).run.tokens =
        (ofSource file limit source).run.tokens ++ others := by
      have all : (ofSource file enough source).run.pulls = _ := pulls_of_finished done
      refine ⟨_, (congrArg (List.map Pull.token) (all.trans more)).trans List.map_append⟩
    obtain ⟨others, tokens⟩ := tokens
    intro event found
    apply whole done event
    rw [tokens, Machine.drive_append]
    exact List.mem_append_left _ found

theorem Parsing.follows (file : String) (limit : Int) (scope : Scope) (source : String) :
    (problems (ofSource file limit scope source).journal).Pairwise
      (Diagnostic.Follows (Scanner.ofSource file limit source).run.tokens) := by
  have continues : Parse.Continues [] .initial (Scanner.ofSource file limit source).run.pulls :=
    ⟨List.forall_mem_nil _, Scanner.isOrderly_run file limit source⟩
  have read : ∀ pull ∈ (Scanner.ofSource file limit source).run.pulls, ∀ problem ∈ problems pull.journal,
      problem.isLexical = true ∧ problem.place ≠ none := by
    intro pull member problem recorded
    obtain ⟨place, located, -⟩ := (Scanner.isPlaced_run file limit source pull member).faults problem recorded
    obtain ⟨entry, happened, fault⟩ := List.mem_filterMap.mp recorded
    have lexical := Scanner.isOfReading_runLines _ _ _ pull member entry happened problem fault
    exact ⟨Diagnostic.isLexical_of_isOfReading lexical, by simp [located]⟩
  have follows := Parse.follows_run continues (Scanner.inOrder_run file limit source) read
    (quotedLines source) scope
  cases ending : (Scanner.ofSource file limit source).run.ending with
  | finished =>
    obtain ⟨inner, last, tokens, ends, inside, _⟩ := Scanner.exists_tokens_run ending
    simp only [ofSource, ending, Parsed.ofPulls_eq_run file tokens inside ends]
    exact follows
  | overflow problem =>
    simp only [ofSource, ending]
    exact follows

/-- The lexical faults of a source are recorded in the order of the source, and so are all others. Where a
fault is recorded before one that is earlier in the source, the former is lexical, and the latter is an
unknown variable or a level too many at some token; the lexical fault is then no later in the source than
the start of the token behind this one. -/
theorem faults_recorded_in_order (options : Options) (file : Option String) (source : String) :
    let name := options.nameFor file
    let tokens := (Scanner.ofSource name options.limit source).run.tokens
    let faults := problems (Parsing.ofSource name options.limit .empty source).journal
    (∀ compilation, (compile options file source).result = .ok compilation →
      compilation.problems = faults) ∧
    (∀ problem ∈ faults, problem.place.isSome) ∧
    (faults.filter Diagnostic.isLexical).Pairwise Diagnostic.NoLater ∧
    (faults.filter fun problem => !problem.isLexical).Pairwise Diagnostic.NoLater ∧
    ∀ early first middle second late, faults = early ++ first :: (middle ++ second :: late) →
      first.Behind second → first.Overtakes tokens second := by
  intro name tokens faults
  have follows : faults.Pairwise (Diagnostic.Follows tokens) := Parsing.follows _ _ _ _
  refine ⟨?_, ?_, ?_, ?_, ?_⟩
  · intro compilation compiled
    obtain ⟨parsed, -, -, -, recorded⟩ := exists_parsed_of_compiled compiled
    exact recorded
  · intro problem recorded
    obtain ⟨place, before, after, piece, into⟩ :=
      Parsing.exists_pointsInto (List.mem_append_left _ recorded)
    rw [into.located]
    rfl
  · exact Diagnostic.noLater_of_follows follows fun problem lexical => lexical
  · exact Diagnostic.noLater_of_follows follows fun problem other => by simpa using other
  · intro early first middle second late split behind
    rw [split, List.pairwise_append, List.pairwise_cons] at follows
    rcases follows.2.1.1 second (by simp) with noLater | overtakes
    · exact absurd behind noLater.not_behind
    · exact overtakes

/-- A name without a value, a character that starts nothing behind it, and a parenthesis that is not
closed. -/
def tardySource : String := "x = (y $\n"

theorem faults_recorded_in_order_tardy :
    ∃ compilation first second third, (compile {} none tardySource).result = .ok compilation ∧
      compilation.problems = [first, second, third] ∧
      first.cause = .unknownCharacter '$' ∧ first.place = some ⟨"<input>", 1, 8⟩ ∧
      second.cause = .undefinedVariable "y" [] ∧ second.place = some ⟨"<input>", 1, 6⟩ ∧
      first.Overtakes (Scanner.ofSource "<input>" 100 tardySource).run.tokens second ∧
      (compilation.problems.filter fun problem => !problem.isLexical).Pairwise Diagnostic.NoLater := by
  have shape : (compile {} none tardySource).result.toOption.map (fun compilation =>
      compilation.problems.map fun problem => (problem.cause, problem.place)) =
      some [(.unknownCharacter '$', some ⟨"<input>", 1, 8⟩),
        (.undefinedVariable "y" [], some ⟨"<input>", 1, 6⟩),
        (.unexpectedToken "end of line" (some "')'"), some ⟨"<input>", 1, 9⟩)] := by
    decide +kernel
  obtain ⟨recorded, -, -, others, exception⟩ := faults_recorded_in_order {} none tardySource
  cases compiled : (compile {} none tardySource).result with
  | error problem =>
    rw [compiled] at shape
    cases shape
  | ok compilation =>
    rw [compiled] at shape
    rw [← recorded compilation compiled] at others exception
    obtain ⟨first, rest, faults, isFirst, shape⟩ := List.map_eq_cons_iff.mp (Option.some.inj shape)
    obtain ⟨second, rest, rfl, isSecond, shape⟩ := List.map_eq_cons_iff.mp shape
    obtain ⟨third, rest, rfl, isThird, shape⟩ := List.map_eq_cons_iff.mp shape
    rw [List.map_eq_nil_iff] at shape
    rw [shape] at faults
    obtain ⟨cause, place⟩ := Prod.mk.inj isFirst
    obtain ⟨cause', place'⟩ := Prod.mk.inj isSecond
    have behind : first.Behind second :=
      ⟨_, _, place, place', Prod.Lex.toLex_lt_toLex.mpr (.inr ⟨rfl, by decide⟩)⟩
    exact ⟨compilation, first, second, third, rfl, faults, cause, place, cause', place',
      exception [] first [] second [third] faults behind, others⟩

end Offside
