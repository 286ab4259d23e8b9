import Offside.Proofs.Resolution.Targets

/-!
Two parses of the same tokens, the second one with more variables declared from the start. What is
declared decides about reads only: the programs are the same, and so are all faults but those of the
variables that the second scope adds.
-/

namespace Offside

namespace Diagnostic

/-- A fault without the names that it suggests, which depend on what else is declared. A variable that
was not declared keeps its name, its place and its line. -/
def withoutHints (problem : Diagnostic) : Diagnostic :=
  match problem.cause with
  | .undefinedVariable name _ => { problem with cause := .undefinedVariable name [] }
  | _ => problem

def outlasts (scope : Scope) (problem : Diagnostic) : Bool :=
  match problem.cause with
  | .undefinedVariable name _ => !scope.contains name
  | _ => true

def isGrammatical (problem : Diagnostic) : Bool := problem.cause.stage = some .grammatical

theorem withoutHints_of_not_undefined {problem : Diagnostic} (other : problem.isUndefined = false) :
    problem.withoutHints = problem := by
  unfold isUndefined at other
  unfold withoutHints
  split
  next cause => simp [cause] at other
  next => rfl

theorem outlasts_of_not_undefined {problem : Diagnostic} (other : problem.isUndefined = false)
    (scope : Scope) : problem.outlasts scope = true := by
  unfold isUndefined at other
  unfold outlasts
  split
  next cause => simp [cause] at other
  next => rfl

theorem stage_withoutHints (problem : Diagnostic) :
    problem.withoutHints.cause.stage = problem.cause.stage := by
  unfold withoutHints
  split
  next cause => rw [cause]; rfl
  next => rfl

theorem isUndefined_withoutHints (problem : Diagnostic) :
    problem.withoutHints.isUndefined = problem.isUndefined := by
  cases known : problem.isUndefined with
  | false => rw [withoutHints_of_not_undefined known, known]
  | true =>
    unfold isUndefined at known
    unfold withoutHints
    split
    next => rfl
    next other =>
      split at known
      next name similar cause => exact absurd cause (other name similar)
      next => cases known

theorem filter_map_withoutHints {isKind : Diagnostic → Bool}
    (blind : ∀ problem : Diagnostic, isKind problem.withoutHints = isKind problem)
    (faults : List Diagnostic) :
    (faults.filter isKind).map withoutHints = (faults.map withoutHints).filter isKind := by
  rw [List.filter_map]
  congr 2
  funext problem
  exact (blind problem).symm

section

variable {wide : Scope} {first second : List Diagnostic}
  (faults : second.map withoutHints = (first.filter (outlasts wide)).map withoutHints)

include faults

theorem filter_isGrammatical_of_wider : second.filter isGrammatical = first.filter isGrammatical := by
  have other (problem : Diagnostic) (kind : problem.isGrammatical = true) :
      problem.isUndefined = false := by
    rw [isGrammatical, decide_eq_true_eq] at kind
    exact isUndefined_eq_false (by rw [kind]; decide)
  have plain (problems : List Diagnostic) :
      (problems.filter isGrammatical).map withoutHints = problems.filter isGrammatical := by
    apply (List.map_congr_left ?_).trans (List.map_id _)
    intro problem found
    exact withoutHints_of_not_undefined (other problem (List.mem_filter.mp found).2)
  have blind (problem : Diagnostic) : problem.withoutHints.isGrammatical = problem.isGrammatical := by
    rw [isGrammatical, stage_withoutHints]
    rfl
  calc second.filter isGrammatical
      = (second.map withoutHints).filter isGrammatical := by
        rw [← filter_map_withoutHints blind, plain]
    _ = (first.filter (outlasts wide)).filter isGrammatical := by
        rw [faults, ← filter_map_withoutHints blind, plain]
    _ = first.filter isGrammatical := by
        rw [List.filter_filter]
        apply List.filter_congr
        intro problem _
        cases kind : problem.isGrammatical with
        | false => rfl
        | true => exact outlasts_of_not_undefined (other problem kind) wide

theorem filter_isUndefined_of_wider :
    (second.filter isUndefined).map withoutHints =
      ((first.filter isUndefined).filter (outlasts wide)).map withoutHints := by
  calc (second.filter isUndefined).map withoutHints
      = (second.map withoutHints).filter isUndefined :=
        filter_map_withoutHints isUndefined_withoutHints _
    _ = ((first.filter (outlasts wide)).filter isUndefined).map withoutHints := by
        rw [faults, filter_map_withoutHints isUndefined_withoutHints]
    _ = ((first.filter isUndefined).filter (outlasts wide)).map withoutHints := by
        simp only [List.filter_filter, Bool.and_comm]

end

end Diagnostic

namespace Event

/-- A step of both parses: `small` and `large` are what is declared in them by now. They differ by
variables of `wide` only, and so do the faults of an event. -/
theorem resolve_of_wider (lines : List String) {wide small large : Scope}
    (wider : ∀ name, large.contains name = (small.contains name || wide.contains name))
    {event : Event} (staged : event.IsStaged) :
    (problems (event.resolve lines large).1).map Diagnostic.withoutHints =
        ((problems (event.resolve lines small).1).filter (Diagnostic.outlasts wide)).map
          Diagnostic.withoutHints ∧
      ∀ name, (event.resolve lines large).2.contains name =
        ((event.resolve lines small).2.contains name || wide.contains name) := by
  have unread (faults : List Diagnostic) (others : ∀ problem ∈ faults, problem.isUndefined = false) :
      faults.map Diagnostic.withoutHints =
        (faults.filter (Diagnostic.outlasts wide)).map Diagnostic.withoutHints := by
    rw [List.filter_eq_self.mpr fun problem found =>
      Diagnostic.outlasts_of_not_undefined (others problem found) wide]
  cases event with
  | noted entry =>
    refine ⟨unread _ ?_, wider⟩
    intro problem recorded
    rcases staged.cases with ⟨same, ⟨⟩, lexical⟩ | voiced
    · have stage := lexical problem recorded
      rw [Diagnostic.isLexical, decide_eq_true_eq] at stage
      exact Diagnostic.isUndefined_eq_false (by rw [stage]; decide)
    · exact voiced.elim
  | rejected cause token =>
    have stage : cause.stage = some .grammatical := staged
    refine ⟨unread _ ?_, wider⟩
    intro problem recorded
    cases List.mem_singleton.mp recorded
    exact Diagnostic.isUndefined_eq_false (by rw [stage]; decide)
  | used token =>
    have here := wider token.payload.shown
    simp only [resolve, here]
    by_cases known : small.contains token.payload.shown = true
    · simp only [known, Bool.true_or, ↓reduceIte]
      exact ⟨rfl, wider⟩
    · by_cases added : wide.contains token.payload.shown = true
      · simp only [known, added, Bool.or_true, ↓reduceIte]
        refine ⟨?_, wider⟩
        simp [problems, faultAt, Entry.problem?, Diagnostic.outlasts, added]
      · simp only [known, added, Bool.or_false]
        refine ⟨?_, wider⟩
        simp [problems, faultAt, Entry.problem?, Diagnostic.outlasts, Diagnostic.withoutHints, added]
  | assigned token =>
    have silent (scope : Scope) : problems ((assigned token).resolve lines scope).1 = [] := by
      simp only [resolve]
      split <;> rfl
    have declares (scope : Scope) : ((assigned token).resolve lines scope).2 =
        scope.declare token.payload.shown (some token.place) := by
      rcases scope_resolve lines scope (.assigned token) with ⟨-, other⟩ | ⟨_, ⟨⟩, declares⟩
      · exact absurd rfl (other token)
      · exact declares
    refine ⟨by rw [silent, silent]; rfl, ?_⟩
    intro name
    rw [declares, declares, Scope.contains_declare, Scope.contains_declare, wider name, Bool.or_right_comm]
  | recovered skipped => exact ⟨rfl, wider⟩

theorem resolveAll_of_wider (lines : List String) {wide small large : Scope}
    (wider : ∀ name, large.contains name = (small.contains name || wide.contains name))
    {events : List Event} (staged : ∀ event ∈ events, event.IsStaged) :
    (problems (resolveAll lines large events).1).map Diagnostic.withoutHints =
      ((problems (resolveAll lines small events).1).filter (Diagnostic.outlasts wide)).map
        Diagnostic.withoutHints := by
  induction events generalizing small large with
  | nil => rfl
  | cons event rest ih =>
    rw [List.forall_mem_cons] at staged
    obtain ⟨faults, after⟩ := resolve_of_wider lines wider staged.1
    simp only [resolveAll, problems_append, List.map_append, List.filter_append, faults,
      ih after staged.2]

end Event

def Event.assignments (events : List Event) : List (String × Location) :=
  (events.filterMap Event.mention?).filterMap Mention.assignment?

/-- What is new in the larger scope after assignments is what is new in the smaller one, without the
variables that the larger one had. -/
theorem Scope.newEntries_of_wider {narrow wide : Scope} (within : narrow.names ⊆ wide.names)
    (assignments : List (String × Location)) :
    wide.newEntries assignments =
      (narrow.newEntries assignments).filter (!wide.contains ·.1) := by
  unfold newEntries
  rw [List.filter_map, List.filter_filter]
  congr 2
  funext assignment
  cases known : narrow.contains assignment.1 with
  | false => simp
  | true =>
    have kept := (mem_names_iff wide _).mp (within ((mem_names_iff narrow _).mpr known))
    simp [kept]

namespace Parsing

def ofEvents (lines : List String) (scope : Scope) (events : List Event)
    (result : Except Diagnostic Parsed) : Parsing :=
  ⟨(Event.resolveAll lines scope events).1, (Event.resolveAll lines scope events).2, result⟩

/-- What two parses have in common when the first one starts with the variables of `narrow` and the
second one with those of `wide`, and both come to the same assignments. -/
structure Concur (narrow wide : Scope) (assignments : List (String × Location))
    (first second : Parsing) : Prop where
  /-- The same program from as many tokens, or the same end of the run. -/
  result : second.result = first.result
  /-- The same faults of grammar, with all that is shown of them. -/
  grammatical : (problems second.journal).filter Diagnostic.isGrammatical =
    (problems first.journal).filter Diagnostic.isGrammatical
  /-- Of the variables that were not declared, those that `wide` lacks. -/
  undefined : ((problems second.journal).filter Diagnostic.isUndefined).map Diagnostic.withoutHints =
    (((problems first.journal).filter Diagnostic.isUndefined).filter (Diagnostic.outlasts wide)).map
      Diagnostic.withoutHints
  /-- All faults together, in one order. -/
  faults : (problems second.journal).map Diagnostic.withoutHints =
    ((problems first.journal).filter (Diagnostic.outlasts wide)).map Diagnostic.withoutHints
  /-- The first scope grows by the assigned names that it lacked. -/
  narrowed : first.scope.entries = narrow.entries ++ narrow.newEntries assignments
  /-- So does the second one. -/
  widened : second.scope.entries = wide.entries ++ wide.newEntries assignments
  /-- Both grow in the same order. -/
  sifted : wide.newEntries assignments =
    (narrow.newEntries assignments).filter (!wide.contains ·.1)

theorem concur_ofEvents (lines : List String) {narrow wide : Scope} (within : narrow.names ⊆ wide.names)
    {events : List Event} (staged : ∀ event ∈ events, event.IsStaged)
    (result : Except Diagnostic Parsed) :
    Concur narrow wide (Event.assignments events) (ofEvents lines narrow events result)
      (ofEvents lines wide events result) := by
  have wider (name : String) : wide.contains name = (narrow.contains name || wide.contains name) := by
    cases known : narrow.contains name with
    | false => rfl
    | true => exact (Scope.mem_names_iff wide _).mp (within ((Scope.mem_names_iff narrow _).mpr known))
  have faults := Event.resolveAll_of_wider lines wider staged
  have grown (scope : Scope) : (Event.resolveAll lines scope events).2.entries =
      scope.entries ++ scope.newEntries (Event.assignments events) := by
    rw [(Event.resolveAll_mention? lines scope events staged).2, Mention.entries_resolveAll]
    rfl
  exact ⟨rfl, Diagnostic.filter_isGrammatical_of_wider faults,
    Diagnostic.filter_isUndefined_of_wider faults, faults, grown narrow, grown wide,
    Scope.newEntries_of_wider within _⟩

end Parsing

theorem Parse.staged_run {pulls : List Pull}
    (read : ∀ pull ∈ pulls, ∀ entry ∈ pull.journal, entry.IsOfReading) :
    ∀ event ∈ (initial.run pulls).2, event.IsStaged := by
  intro event found
  rcases mem_run (List.forall_mem_nil _) (fun _ _ _ => Event.IsAbout.isVoiced) found with
    ⟨pull, member, entry, happened, rfl⟩ | voiced
  · exact read pull member entry happened
  · exact voiced.isStaged

theorem Parsed.staged_ofTokens (file : String) (tokens : List Token) :
    ∀ event ∈ (ofTokens file tokens).events, event.IsStaged := by
  obtain ⟨last, -, origin, runs⟩ := Parse.exists_runToEnd file 1 .initial (tokens.map Pull.ofToken)
  have given : ∀ pull ∈ tokens.map Pull.ofToken, pull.journal = [] := by
    simp [Pull.ofToken]
  have events := congrArg Prod.snd runs
  change (ofTokens file tokens).events = _ at events
  rw [events]
  apply Parse.staged_run
  intro pull member entry happened
  have unread : pull.journal = [] := by
    rw [List.mem_append, List.mem_singleton] at member
    rcases member with inner | rfl
    · exact given pull ((List.takeWhile_sublist _).subset inner)
    · exact origin.elim (given pull) id
  rw [unread] at happened
  cases happened

namespace Parsing

theorem exists_ofSource_eq (file : String) (limit : Int) (source : String) :
    ∃ events result, (∀ event ∈ events, event.IsStaged) ∧
      ∀ scope, ofSource file limit scope source = ofEvents (quotedLines source) scope events result := by
  cases ending : (Scanner.ofSource file limit source).run.ending with
  | finished =>
    exact ⟨_, _, Parsed.staged_events ending file, ofSource_of_finished ending⟩
  | overflow problem =>
    refine ⟨(Parse.initial.run (Scanner.ofSource file limit source).run.pulls).2, .error problem,
      Parse.staged_run (Scanner.isOfReading_runLines _ _ _), ?_⟩
    intro scope
    simp only [ofSource, ending, ofEvents]

/-- Whatever tokens are parsed, and however malformed they are: declaring more variables beforehand
changes neither the program, nor the number of tokens read, nor any fault of grammar. Of the variables
that were not declared, those stay that the larger scope lacks; and either scope grows by the same
assignments. So do two parses of a source. -/
theorem scope_decides_on_reads_only (file : String) (narrow wide : Scope)
    (within : narrow.names ⊆ wide.names) :
    (∀ (lines : List String) (tokens : List Token),
      (ofTokens file lines narrow tokens).result = .ok (Parsed.ofTokens file tokens) ∧
        Concur narrow wide (Event.assignments (Parsed.ofTokens file tokens).events)
          (ofTokens file lines narrow tokens) (ofTokens file lines wide tokens)) ∧
      ∀ (limit : Int) (source : String), ∃ assignments,
        Concur narrow wide assignments (ofSource file limit narrow source)
          (ofSource file limit wide source) := by
  constructor
  · intro lines tokens
    exact ⟨rfl, concur_ofEvents lines within (Parsed.staged_ofTokens file tokens) _⟩
  · intro limit source
    obtain ⟨events, result, staged, resolved⟩ := exists_ofSource_eq file limit source
    refine ⟨Event.assignments events, ?_⟩
    rw [resolved, resolved]
    exact concur_ofEvents (quotedLines source) within staged result

/-- A line that reads two unknown variables, a malformed line, and one that assigns the first of them. -/
def sharedSource : String := "x = b + c\nx = = 1\nb = d\n"

def sharedTokens : List Token := (Scanner.ofSource "sample" 100 sharedSource).run.tokens

theorem scope_decides_on_reads_only_shared :
    let narrow : Scope := ⟨[("a", none)]⟩
    let wide : Scope := ⟨[("b", none), ("a", none)]⟩
    let first := ofTokens "sample" [] narrow sharedTokens
    let second := ofTokens "sample" [] wide sharedTokens
    (problems first.journal).map Diagnostic.cause =
        [.undefinedVariable "b" ["a"], .undefinedVariable "c" ["a"],
          .unexpectedToken "'='" (some "expression"), .undefinedVariable "d" ["a", "x"]] ∧
      (problems second.journal).map Diagnostic.cause =
        [.undefinedVariable "c" ["b", "a"], .unexpectedToken "'='" (some "expression"),
          .undefinedVariable "d" ["b", "a", "x"]] ∧
      first.scope.names = ["a", "x", "b"] ∧ second.scope.names = ["b", "a", "x"] ∧
      Concur narrow wide (Event.assignments (Parsed.ofTokens "sample" sharedTokens).events) first
        second := by
  have within : (⟨[("a", none)]⟩ : Scope).names ⊆ (⟨[("b", none), ("a", none)]⟩ : Scope).names := by
    decide
  refine ⟨by decide +kernel, by decide +kernel, by decide +kernel, by decide +kernel, ?_⟩
  exact ((scope_decides_on_reads_only "sample" _ _ within).1 [] sharedTokens).2

end Parsing

end Offside
