import Offside.Proofs.Grammar.Accounting
import Offside.Proofs.Grammar.Accusation

/-!
A compilation reads its tokens while it parses them, and so records the faults of both in one journal.
Neither minds the other: what is read does not depend on the parse, and what is said about the tokens
does not depend on what happened while they were read. A compilation is therefore a scan, and a parse
of the tokens that the scan gives.
-/

namespace Offside

def Diagnostic.isLexical (problem : Diagnostic) : Bool := problem.cause.stage = some .lexical

def Cause.isOfReading : Cause → Bool
  | misalignedDedent _ _ | unknownCharacter _ | numberOutOfRange _ => true
  | _ => false

def Entry.IsOfReading (entry : Entry) : Prop :=
  ∀ problem ∈ entry.problem?, problem.cause.isOfReading = true

theorem Entry.isOfReading_of_none {entry : Entry} (none : entry.problem? = none) :
    entry.IsOfReading := by
  intro problem found
  rw [none] at found
  cases found

theorem Diagnostic.isLexical_of_isOfReading {problem : Diagnostic}
    (read : problem.cause.isOfReading = true) : problem.isLexical = true := by
  rw [isLexical, decide_eq_true_eq]
  cases cause : problem.cause with
  | misalignedDedent width enclosing => rfl
  | unknownCharacter char => rfl
  | numberOutOfRange lexeme => rfl
  | _ =>
    rw [cause] at read
    cases read

namespace Event

def entry? : Event → Option Entry
  | noted entry => some entry
  | _ => none

/-- The events of the machine: none comes from reading tokens, and what it rejects is a fault of
grammar. -/
def IsVoiced : Event → Prop
  | noted _ => False
  | rejected cause _ => cause.stage = some .grammatical
  | used _ | assigned _ | recovered _ => True

def isSpoken (event : Event) : Bool := event.entry?.isNone

theorem IsVoiced.isSpoken {event : Event} (voiced : event.IsVoiced) : event.isSpoken = true := by
  cases event with
  | noted entry => exact voiced.elim
  | _ => rfl

end Event

theorem Cause.Accuses.isGrammatical {cause : Cause} {token : Token} (accuses : cause.Accuses token) :
    cause.stage = some .grammatical := by
  cases cause with
  | unexpectedToken | strayIndent | expressionTooDeep => rfl
  | _ => exact accuses.elim

theorem Event.IsAbout.isVoiced {event : Event} {token : Token} (about : event.IsAbout token) :
    event.IsVoiced := by
  cases event with
  | noted entry => exact about.elim
  | rejected cause accused => exact about.2.isGrammatical
  | _ => trivial

theorem Machine.voiced_react (machine : Machine) (token : Token) :
    ∀ event ∈ (machine.react token).now ++ (machine.react token).later, event.IsVoiced :=
  fun event found => (machine.about_react token event found).isVoiced

namespace Parse

/-- Tokens that come from no source text are parsed as the pulled ones: what is listed for them is
what is listed for the pulled ones, without the events of reading. -/
theorem run_ofToken (parse : Parse) (pulls : List Pull)
    (voiced : ∀ event ∈ parse.deferred, event.IsVoiced) :
    parse.run ((pulls.map Pull.token).map Pull.ofToken) =
      ((parse.run pulls).1, (parse.run pulls).2.filter Event.isSpoken) := by
  induction pulls generalizing parse with
  | nil => rfl
  | cons pull rest ih =>
    have reacts := parse.machine.voiced_react pull.token
    have later := ih (parse.step pull.token).1 fun event found =>
      reacts event (List.mem_append_right _ found)
    have unread : (pull.journal.map Event.noted).filter Event.isSpoken = [] := by
      simp [Event.isSpoken, Event.entry?]
    have kept : (parse.step pull.token).2.filter Event.isSpoken = (parse.step pull.token).2 := by
      apply List.filter_eq_self.mpr
      intro event found
      rcases List.mem_append.mp found with waited | now
      · exact (voiced event waited).isSpoken
      · exact (reacts event (List.mem_append_left _ now)).isSpoken
    simp only [List.map_cons, run, Pull.ofToken, later, List.filter_append, unread, kept, List.map_nil,
      List.nil_append]

theorem entries_run (parse : Parse) (pulls : List Pull)
    (voiced : ∀ event ∈ parse.deferred, event.IsVoiced) :
    (parse.run pulls).2.filterMap Event.entry? = pulls.flatMap Pull.journal := by
  induction pulls generalizing parse with
  | nil => rfl
  | cons pull rest ih =>
    have reacts := parse.machine.voiced_react pull.token
    have later := ih (parse.step pull.token).1 fun event found =>
      reacts event (List.mem_append_right _ found)
    have unread : (parse.step pull.token).2.filterMap Event.entry? = [] := by
      apply List.filterMap_eq_nil_iff.mpr
      intro event found
      rw [← Option.isNone_iff_eq_none]
      rcases List.mem_append.mp found with waited | now
      · exact (voiced event waited).isSpoken
      · exact (reacts event (List.mem_append_left _ now)).isSpoken
    have read : (pull.journal.map Event.noted).filterMap Event.entry? = pull.journal := by
      rw [List.filterMap_map]
      exact List.filterMap_some
    simp only [run, List.filterMap_append, unread, read, later, List.append_nil, List.flatMap_cons]

end Parse

namespace Event

theorem IsVoiced.not_lexical {event : Event} (voiced : event.IsVoiced) (lines : List String)
    (scope : Scope) :
    ∀ problem ∈ problems (event.resolve lines scope).1, problem.isLexical = false := by
  intro problem recorded
  cases event with
  | noted entry => exact voiced.elim
  | rejected cause token =>
    cases List.mem_singleton.mp recorded
    simp only [Diagnostic.isLexical, show cause.stage = some .grammatical from voiced]
    rfl
  | used token =>
    simp only [resolve] at recorded
    split at recorded
    · cases recorded
    · cases List.mem_singleton.mp recorded
      rfl
  | assigned token =>
    simp only [resolve] at recorded
    split at recorded <;> cases recorded
  | recovered skipped => cases recorded

/-- An event whose faults are those of its stage: lexical ones when it comes from reading a token, and
never lexical ones when the machine says it. -/
def IsStaged : Event → Prop
  | noted entry => entry.IsOfReading
  | event => event.IsVoiced

theorem IsVoiced.isStaged {event : Event} (voiced : event.IsVoiced) : event.IsStaged := by
  cases event with
  | noted entry => exact voiced.elim
  | _ => exact voiced

/-- The faults of an event are either all lexical, and then it comes from reading a token and declares
nothing, or none of them is. -/
theorem IsStaged.cases {event : Event} (staged : event.IsStaged) :
    (∃ entry, event = noted entry ∧ ∀ problem ∈ problems [entry], problem.isLexical = true) ∨
      event.IsVoiced := by
  cases event with
  | noted entry =>
    refine .inl ⟨entry, rfl, ?_⟩
    intro problem found
    obtain ⟨other, member, fault⟩ := List.mem_filterMap.mp found
    rw [List.mem_singleton.mp member] at fault
    exact Diagnostic.isLexical_of_isOfReading (staged problem fault)
  | rejected cause token => exact .inr staged
  | used token => exact .inr trivial
  | assigned token => exact .inr trivial
  | recovered skipped => exact .inr trivial

theorem resolveAll_spoken (lines : List String) (scope : Scope) (events : List Event)
    (staged : ∀ event ∈ events, event.IsStaged) :
    (resolveAll lines scope (events.filter isSpoken)).2 = (resolveAll lines scope events).2 ∧
      problems (resolveAll lines scope (events.filter isSpoken)).1 =
        (problems (resolveAll lines scope events).1).filter (fun problem => !problem.isLexical) ∧
      problems (events.filterMap entry?) =
        (problems (resolveAll lines scope events).1).filter Diagnostic.isLexical := by
  induction events generalizing scope with
  | nil => exact ⟨rfl, rfl, rfl⟩
  | cons event rest ih =>
    rw [List.forall_mem_cons] at staged
    obtain ⟨sameScope, sameOthers, sameLexical⟩ := ih (event.resolve lines scope).2 staged.2
    rcases staged.1.cases with ⟨entry, rfl, lexical⟩ | voiced
    · -- The event is left out, and with it lexical faults only.
      have dropped : (noted entry :: rest).filter isSpoken = rest.filter isSpoken := rfl
      have read : (noted entry :: rest).filterMap entry? = [entry] ++ rest.filterMap entry? := rfl
      have none : (problems [entry]).filter (fun problem => !problem.isLexical) = [] := by
        simpa [List.filter_eq_nil_iff] using lexical
      have all : (problems [entry]).filter Diagnostic.isLexical = problems [entry] :=
        List.filter_eq_self.mpr lexical
      simp only [resolve] at sameScope sameOthers sameLexical
      simp only [dropped, read, resolveAll, resolve, problems_append, List.filter_append, sameScope,
        sameOthers, sameLexical, none, all, List.nil_append, and_self]
    · have kept : (event :: rest).filter isSpoken = event :: rest.filter isSpoken :=
        List.filter_cons_of_pos voiced.isSpoken
      have unread : (event :: rest).filterMap entry? = rest.filterMap entry? :=
        List.filterMap_cons_none (Option.isNone_iff_eq_none.mp voiced.isSpoken)
      have others := voiced.not_lexical lines scope
      have none : (problems (event.resolve lines scope).1).filter Diagnostic.isLexical = [] := by
        simpa [List.filter_eq_nil_iff] using others
      have all : (problems (event.resolve lines scope).1).filter (fun problem => !problem.isLexical) =
          problems (event.resolve lines scope).1 := by
        simpa [List.filter_eq_self] using others
      simp only [kept, unread, resolveAll, problems_append, List.filter_append, sameScope, sameOthers,
        sameLexical, none, all, List.nil_append, and_self]

end Event

namespace Scanner

theorem mem_handOut {levels : Levels} {waiting : List Entry} {tokens : List Token} {pull : Pull}
    (member : pull ∈ handOut levels waiting tokens) : ∀ entry ∈ pull.journal, entry ∈ waiting := by
  induction tokens generalizing waiting with
  | nil => cases member
  | cons token owed ih =>
    rcases List.mem_cons.mp member with rfl | later
    · exact fun entry found => found
    · exact fun entry found => absurd (ih later entry found) (List.not_mem_nil)

theorem isOfReading_marginPulls (file : String) (line : Line) (levels : Levels) :
    ∀ pull ∈ marginPulls file line levels, ∀ entry ∈ pull.journal, entry.IsOfReading := by
  intro pull member entry found
  have happened := mem_handOut member entry found
  simp only [marginJournal] at happened
  split at happened
  · cases List.mem_singleton.mp happened
    exact Entry.isOfReading_of_none rfl
  · rcases List.mem_append.mp happened with closed | misaligned
    · obtain ⟨width, _, rfl⟩ := List.mem_map.mp closed
      exact Entry.isOfReading_of_none rfl
    · split at misaligned
      · cases misaligned
      · cases List.mem_singleton.mp misaligned
        rintro problem ⟨⟩
        rfl

theorem isOfReading_segmentFaults (file : String) (line : Line) (column : Nat) (segment : Segment) :
    ∀ entry ∈ segmentFaults file line column segment, entry.IsOfReading := by
  intro entry found
  unfold segmentFaults at found
  split at found
  · cases List.mem_singleton.mp found
    rintro problem ⟨⟩
    rfl
  · split at found
    · cases List.mem_singleton.mp found
      rintro problem ⟨⟩
      rfl
    · cases found

theorem isOfReading_bodyPulls (file : String) (line : Line) (levels : Levels) (column : Nat)
    {waiting : List Entry} (segments : List Segment) (read : ∀ entry ∈ waiting, entry.IsOfReading) :
    ∀ pull ∈ bodyPulls file line levels column waiting segments,
      ∀ entry ∈ pull.journal, entry.IsOfReading := by
  induction segments generalizing column waiting with
  | nil =>
    intro pull member
    rw [List.mem_singleton.mp member]
    exact read
  | cons segment rest ih =>
    have happened : ∀ entry ∈ waiting ++ segmentFaults file line column segment, entry.IsOfReading := by
      intro entry found
      rcases List.mem_append.mp found with waited | now
      · exact read entry waited
      · exact isOfReading_segmentFaults file line column segment entry now
    rw [bodyPulls_segment]
    split
    · rw [List.forall_mem_cons]
      exact ⟨happened, ih _ (List.forall_mem_nil _)⟩
    · exact ih _ happened

theorem isOfReading_finalPulls (final : Location) (levels : Levels) :
    ∀ pull ∈ finalPulls final levels, ∀ entry ∈ pull.journal, entry.IsOfReading := by
  induction levels with
  | nil =>
    intro pull member entry found
    rw [List.mem_singleton.mp member] at found
    cases found
  | cons width outer ih =>
    unfold finalPulls
    rw [List.forall_mem_cons]
    refine ⟨?_, ih⟩
    intro entry found
    cases List.mem_singleton.mp found
    exact Entry.isOfReading_of_none rfl

theorem isOfReading_runLines (scanner : Scanner) (levels : Levels) (lines : List Line) :
    ∀ pull ∈ (runLines scanner levels lines).pulls, ∀ entry ∈ pull.journal, entry.IsOfReading := by
  refine forall_mem_runLines scanner levels lines ?_ ?_
  · intro line _ _ levels pull member
    rcases List.mem_append.mp member with margin | body
    · exact isOfReading_marginPulls scanner.file line levels pull margin
    · exact isOfReading_bodyPulls _ _ _ _ _ (List.forall_mem_nil _) pull body
  · exact isOfReading_finalPulls scanner.final

theorem cause_of_overflow {scanner : Scanner} {levels : Levels} {lines : List Line}
    {problem : Diagnostic} (stopped : (runLines scanner levels lines).ending = .overflow problem) :
    problem.cause = .tooManyLevels scanner.limit := by
  obtain ⟨line, _, _, rfl⟩ := exists_line_of_overflow stopped
  rfl

end Scanner

theorem Parse.mem_drive_of_isSpoken {pulls : List Pull} {event : Event}
    (found : event ∈ (initial.run pulls).2) (spoken : event.isSpoken = true) :
    event ∈ (Machine.initial.drive (pulls.map Pull.token)).2 := by
  have same := run_events initial pulls (fun _ _ _ _ => rfl : Pull.Omits Event.isSpoken pulls)
  have listed : event ∈ (initial.run pulls).2.filter Event.isSpoken ++
      (initial.run pulls).1.deferred.filter Event.isSpoken :=
    List.mem_append_left _ (List.mem_filter.mpr ⟨found, spoken⟩)
  rw [same] at listed
  exact (List.mem_filter.mp listed).1

namespace Parsed

theorem ofTokens_run {scanner : Scanner} (done : scanner.run.ending = .finished) (file : String) :
    ofTokens file scanner.run.tokens =
        ⟨(ofPulls file scanner.run.pulls).statements, scanner.run.tokens.length,
          (ofPulls file scanner.run.pulls).events.filter Event.isSpoken⟩ ∧
      (ofPulls file scanner.run.pulls).tokenCount = scanner.run.tokens.length ∧
      (ofPulls file scanner.run.pulls).events.filterMap Event.entry? = scanner.run.journal := by
  obtain ⟨inner, last, tokens, ends, inside, _⟩ := Scanner.exists_tokens_run done
  have pulled : scanner.run.pulls.map Pull.token = inner ++ [last] := tokens
  have unpulled : (scanner.run.tokens.map Pull.ofToken).map Pull.token = inner ++ [last] := by
    rw [List.map_map, ← tokens]
    exact List.map_id _
  have nothing : ∀ event ∈ Parse.initial.deferred, event.IsVoiced := List.forall_mem_nil _
  have alone := Parse.run_ofToken Parse.initial scanner.run.pulls nothing
  have entries := Parse.entries_run Parse.initial scanner.run.pulls nothing
  refine ⟨?_, ?_, ?_⟩
  · rw [ofTokens, ofPulls_eq_run file unpulled inside ends, ofPulls_eq_run file pulled inside ends,
      show scanner.run.tokens = scanner.run.pulls.map Pull.token from rfl, alone, List.length_map]
  · rw [ofPulls_eq_run file pulled inside ends]
    exact (List.length_map _).symm
  · rw [ofPulls_eq_run file pulled inside ends]
    exact entries

theorem staged_events {scanner : Scanner} (done : scanner.run.ending = .finished) (file : String) :
    ∀ event ∈ (ofPulls file scanner.run.pulls).events, event.IsStaged := by
  obtain ⟨inner, last, tokens, ends, inside, _⟩ := Scanner.exists_tokens_run done
  intro event found
  rw [ofPulls_eq_run file tokens inside ends] at found
  rcases Parse.mem_run (List.forall_mem_nil _) (fun _ _ _ => Event.IsAbout.isVoiced) found with
    ⟨pull, member, entry, happened, rfl⟩ | voiced
  · exact Scanner.isOfReading_runLines scanner _ _ pull member entry happened
  · exact voiced.isStaged

end Parsed

theorem compile_of_finished {options : Options} {file : Option String} {source : String}
    (done : (Scanner.ofSource (options.nameFor file) options.limit source).run.ending = .finished) :
    let parsed := Parsed.ofPulls (options.nameFor file)
      (Scanner.ofSource (options.nameFor file) options.limit source).run.pulls
    let resolved := Event.resolveAll (quotedLines source) .empty parsed.events
    (compile options file source).result = .ok ⟨options.nameFor file, parsed.statements,
      resolved.2.names, parsed.tokenCount, problems resolved.1⟩ := by
  simp only [compile, Parsing.ofSource_of_finished done]

/-- A compilation is a scan and a parse of the tokens that it gives. It fails as a whole where the scan
does, at one level too many; otherwise it has as many tokens as the scan, its lexical faults are those of
the scan, and its program, its variables and its other faults are those of the tokens parsed by
themselves. -/
theorem compile_eq_scan_then_parse (options : Options) (file : Option String) (source : String) :
    (∀ problem, (compile options file source).result = .error problem ↔
      (scanSource options file source).result = .error problem) ∧
    (∀ problem, (compile options file source).result = .error problem →
      problem.cause = .tooManyLevels options.limit) ∧
    ∀ tokens faults, (scanSource options file source).result = .ok (tokens, faults) →
      let alone := Parsed.ofTokens (options.nameFor file) tokens
      let resolved := Event.resolveAll (quotedLines source) .empty alone.events
      ∃ compilation, (compile options file source).result = .ok compilation ∧
        compilation.tokenCount = tokens.length ∧
        compilation.problems.filter Diagnostic.isLexical = faults ∧
        compilation.statements = alone.statements ∧
        compilation.names = resolved.2.names ∧
        compilation.problems.filter (fun problem => !problem.isLexical) = problems resolved.1 := by
  cases ending : (Scanner.ofSource (options.nameFor file) options.limit source).run.ending with
  | overflow problem =>
    have compiled : (compile options file source).result = .error problem := by
      simp only [compile, Parsing.ofSource, ending]
    have scanned : (scanSource options file source).result = .error problem := by
      simp only [scanSource, ending]
    rw [compiled, scanned]
    simp only [Except.error.injEq, implies_true, forall_eq', true_and, reduceCtorEq, false_implies,
      and_true]
    exact Scanner.cause_of_overflow ending
  | finished =>
    have scanned : (scanSource options file source).result = .ok
        ((Scanner.ofSource (options.nameFor file) options.limit source).run.tokens,
          problems (Scanner.ofSource (options.nameFor file) options.limit source).run.journal) := by
      simp only [scanSource, ending]
    obtain ⟨alone, count, entries⟩ := Parsed.ofTokens_run ending (options.nameFor file)
    obtain ⟨scope, others, lexical⟩ := Event.resolveAll_spoken (quotedLines source) .empty _
      (Parsed.staged_events ending (options.nameFor file))
    rw [entries] at lexical
    rw [compile_of_finished ending, scanned]
    simp only [reduceCtorEq, implies_true, false_implies, true_and]
    rintro tokens faults ⟨⟩
    rw [alone]
    refine ⟨_, rfl, ?_⟩
    dsimp only
    rw [count, lexical, scope, others]
    exact ⟨rfl, rfl, rfl, rfl, rfl⟩

/-- A source with a character that starts nothing, a stray block, a sum without its second operand and
a variable without a value. -/
def malformedSource : String := "x = 1 $\n  y = x +\nz = w\n"

theorem compile_eq_scan_then_parse_malformed :
    ∃ tokens fault compilation,
      (scanSource {} none malformedSource).result = .ok (tokens, [fault]) ∧
      (compile {} none malformedSource).result = .ok compilation ∧
      compilation.problems.length = 4 ∧
      compilation.tokenCount = tokens.length ∧
      compilation.problems.filter Diagnostic.isLexical = [fault] ∧
      compilation.statements = (Parsed.ofTokens "<input>" tokens).statements := by
  have scans : (scanSource {} none malformedSource).result.toOption.map (·.2.length) = some 1 := by
    decide +kernel
  have faults : (compile {} none malformedSource).result.toOption.map (·.problems.length) = some 4 := by
    decide +kernel
  cases scanned : (scanSource {} none malformedSource).result with
  | error problem =>
    rw [scanned] at scans
    cases scans
  | ok product =>
    obtain ⟨tokens, recorded⟩ := product
    rw [scanned] at scans
    obtain ⟨fault, rfl⟩ := List.length_eq_one_iff.mp (Option.some.inj scans)
    obtain ⟨compilation, compiled, count, lexical, statements, _⟩ :=
      (compile_eq_scan_then_parse {} none malformedSource).2.2 tokens [fault] scanned
    rw [compiled] at faults
    exact ⟨tokens, fault, compilation, rfl, compiled, Option.some.inj faults, count, lexical, statements⟩

end Offside
