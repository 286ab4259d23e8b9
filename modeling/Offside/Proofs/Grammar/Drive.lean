import Offside.Grammar.Parse
import Offside.Resolution

/-!
Runs of the statement machine. A parse drives the machine through the tokens before the first end of
input and then through one end of input; what it lists is what the machine says, and what happens
while tokens are read.
-/

namespace Offside

namespace Event

def isQuiet : Event → Bool
  | used _ | assigned _ => true
  | _ => false

def isFault : Event → Bool
  | rejected cause _ => cause.stage = some .grammatical
  | _ => false

theorem resolveAll_append (lines : List String) (scope : Scope) (front back : List Event) :
    resolveAll lines scope (front ++ back) =
      ((resolveAll lines scope front).1 ++
          (resolveAll lines (resolveAll lines scope front).2 back).1,
        (resolveAll lines (resolveAll lines scope front).2 back).2) := by
  induction front generalizing scope with
  | nil => rfl
  | cons event rest ih => simp only [List.cons_append, resolveAll, ih, List.append_assoc]

theorem resolveAll_noted (lines : List String) (scope : Scope) (journal : List Entry) :
    resolveAll lines scope (journal.map noted) = (journal, scope) := by
  induction journal with
  | nil => rfl
  | cons entry rest ih => simp only [List.map_cons, resolveAll, resolve, ih, List.singleton_append]

theorem exists_resolve_subset (lines : List String) (scope : Scope) {events : List Event}
    {event : Event} (found : event ∈ events) :
    ∃ reached, ∀ entry ∈ (event.resolve lines reached).1,
      entry ∈ (resolveAll lines scope events).1 := by
  induction events generalizing scope with
  | nil => cases found
  | cons first rest ih =>
    rcases List.mem_cons.mp found with rfl | later
    · exact ⟨scope, fun entry added => List.mem_append_left _ added⟩
    · obtain ⟨reached, kept⟩ := ih (first.resolve lines scope).2 later
      exact ⟨reached, fun entry added => List.mem_append_right _ (kept entry added)⟩

theorem exists_event_of_problem {lines : List String} {scope : Scope} {events : List Event}
    {problem : Diagnostic} (recorded : problem ∈ problems (resolveAll lines scope events).1) :
    ∃ event ∈ events, ∃ reached, problem ∈ problems (event.resolve lines reached).1 := by
  induction events generalizing scope with
  | nil => cases recorded
  | cons event rest ih =>
    simp only [resolveAll, problems, List.filterMap_append, List.mem_append] at recorded
    rcases recorded with now | later
    · exact ⟨event, by simp, scope, now⟩
    · obtain ⟨other, member, found⟩ := ih later
      exact ⟨other, by simp [member], found⟩

theorem exists_problem_of_rejected (lines : List String) (scope : Scope) {events : List Event}
    {cause : Cause} {token : Token} (found : rejected cause token ∈ events) :
    ∃ problem ∈ problems (resolveAll lines scope events).1, problem.cause = cause := by
  obtain ⟨reached, kept⟩ := exists_resolve_subset lines scope found
  exact ⟨_, List.mem_filterMap.mpr ⟨_, kept _ List.mem_cons_self, rfl⟩, rfl⟩

theorem isFault_eq_false {lines : List String} {scope : Scope} {events : List Event}
    (faultless : ∀ problem ∈ problems (resolveAll lines scope events).1,
      problem.cause.stage ≠ some .grammatical)
    {event : Event} (listed : event ∈ events) : event.isFault = false := by
  cases event with
  | rejected cause token =>
    obtain ⟨problem, recorded, same⟩ := exists_problem_of_rejected lines scope listed
    rw [isFault, decide_eq_false_iff_not, ← same]
    exact faultless problem recorded
  | _ => rfl

theorem mem_problems_of_noted (lines : List String) (scope : Scope) {events : List Event}
    {entry : Entry} {problem : Diagnostic} (found : noted entry ∈ events)
    (fault : entry.problem? = some problem) :
    problem ∈ problems (resolveAll lines scope events).1 := by
  obtain ⟨reached, kept⟩ := exists_resolve_subset lines scope found
  exact List.mem_filterMap.mpr ⟨entry, kept entry List.mem_cons_self, fault⟩

/-- Events that are uses and assignments record undefined variables at most. -/
theorem undefined_of_quiet (lines : List String) (scope : Scope) (events : List Event)
    (quiet : ∀ event ∈ events, event.isQuiet = true) :
    ∀ problem ∈ problems (resolveAll lines scope events).1,
      ∃ name similar, problem.cause = .undefinedVariable name similar := by
  induction events generalizing scope with
  | nil => intro problem recorded; cases recorded
  | cons event rest ih =>
    intro problem recorded
    simp only [resolveAll, problems, List.filterMap_append, List.mem_append] at recorded
    rcases recorded with now | later
    · have calm := quiet event (by simp)
      cases event with
      | used token =>
        simp only [resolve] at now
        split at now
        · cases now
        · simp only [faultAt, List.filterMap_cons, Entry.problem?, List.filterMap_nil,
            List.mem_singleton] at now
          exact ⟨_, _, by rw [now]⟩
      | assigned token =>
        simp only [resolve] at now
        split at now
        · cases now
        · simp [Entry.problem?] at now
      | noted entry => cases calm
      | rejected cause token => cases calm
      | recovered skipped => cases calm
    · exact ih _ (fun event found => quiet event (by simp [found])) problem later

end Event

/-- A structural token belongs to no expression: it ends one, or is refused. -/
theorem Reading.feed_of_structural (reading : Reading) {token : Token}
    (structural : token.kind.isStructural = true) :
    (∃ expr, reading.feed token = .complete expr) ∨
      ∃ expected, reading.feed token = .refused expected := by
  have noSign : token.kind.unaryOp? = none := by
    cases kind : token.kind <;> simp_all [Kind.isStructural, Kind.unaryOp?]
  have noOperator : token.kind.binaryOp? = none := by
    cases kind : token.kind <;> simp_all [Kind.isStructural, Kind.binaryOp?]
  have noLiteral : token.literal? = none := by
    cases kind : token.kind <;> simp_all [Kind.isStructural, Token.literal?]
  cases reading with
  | awaiting openings =>
    right
    simp only [feed, feedAwaiting, noSign, noLiteral]
    cases kind : token.kind <;> simp_all [Kind.isStructural]
  | holding openings operand =>
    simp only [feed, feedHolding, noOperator]
    split
    · exact .inr ⟨_, rfl⟩
    · contradiction
    · have notClosing : token.kind ≠ .closeParen := by
        intro kind
        rw [kind] at structural
        cases structural
      exact .inr ⟨_, if_neg notClosing⟩
    · exact .inl ⟨_, rfl⟩

namespace Machine

def drive : Machine → List Token → Machine × List Event
  | machine, [] => (machine, [])
  | machine, token :: rest =>
    let reaction := machine.react token
    let (last, others) := reaction.machine.drive rest
    (last, reaction.now ++ reaction.later ++ others)

theorem drive_append (machine : Machine) (front back : List Token) :
    machine.drive (front ++ back) =
      (((machine.drive front).1.drive back).1,
        (machine.drive front).2 ++ ((machine.drive front).1.drive back).2) := by
  induction front generalizing machine with
  | nil => rfl
  | cons token rest ih => simp only [List.cons_append, drive, ih, List.append_assoc]

theorem chain_arm (guard : Expr) (body : List Stmt) (rest : Arms Expr Stmt) (arms : ArmsSoFar) :
    chain (.arm guard body rest) arms = chain rest ((guard, body) :: arms) := by
  have ofList_append (last : Arms Expr Stmt) (front : List (Expr × List Stmt)) :
      Arms.ofList (.arm guard body last) front = Arms.ofList last (front ++ [(guard, body)]) := by
    induction front with
    | nil => rfl
    | cons first others ih => simp only [Arms.ofList, List.cons_append, ih]
  rw [chain, chain, List.reverse_cons, ofList_append]

theorem skip_of_plain (machine : Machine) (depth : Nat) (skipped : List Token) {token : Token}
    (plain : token.kind.isStructural = false) :
    machine.skip depth skipped token = machine.turn (.skipping depth (token :: skipped)) := by
  unfold skip
  split <;> simp_all [Kind.isStructural]

/-- The end of the input leaves the machine outside all blocks, with nothing left to happen. -/
theorem exists_react_end (machine : Machine) {token : Token} (ends : token.kind = .endOfInput) :
    ∃ statements now, machine.react token = ⟨⟨.start, [], statements⟩, now, []⟩ := by
  have refused (machine : Machine) (expected : String) :
      ∃ statements now, machine.refuse token expected = ⟨⟨.start, [], statements⟩, now, []⟩ := by
    simp only [refuse, skip, ends]
    exact ⟨_, _, rfl⟩
  obtain ⟨mode, enclosing, statements⟩ := machine
  cases mode with
  | start =>
    simp only [react, begin, ends]
    exact ⟨_, _, rfl⟩
  | expression goal reading =>
    have structural : token.kind.isStructural = true := by rw [ends]; rfl
    rcases reading.feed_of_structural structural with ⟨expr, fed⟩ | ⟨expected, fed⟩
    · simp only [react, readExpression, fed]
      cases goal <;> simp only [conclude, ends, reduceCtorEq, ↓reduceIte] <;> exact refused _ _
    · simp only [react, readExpression, fed]
      exact refused _ _
  | afterArm place arms =>
    simp only [react, ends, begin]
    exact ⟨_, _, rfl⟩
  | skipping depth skipped =>
    simp only [react, skip, ends]
    exact ⟨_, _, rfl⟩
  | _ =>
    simp only [react, ends, reduceCtorEq, ↓reduceIte]
    exact refused _ _

theorem later_of_endOfInput (machine : Machine) {token : Token} (ends : token.kind = .endOfInput) :
    (machine.react token).later = [] := by
  obtain ⟨_, _, reacts⟩ := machine.exists_react_end ends
  rw [reacts]

end Machine

def Pull.Omits (keep : Event → Bool) (pulls : List Pull) : Prop :=
  ∀ pull ∈ pulls, ∀ entry ∈ pull.journal, keep (.noted entry) = false

namespace Parse

theorem run_machine (parse : Parse) (pulls : List Pull) :
    (parse.run pulls).1.machine = (parse.machine.drive (pulls.map Pull.token)).1 := by
  induction pulls generalizing parse with
  | nil => rfl
  | cons pull rest ih => exact ih (parse.step pull.token).1

theorem run_concat (parse : Parse) (pulls : List Pull) (last : Pull) :
    (parse.run (pulls ++ [last])).1 = ((parse.run pulls).1.step last.token).1 := by
  induction pulls generalizing parse with
  | nil => rfl
  | cons pull rest ih => exact ih (parse.step pull.token).1

/-- What is listed, with what is still deferred, is what the machine said, in order. -/
theorem run_events (parse : Parse) (pulls : List Pull) {keep : Event → Bool}
    (omits : Pull.Omits keep pulls) :
    (parse.run pulls).2.filter keep ++ (parse.run pulls).1.deferred.filter keep =
      parse.deferred.filter keep ++ (parse.machine.drive (pulls.map Pull.token)).2.filter keep := by
  induction pulls generalizing parse with
  | nil => simp only [run, List.map_nil, Machine.drive, List.filter_nil, List.nil_append, List.append_nil]
  | cons pull rest ih =>
    have silent : (pull.journal.map Event.noted).filter keep = [] := by
      rw [List.filter_eq_nil_iff]
      intro event found
      obtain ⟨entry, member, rfl⟩ := List.mem_map.mp found
      rw [omits pull (by simp) entry member]
      exact Bool.false_ne_true
    have later := ih (parse.step pull.token).1 (fun other found => omits other (by simp [found]))
    simp only [run, step, List.map_cons, Machine.drive, List.filter_append, silent, List.nil_append,
      List.append_assoc]
    exact congrArg _ (congrArg _ later)

theorem exists_runToEnd (file : String) (line : Int) (parse : Parse) (pulls : List Pull) :
    ∃ last, last.token.kind = .endOfInput ∧ (last ∈ pulls ∨ last.journal = []) ∧
      ((parse.runToEnd file line pulls).1, (parse.runToEnd file line pulls).2.2) =
        parse.run (pulls.takeWhile (fun pull => !pull.isLast) ++ [last]) := by
  induction pulls generalizing parse line with
  | nil => exact ⟨.ofToken (.endAt file line), rfl, .inr rfl, by simp [runToEnd, run, Pull.ofToken]⟩
  | cons pull rest ih =>
    cases ends : pull.isLast with
    | true =>
      refine ⟨pull, by simpa only [Pull.isLast, decide_eq_true_eq] using ends, .inl List.mem_cons_self, ?_⟩
      simp [runToEnd, run, ends]
    | false =>
      obtain ⟨last, isEnd, origin, same⟩ := ih pull.token.place.line (parse.step pull.token).1
      refine ⟨last, isEnd, origin.imp_left (List.mem_cons_of_mem _), ?_⟩
      rw [List.takeWhile_cons_of_pos (by rw [ends]; rfl), List.cons_append]
      simp only [runToEnd, run, ends, ← same, Bool.false_eq_true, ↓reduceIte]

theorem runToEnd_eq_run (file : String) (line : Int) (parse : Parse) {pulls : List Pull}
    {inner : List Token} {last : Token} (tokens : pulls.map Pull.token = inner ++ [last])
    (inside : ∀ token ∈ inner, token.kind ≠ .endOfInput) (ends : last.kind = .endOfInput) :
    parse.runToEnd file line pulls = ((parse.run pulls).1, pulls.length, (parse.run pulls).2) := by
  induction inner generalizing parse line pulls with
  | nil =>
    obtain ⟨pull, rfl, rfl⟩ := List.map_eq_singleton_iff.mp tokens
    simp [runToEnd, run, Pull.isLast, ends]
  | cons token others ih =>
    obtain ⟨pull, rest, rfl, rfl, later⟩ := List.map_eq_cons_iff.mp tokens
    rw [List.forall_mem_cons] at inside
    have goesOn : pull.isLast = false := by simpa [Pull.isLast] using inside.1
    simp only [runToEnd, run, goesOn, ih _ _ later inside.2, Bool.false_eq_true, ↓reduceIte, List.length_cons]

theorem count_runToEnd (file : String) (line : Int) (parse : Parse) (pulls : List Pull) :
    (parse.runToEnd file line pulls).2.1 = ((pulls.findIdx? Pull.isLast).map (· + 1)).getD pulls.length := by
  induction pulls generalizing parse line with
  | nil => rfl
  | cons pull rest ih =>
    rw [runToEnd, List.findIdx?_cons]
    cases ends : pull.isLast with
    | true => rfl
    | false =>
      have later := ih pull.token.place.line (parse.step pull.token).1
      simp only [Bool.false_eq_true, ↓reduceIte, later]
      cases rest.findIdx? Pull.isLast <;> rfl

end Parse

namespace Parsed

def before (tokens : List Token) : List Token := tokens.takeWhile fun token => token.kind ≠ .endOfInput

theorem before_append {front : List Token} {last : Token}
    (inside : ∀ token ∈ front, token.kind ≠ .endOfInput) (ends : last.kind = .endOfInput) :
    before (front ++ [last]) = front := by
  rw [before, List.takeWhile_append_of_pos (by simpa using inside)]
  simp [ends]

theorem map_takeWhile_isLast (pulls : List Pull) :
    (pulls.takeWhile fun pull => !pull.isLast).map Pull.token = before (pulls.map Pull.token) := by
  rw [before, List.takeWhile_map]
  congr 2
  funext pull
  simp [Pull.isLast]

theorem ofPulls_eq_run (file : String) {pulls : List Pull} {inner : List Token} {last : Token}
    (tokens : pulls.map Pull.token = inner ++ [last])
    (inside : ∀ token ∈ inner, token.kind ≠ .endOfInput) (ends : last.kind = .endOfInput) :
    ofPulls file pulls =
      ⟨(Parse.initial.run pulls).1.statements, pulls.length, (Parse.initial.run pulls).2⟩ := by
  rw [ofPulls, Parse.runToEnd_eq_run file 1 .initial tokens inside ends]

/-- A parse is a run of the machine to the end of the input. -/
theorem ofPulls_eq_drive (file : String) (pulls : List Pull) :
    ∃ last : Token, last.kind = .endOfInput ∧
      (ofPulls file pulls).statements =
        (Machine.initial.drive (before (pulls.map Pull.token) ++ [last])).1.statements.reverse ∧
      ∀ keep : Event → Bool, Pull.Omits keep pulls → (ofPulls file pulls).events.filter keep =
        (Machine.initial.drive (before (pulls.map Pull.token) ++ [last])).2.filter keep := by
  obtain ⟨last, ends, origin, parsed⟩ := Parse.exists_runToEnd file 1 .initial pulls
  generalize read : pulls.takeWhile (fun pull => !pull.isLast) ++ [last] = closed at parsed
  have tokens : closed.map Pull.token = before (pulls.map Pull.token) ++ [last.token] := by
    rw [← read, List.map_append, map_takeWhile_isLast]
    rfl
  refine ⟨last.token, ends, ?_, ?_⟩
  · have machine := Parse.run_machine .initial closed
    rw [← parsed] at machine
    rw [← tokens]
    exact congrArg (fun machine => machine.statements.reverse) machine
  · intro keep omits
    have nothing : (Parse.initial.run closed).1.deferred = [] := by
      rw [← read, Parse.run_concat]
      exact Machine.later_of_endOfInput _ ends
    have omitsClosed : Pull.Omits keep closed := by
      intro pull member entry found
      rw [← read] at member
      rcases List.mem_append.mp member with early | final
      · exact omits pull (List.takeWhile_subset _ early) entry found
      · rw [List.mem_singleton.mp final] at found
        rcases origin with inside | silent
        · exact omits last inside entry found
        · rw [silent] at found
          cases found
    have same := Parse.run_events .initial closed omitsClosed
    rw [nothing, List.filter_nil, List.append_nil, tokens, ← parsed] at same
    exact same

end Parsed

end Offside
