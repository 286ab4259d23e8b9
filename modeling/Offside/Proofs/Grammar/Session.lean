import Offside.Grammar.Descent

/-!
What a session comes to, and what the machine makes of the tokens that the session leaves. One token of a
session is one reaction of the machine: what happens before the next token is pulled is what happens at
once, and what happens after it is what happens later.
-/

namespace Offside

/-- The session comes to an end, with a result and at a place that are as asked for. -/
def Session.Ends {Product : Type} (session : Session Product) (cursor : Cursor)
    (goal : Product → Cursor → Prop) : Prop :=
  ∃ result last, session.run cursor = some (result, last) ∧ goal result last

namespace Session

variable {Product Further : Type} {cursor : Cursor}

theorem Ends.mono {session : Session Product} {goal weaker : Product → Cursor → Prop}
    (ends : session.Ends cursor goal) (weakens : ∀ result last, goal result last → weaker result last) :
    session.Ends cursor weaker := by
  obtain ⟨result, last, run, reached⟩ := ends
  exact ⟨result, last, run, weakens result last reached⟩

@[simp]
theorem ends_pure (result : Product) (goal : Product → Cursor → Prop) :
    (pure result : Session Product).Ends cursor goal ↔ goal result cursor := by
  constructor
  · rintro ⟨_, _, ⟨⟩, reached⟩
    exact reached
  · exact fun reached => ⟨_, _, rfl, reached⟩

@[simp]
theorem ends_bind (session : Session Product) (further : Product → Session Further)
    (goal : Further → Cursor → Prop) :
    (session >>= further).Ends cursor goal ↔
      session.Ends cursor fun result last => (further result).Ends last goal := by
  constructor
  · rintro ⟨result, last, run, reached⟩
    rw [StateT.run_bind] at run
    obtain ⟨⟨middle, between⟩, first, second⟩ := Option.bind_eq_some_iff.mp run
    exact ⟨middle, between, first, result, last, second, reached⟩
  · rintro ⟨middle, between, first, result, last, second, reached⟩
    refine ⟨result, last, ?_, reached⟩
    rw [StateT.run_bind, first]
    exact second

@[simp]
theorem ends_modify (change : Cursor → Cursor) (goal : PUnit → Cursor → Prop) :
    (modify change : Session PUnit).Ends cursor goal ↔ goal ⟨⟩ (change cursor) := by
  constructor
  · rintro ⟨_, _, ⟨⟩, reached⟩
    exact reached
  · exact fun reached => ⟨_, _, rfl, reached⟩

@[simp]
theorem ends_get (goal : Cursor → Cursor → Prop) :
    (get : Session Cursor).Ends cursor goal ↔ goal cursor cursor := by
  constructor
  · rintro ⟨_, _, ⟨⟩, reached⟩
    exact reached
  · exact fun reached => ⟨_, _, rfl, reached⟩

@[simp]
theorem ends_map (change : Product → Further) (session : Session Product)
    (goal : Further → Cursor → Prop) :
    (change <$> session).Ends cursor goal ↔ session.Ends cursor fun result => goal (change result) := by
  rw [← bind_pure_comp, ends_bind]
  simp only [ends_pure]

end Session

namespace Descent

variable {Product Further : Type} {cursor : Cursor}

@[simp]
theorem ends_bind {descent : Descent Product} {further : Product → Descent Further}
    {goal : Except Fault Further → Cursor → Prop} :
    (descent >>= further).run.Ends cursor goal ↔
      descent.run.Ends cursor fun
        | .ok result, last => (further result).run.Ends last goal
        | .error fault, last => goal (.error fault) last := by
  rw [ExceptT.run_bind, Session.ends_bind]
  constructor
  all_goals
    intro ends
    refine ends.mono fun result last reached => ?_
    cases result with
    | ok result => exact reached
    | error fault => simpa using reached

@[simp]
theorem ends_lift {session : Session Product} {goal : Except Fault Product → Cursor → Prop} :
    (liftM session : Descent Product).run.Ends cursor goal ↔
      session.Ends cursor fun result => goal (.ok result) := by
  rw [show (liftM session : Descent Product).run = Except.ok <$> session from rfl, Session.ends_map]

@[simp]
theorem ends_peek {goal : Token → Cursor → Prop} : peek.Ends cursor goal ↔ goal cursor.current cursor := by
  simp [peek]

@[simp]
theorem ends_tell {event : Event} {goal : Unit → Cursor → Prop} :
    (tell event).Ends cursor goal ↔ goal () (cursor.told [event]) := by
  simp [tell]

theorem ends_advance (notEnd : cursor.current.kind ≠ .endOfInput) {goal : Token → Cursor → Prop} :
    advance.Ends cursor goal ↔ goal cursor.current cursor.next := by
  simp [advance, notEnd]

@[simp]
theorem ends_refuse {expected : String} {goal : Except Fault Product → Cursor → Prop} :
    (refuse expected : Descent Product).run.Ends cursor goal ↔
      goal (.error ⟨.unexpectedToken cursor.current.described (some expected), cursor.current⟩) cursor := by
  simp [refuse]

theorem ends_expect {kind : Kind} (notEnd : kind ≠ .endOfInput) {expected : String}
    {goal : Except Fault Token → Cursor → Prop} :
    (expect kind expected).run.Ends cursor goal ↔
      if cursor.current.kind = kind then goal (.ok cursor.current) cursor.next
      else goal (.error ⟨.unexpectedToken cursor.current.described (some expected), cursor.current⟩) cursor := by
  simp only [expect, ends_bind, ends_lift, ends_peek]
  split
  next same => rw [ends_lift, ends_advance (same ▸ notEnd)]
  next => exact ends_refuse

theorem ends_enter {token : Token} {goal : Except Fault Unit → Cursor → Prop} :
    (enter token).run.Ends cursor goal ↔
      if cursor.nesting < deepestNesting then
        goal (.ok ()) { cursor with nesting := cursor.nesting + 1 }
      else goal (.error ⟨.expressionTooDeep deepestNesting, token⟩) cursor := by
  simp only [enter, ExceptT.run, Session.ends_bind, Session.ends_get]
  split
  · simp
  · simp

end Descent

namespace Cursor

def left (cursor : Cursor) : Nat :=
  if cursor.current.kind = .endOfInput then 0 else cursor.upcoming.length + 1

/-- A place that is reached by consuming tokens, or without looking at another token. -/
def Reaches (cursor last : Cursor) : Prop :=
  last.left < cursor.left ∨ last.left = cursor.left ∧ last.current = cursor.current

theorem Reaches.refl (cursor : Cursor) : cursor.Reaches cursor := .inr ⟨rfl, rfl⟩

theorem Reaches.trans {first second third : Cursor} (early : first.Reaches second)
    (late : second.Reaches third) : first.Reaches third := by
  rcases early with less | ⟨same, current⟩
  · rcases late with further | ⟨equal, -⟩
    · exact .inl (Nat.lt_trans further less)
    · exact .inl (equal ▸ less)
  · rcases late with further | ⟨equal, still⟩
    · exact .inl (same ▸ further)
    · exact .inr ⟨equal.trans same, still.trans current⟩

theorem Reaches.left_le {cursor last : Cursor} (reaches : cursor.Reaches last) :
    last.left ≤ cursor.left := by
  rcases reaches with less | ⟨same, -⟩
  · exact Nat.le_of_lt less
  · exact Nat.le_of_eq same

theorem left_next {cursor : Cursor} (notEnd : cursor.current.kind ≠ .endOfInput) :
    cursor.next.left < cursor.left := by
  obtain ⟨file, current, upcoming, pulled, nesting, events⟩ := cursor
  cases upcoming with
  | nil => simp [left, next, Token.endAt, notEnd]
  | cons pull rest =>
    by_cases ends : pull.token.kind = .endOfInput
    · simp [left, next, ends, notEnd]
    · simp [left, next, ends, notEnd]

theorem left_ofPulls (file : String) (pulls : List Pull) : (ofPulls file pulls).left ≤ pulls.length := by
  cases pulls with
  | nil => exact Nat.le_of_eq rfl
  | cons pull rest =>
    by_cases ends : pull.token.kind = .endOfInput
    · simp [left, ofPulls, next, ends]
    · simp [left, ofPulls, next, ends]

@[simp]
theorem nesting_next (cursor : Cursor) : cursor.next.nesting = cursor.nesting := by
  unfold next
  split <;> rfl

@[simp]
theorem told_nil (cursor : Cursor) : cursor.told [] = cursor := by
  simp [told]

end Cursor

namespace Machine

/-- What the machine makes of a token and of all that follow it, after what has happened before. -/
def complete (machine : Machine) (cursor : Cursor) : Parsed :=
  let reaction := machine.react cursor.current
  if cursor.current.kind = .endOfInput then
    ⟨reaction.machine.statements.reverse, cursor.pulled, cursor.events ++ reaction.now⟩
  else
    let (parse, count, events) := Parse.runToEnd cursor.file cursor.current.place.line
      ⟨reaction.machine, reaction.later⟩ cursor.upcoming
    ⟨parse.statements, cursor.pulled + count, cursor.events ++ reaction.now ++ events⟩

theorem complete_ofPulls (file : String) (pulls : List Pull) :
    initial.complete (.ofPulls file pulls) = Parsed.ofPulls file pulls := by
  cases pulls with
  | nil => rfl
  | cons pull rest =>
    by_cases ends : pull.token.kind = .endOfInput
    · simp [complete, Cursor.ofPulls, Cursor.next, Parsed.ofPulls, Parse.runToEnd, Parse.step, Parse.initial,
        Pull.isLast, Parse.statements, ends]
    · simp [complete, Cursor.ofPulls, Cursor.next, Parsed.ofPulls, Parse.runToEnd, Parse.step, Parse.initial,
        Pull.isLast, ends, Nat.add_comm]

theorem complete_react (machine : Machine) {cursor : Cursor} (notEnd : cursor.current.kind ≠ .endOfInput) :
    (machine.react cursor.current).machine.complete
        (((cursor.told (machine.react cursor.current).now).next).told (machine.react cursor.current).later) =
      machine.complete cursor := by
  obtain ⟨file, current, upcoming, pulled, nesting, events⟩ := cursor
  cases upcoming with
  | nil =>
    simp [complete, Cursor.told, Cursor.next, Token.endAt, Parse.runToEnd, Parse.step, Parse.statements, notEnd]
  | cons pull rest =>
    by_cases ends : pull.token.kind = .endOfInput
    · simp [complete, Cursor.told, Cursor.next, Parse.runToEnd, Parse.step, Parse.statements, Pull.isLast,
        ends, notEnd]
    · simp [complete, Cursor.told, Cursor.next, Parse.runToEnd, Parse.step, Pull.isLast, ends, notEnd,
        Nat.add_assoc, Nat.add_comm 1]

/-- A session that starts at a cursor with the machine in one state gets to another cursor with the
machine in another state. -/
structure Leads (machine : Machine) (cursor : Cursor) (after : Machine) (last : Cursor) : Prop where
  same : after.complete last = machine.complete cursor
  reaches : cursor.Reaches last
  nesting : last.nesting = cursor.nesting

theorem Leads.refl (machine : Machine) (cursor : Cursor) : machine.Leads cursor machine cursor :=
  ⟨rfl, .refl cursor, rfl⟩

theorem Leads.trans {first second third : Machine} {start middle last : Cursor}
    (early : first.Leads start second middle) (late : second.Leads middle third last) :
    first.Leads start third last :=
  ⟨late.same.trans early.same, early.reaches.trans late.reaches, late.nesting.trans early.nesting⟩

variable {machine after : Machine} {cursor : Cursor}

def broken (machine : Machine) : Machine := { machine with mode := .skipping 0 [] }

theorem Leads.step (notEnd : cursor.current.kind ≠ .endOfInput) {later : List Event}
    (reacts : machine.react cursor.current = ⟨after, [], later⟩) :
    machine.Leads cursor after (cursor.next.told later) := by
  have same := machine.complete_react notEnd
  rw [reacts, Cursor.told_nil] at same
  exact ⟨same, .inl (Cursor.left_next notEnd), cursor.nesting_next⟩

theorem Leads.turn (notEnd : cursor.current.kind ≠ .endOfInput)
    (reacts : machine.react cursor.current = ⟨after, [], []⟩) : machine.Leads cursor after cursor.next := by
  have leads := Leads.step notEnd reacts
  rwa [Cursor.told_nil] at leads

theorem Leads.of_react {events : List Event}
    (reacts : machine.react cursor.current =
      { after.react cursor.current with now := events ++ (after.react cursor.current).now }) :
    machine.Leads cursor after (cursor.told events) := by
  refine ⟨?_, .inr ⟨rfl, rfl⟩, rfl⟩
  simp only [complete, reacts, Cursor.told, List.append_assoc]

theorem Leads.leave {last : Cursor}
    (leads : machine.Leads { cursor with nesting := cursor.nesting + 1 } after last) :
    machine.Leads cursor after { last with nesting := last.nesting - 1 } where
  same := leads.same
  reaches := leads.reaches
  nesting := by
    rw [leads.nesting]
    rfl

theorem Leads.of_react_eq (reacts : machine.react cursor.current = after.react cursor.current) :
    machine.Leads cursor after cursor := by
  have leads : machine.Leads cursor after (cursor.told []) := .of_react reacts
  rwa [Cursor.told_nil] at leads

theorem leads_refuse {expected : String}
    (reacts : machine.react cursor.current = machine.refuse cursor.current expected) :
    machine.Leads cursor machine.broken (cursor.told [unexpected cursor.current (some expected)]) :=
  .of_react reacts

end Machine

namespace Descent

open Machine

variable {Product Further : Type}

/-- How a descent may end that starts at a cursor with the machine in some state: it leads the machine to
the state that belongs to its result, or is broken off by a fault. -/
abbrev Meets (machine : Machine) (cursor : Cursor) (after : Product → Machine)
    (goal : Product → Cursor → Prop) (broken : Fault → Cursor → Prop) : Except Fault Product → Cursor → Prop
  | .ok result, last => machine.Leads cursor (after result) last ∧ goal result last
  | .error fault, last => broken fault last

/-- A fault leads the machine to skip the statement that it is in. -/
def Yields (descent : Descent Product) (machine : Machine) (cursor : Cursor) (after : Product → Machine)
    (goal : Product → Cursor → Prop) : Prop :=
  descent.run.Ends cursor (Meets machine cursor after goal fun fault last =>
    machine.Leads cursor machine.broken (last.told [fault.event]))

variable {machine middle : Machine} {cursor between : Cursor} {after : Product → Machine}
  {goal : Product → Cursor → Prop} {descent : Descent Product}

theorem Yields.mono {weaker : Product → Cursor → Prop} (yields : descent.Yields machine cursor after goal)
    (weakens : ∀ result last, machine.Leads cursor (after result) last → goal result last →
      weaker result last) : descent.Yields machine cursor after weaker := by
  refine Session.Ends.mono yields fun outcome last reached => ?_
  cases outcome with
  | ok result => exact ⟨reached.1, weakens result last reached.1 reached.2⟩
  | error fault => exact reached

/-- What has been consumed before counts, as long as the machine is in the same block. -/
theorem Yields.of_leads (yields : descent.Yields middle between after goal)
    (leads : machine.Leads cursor middle between) (same : middle.broken = machine.broken) :
    descent.run.Ends between (Meets machine cursor after goal fun fault last =>
      machine.Leads cursor machine.broken (last.told [fault.event])) := by
  refine Session.Ends.mono yields fun outcome last reached => ?_
  cases outcome with
  | ok result => exact ⟨leads.trans reached.1, reached.2⟩
  | error fault => exact leads.trans (same ▸ reached)

theorem Yields.bind {further : Product → Descent Further} {final : Further → Machine}
    {eventually : Further → Cursor → Prop} (yields : descent.Yields machine cursor after goal)
    (same : ∀ result, (after result).broken = machine.broken)
    (rest : ∀ result last, machine.Leads cursor (after result) last → goal result last →
      (further result).Yields (after result) last final eventually) :
    (descent >>= further).Yields machine cursor final eventually := by
  refine ends_bind.mpr (Session.Ends.mono yields fun outcome last reached => ?_)
  cases outcome with
  | ok result => exact (rest result last reached.1 reached.2).of_leads reached.1 (same result)
  | error fault => exact reached

theorem Yields.map {change : Product → Further} {final : Further → Machine}
    {eventually : Further → Cursor → Prop} (yields : descent.Yields machine cursor after goal)
    (same : ∀ result, final (change result) = after result)
    (reached : ∀ result last, goal result last → eventually (change result) last) :
    (descent >>= fun result => pure (change result)).Yields machine cursor final eventually := by
  refine ends_bind.mpr (Session.Ends.mono yields fun outcome last ended => ?_)
  cases outcome with
  | ok result =>
    refine (Session.ends_pure _ _).mpr ⟨?_, reached result last ended.2⟩
    rw [same]
    exact ended.1
  | error fault => exact ended

theorem Yields.congr {other : Product → Machine} (yields : descent.Yields machine cursor after goal)
    (reacts : ∀ result last, goal result last →
      (after result).react last.current = (other result).react last.current) :
    descent.Yields machine cursor other goal := by
  refine Session.Ends.mono yields fun outcome last reached => ?_
  cases outcome with
  | ok result => exact ⟨reached.1.trans (.of_react_eq (reacts result last reached.2)), reached.2⟩
  | error fault => exact reached

theorem yields_pure {result : Product} (reached : goal result cursor) (same : after result = machine) :
    (pure result : Descent Product).Yields machine cursor after goal := by
  refine (Session.ends_pure _ _).mpr ⟨?_, reached⟩
  rw [same]
  exact .refl machine cursor

theorem yields_refuse {expected : String}
    (reacts : machine.react cursor.current = machine.refuse cursor.current expected) :
    (refuse expected : Descent Product).Yields machine cursor after goal :=
  ends_refuse.mpr (leads_refuse reacts)

theorem yields_peek {further : Token → Descent Product}
    (rest : (further cursor.current).Yields machine cursor after goal) :
    (liftM peek >>= further : Descent Product).Yields machine cursor after goal := by
  rw [Yields, ends_bind, ends_lift, ends_peek]
  exact rest

theorem yields_advance {further : Token → Descent Product}
    (notEnd : cursor.current.kind ≠ .endOfInput)
    (reacts : machine.react cursor.current = ⟨middle, [], []⟩) (same : middle.broken = machine.broken)
    (rest : (further cursor.current).Yields middle cursor.next after goal) :
    (liftM advance >>= further : Descent Product).Yields machine cursor after
      fun result last => goal result last ∧ last.left < cursor.left := by
  have leads := Leads.turn notEnd reacts
  rw [Yields, ends_bind, ends_lift, ends_advance notEnd]
  have strict : (further cursor.current).Yields middle cursor.next after
      fun result last => goal result last ∧ last.left < cursor.left :=
    rest.mono fun result last moved reached =>
      ⟨reached, Nat.lt_of_le_of_lt moved.reaches.left_le (Cursor.left_next notEnd)⟩
  exact strict.of_leads leads same

theorem yields_expect {kind : Kind} {expected : String} (notEnd : kind ≠ .endOfInput)
    (reacts : machine.react cursor.current = if cursor.current.kind = kind then ⟨middle, [], []⟩
      else machine.refuse cursor.current expected) :
    (expect kind expected).Yields machine cursor (fun _ => middle) fun _ last => last.left < cursor.left := by
  rw [Yields, ends_expect notEnd]
  split at reacts
  next found =>
    have goesOn : cursor.current.kind ≠ .endOfInput := found ▸ notEnd
    rw [if_pos found]
    exact ⟨.turn goesOn reacts, Cursor.left_next goesOn⟩
  next other =>
    rw [if_neg other]
    exact leads_refuse reacts

end Descent

end Offside
