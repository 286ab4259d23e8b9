import Offside.Grammar.Parse

/-!
What the machine says about the token that it reads. A fault is always put on that token, and names it;
a variable is used by the token of its name.
-/

namespace Offside

/-- The faults that the machine finds at a token, and how they name it. -/
def Cause.Accuses (token : Token) : Cause → Prop
  | unexpectedToken found _ => found = token.described
  | strayIndent => token.kind = .indent
  | expressionTooDeep limit =>
    limit = deepestNesting ∧ (token.kind = .openParen ∨ token.kind.unaryOp?.isSome)
  | _ => False

def Event.IsAbout (token : Token) : Event → Prop
  | noted _ => False
  | rejected cause accused => accused = token ∧ cause.Accuses token
  | used name => name = token ∧ token.kind = .name
  | assigned _ | recovered _ => True

/-- Only a parenthesis or a prefix operator opens a level too many. -/
theorem Reading.opens_of_tooDeep {reading : Reading} {token : Token}
    (deep : reading.feed token = .tooDeep) :
    token.kind = .openParen ∨ token.kind.unaryOp?.isSome := by
  cases reading with
  | awaiting openings =>
    simp only [feed, feedAwaiting] at deep
    split at deep
    next op sign => exact .inr (by rw [sign]; rfl)
    next => cases deep
    next =>
      split at deep
      next => cases deep
      next kind => exact .inl kind
      next => cases deep
  | holding openings operand =>
    simp only [feed, feedHolding] at deep
    split at deep
    next => cases deep
    next => cases deep
    next => split at deep <;> cases deep
    next => cases deep

def Reaction.IsAbout (token : Token) (reaction : Reaction) : Prop :=
  ∀ event ∈ reaction.now ++ reaction.later, event.IsAbout token

namespace Machine

theorem about_turn (machine : Machine) (token : Token) (mode : Mode) :
    (machine.turn mode).IsAbout token :=
  List.forall_mem_nil _

theorem about_closeBlock (machine : Machine) (token : Token) :
    (machine.closeBlock token).IsAbout token := by
  intro event found
  unfold closeBlock at found
  split at found
  · cases List.mem_singleton.mp found
    exact ⟨rfl, rfl⟩
  · cases found

theorem about_closeAll (machine : Machine) (token : Token) :
    (machine.closeAll token).IsAbout token := by
  intro event found
  simp only [closeAll, List.append_nil, List.mem_flatMap, List.mem_cons, List.not_mem_nil,
    or_false] at found
  obtain ⟨block, _, rfl | rfl⟩ := found
  · exact ⟨rfl, rfl⟩
  · trivial

theorem about_cons {token : Token} {reaction : Reaction} {event : Event} (first : event.IsAbout token)
    (about : reaction.IsAbout token) :
    Reaction.IsAbout token { reaction with now := event :: reaction.now } := by
  intro other found
  rcases List.mem_cons.mp found with rfl | found
  · exact first
  · exact about other found

theorem about_skip (machine : Machine) (depth : Nat) (skipped : List Token) (token : Token) :
    (machine.skip depth skipped token).IsAbout token := by
  have done (mode : Mode) : Reaction.IsAbout token
      ⟨{ machine with mode }, [], [.recovered (token :: skipped).reverse]⟩ := by
    intro event found
    cases List.mem_singleton.mp found
    trivial
  unfold skip
  split
  · exact about_cons trivial (machine.about_closeAll token)
  · exact about_cons trivial (machine.about_closeBlock token)
  · exact done .start
  · exact machine.about_turn token _
  · exact machine.about_turn token _
  · exact done .start
  · exact machine.about_turn token _

theorem about_refuse (machine : Machine) (token : Token) (expected : String) :
    (machine.refuse token expected).IsAbout token :=
  about_cons ⟨rfl, rfl⟩ (machine.about_skip 0 [] token)

theorem about_begin (machine : Machine) (token : Token) : (machine.begin token).IsAbout token := by
  unfold begin
  split
  next => exact machine.about_turn token _
  next => exact machine.about_turn token _
  next => exact machine.about_turn token _
  next => exact machine.about_turn token _
  next kind =>
    intro event found
    cases List.mem_singleton.mp found
    exact ⟨rfl, kind⟩
  next => exact machine.about_turn token _
  next => exact machine.about_closeBlock token
  next => exact machine.about_closeAll token
  next => exact machine.about_refuse token "statement"

theorem about_conclude (machine : Machine) (expr : Expr) (token : Token) (goal : Goal) :
    (machine.conclude expr token goal).IsAbout token := by
  cases goal with
  | value target =>
    simp only [conclude]
    split
    · intro event found
      cases List.mem_singleton.mp found
      trivial
    · exact machine.about_refuse token _
  | guard place earlier =>
    simp only [conclude]
    split
    · exact machine.about_turn token _
    · exact machine.about_refuse token _
  | condition place =>
    simp only [conclude]
    split
    · exact machine.about_turn token _
    · exact machine.about_refuse token _

theorem about_readExpression (machine : Machine) (goal : Goal) (reading : Reading) (token : Token) :
    (machine.readExpression goal reading token).IsAbout token := by
  unfold readExpression
  split
  · intro event found
    change event ∈ (if token.kind = .name then [Event.used token] else []) at found
    split at found
    next kind =>
      cases List.mem_singleton.mp found
      exact ⟨rfl, kind⟩
    next => cases found
  · exact machine.about_conclude _ token goal
  · exact machine.about_refuse token _
  next deep =>
    intro event found
    cases List.mem_singleton.mp found
    exact ⟨rfl, rfl, Reading.opens_of_tooDeep deep⟩

theorem about_react (machine : Machine) (token : Token) : (machine.react token).IsAbout token := by
  unfold react
  split
  · exact machine.about_begin token
  · split
    · exact machine.about_turn token _
    · exact machine.about_refuse token _
  · exact machine.about_readExpression _ _ token
  · split
    · exact machine.about_turn token _
    · exact machine.about_refuse token _
  · split
    · exact machine.about_turn token _
    · exact machine.about_refuse token _
  · split
    · exact List.forall_mem_nil _
    · exact machine.about_refuse token _
  · split
    · exact machine.about_turn token _
    · exact machine.about_turn token _
    · exact about_begin _ token
  · split
    · exact List.forall_mem_nil _
    · exact machine.about_refuse token _
  · exact machine.about_skip _ _ token

end Machine

/-- What is listed comes from reading a token, or the machine says it when it reads one. -/
theorem Parse.mem_run {said : Event → Prop} {parse : Parse} {pulls : List Pull} {event : Event}
    (waiting : ∀ event ∈ parse.deferred, said event)
    (reacts : ∀ pull ∈ pulls, ∀ event : Event, event.IsAbout pull.token → said event)
    (found : event ∈ (parse.run pulls).2) :
    (∃ pull ∈ pulls, ∃ entry ∈ pull.journal, event = .noted entry) ∨ said event := by
  induction pulls generalizing parse with
  | nil => cases found
  | cons pull rest ih =>
    rw [List.forall_mem_cons] at reacts
    have about := parse.machine.about_react pull.token
    simp only [run, step, List.append_assoc, List.mem_append] at found
    rcases found with read | waited | now | later
    · obtain ⟨entry, happened, rfl⟩ := List.mem_map.mp read
      exact .inl ⟨pull, List.mem_cons_self, entry, happened, rfl⟩
    · exact .inr (waiting event waited)
    · exact .inr (reacts.1 event (about event (List.mem_append_left _ now)))
    · have deferred : ∀ other ∈ (parse.step pull.token).1.deferred, said other :=
        fun other found => reacts.1 other (about other (List.mem_append_right _ found))
      rcases ih deferred reacts.2 later with ⟨other, member, read⟩ | now
      · exact .inl ⟨other, List.mem_cons_of_mem _ member, read⟩
      · exact .inr now

end Offside
