import Offside.Proofs.Grammar.ReadingComplete
import Offside.Proofs.Grammar.Session

/-!
Expressions read by descent, and by the machine. A call of the descent stands for the openings that the
machine keeps: the least precedence that the call admits is that of the innermost opening, and the levels
that are counted are the nested openings. Each call that is made from another one has fewer tokens left.
-/

namespace Offside

theorem Kind.ne_of_some {Product : Type} {rule : Kind → Option Product} {kind other : Kind} {product : Product}
    (found : rule kind = some product) (none : rule other = none) : kind ≠ other := by
  rintro rfl
  rw [none] at found
  cases found

namespace Reading

/-- The least precedence of an operator that belongs to the operand of the innermost opening. -/
def strength : List Opening → Nat
  | .unary op _ :: _ => op.precedence
  | .binary op _ :: _ => op.precedence + 1
  | _ => BinaryOp.or.precedence

theorem admits_of_strength_le {openings : List Opening} {op : BinaryOp}
    (tight : strength openings ≤ op.precedence) :
    ∀ opening ∈ openings.head?, opening.admits op = true := by
  cases openings with
  | nil => rintro opening ⟨⟩
  | cons first outer =>
    rintro opening ⟨⟩
    cases first with
    | paren place => rfl
    | unary sign place => exact decide_eq_true tight
    | binary other left => exact decide_eq_true (Nat.lt_of_succ_le tight)

theorem settle_unary {openings : List Opening} {op : UnaryOp} {place : Location} {next : Option BinaryOp}
    (operand : Expr) (stops : ∀ op' ∈ next, op'.precedence < op.precedence) :
    settle next (.unary op place :: openings) operand = settle next openings (.unary op operand place) := by
  rw [settle, if_neg]
  rw [Option.any_eq_true]
  rintro ⟨op', found, loose⟩
  exact absurd (stops op' found) (by simpa using loose)

theorem settle_binary {openings : List Opening} {op : BinaryOp} {left : Expr} {next : Option BinaryOp}
    (operand : Expr) (stops : ∀ op' ∈ next, op'.precedence < op.precedence + 1) :
    settle next (.binary op left :: openings) operand =
      if op.isComparison && isComparison next then .chained
      else settle next openings (.binary op left operand) := by
  rw [settle, if_neg]
  rw [Option.any_eq_true]
  rintro ⟨op', found, tight⟩
  have less := stops op' found
  have more : op.precedence < op'.precedence := by simpa using tight
  omega

theorem feed_holding_congr {openings others : List Opening} {operand other : Expr} {token : Token}
    (same : settle token.kind.binaryOp? openings operand = settle token.kind.binaryOp? others other) :
    (holding openings operand).feed token = (holding others other).feed token := by
  simp only [feed, feedHolding, same]

end Reading

namespace Machine

def within (machine : Machine) (goal : Goal) (reading : Reading) : Machine :=
  { machine with mode := .expression goal reading }

theorem react_within_congr {machine : Machine} {goal : Goal} {reading other : Reading} {token : Token}
    (same : reading.feed token = other.feed token) :
    (machine.within goal reading).react token = (machine.within goal other).react token := by
  simp only [within, react, readExpression, same]
  cases other.feed token with
  | complete expr => cases goal <;> rfl
  | _ => rfl

theorem react_within_more {machine : Machine} {goal : Goal} {reading next : Reading} {token : Token}
    (fed : reading.feed token = .more next) :
    (machine.within goal reading).react token =
      ⟨machine.within goal next, [], if token.kind = .name then [.used token] else []⟩ := by
  simp only [within, react, readExpression, fed]

theorem react_within_refused {machine : Machine} {goal : Goal} {reading : Reading} {token : Token}
    {expected : String} (fed : reading.feed token = .refused expected) :
    (machine.within goal reading).react token = (machine.within goal reading).refuse token expected := by
  simp only [within, react, readExpression, fed]

end Machine

namespace Descent

open Machine Reading

section

variable {outer : Machine} {target : Goal} {cursor : Cursor}

/-- Whether no operator follows that belongs to the innermost operand. -/
def Stops (openings : List Opening) (cursor : Cursor) : Prop :=
  ∀ op ∈ cursor.current.kind.binaryOp?, op.precedence < strength openings

variable (outer target) in
def Reads (descent : Descent Expr) (cursor : Cursor) (reading : Reading) (openings : List Opening) : Prop :=
  descent.Yields (outer.within target reading) cursor (fun expr => outer.within target (.holding openings expr))
    fun _ last => Stops openings last

variable (outer target) in
/-- What is shown of the expressions that `fuel` allows for: each call consumes a token, so there is enough
of it where fewer tokens are left. -/
def ReadsAll (fuel : Nat) : Prop :=
  ∀ (cursor : Cursor) (openings : List Opening), cursor.left < fuel → cursor.nesting = depth openings →
    Reads outer target (expression fuel (strength openings)) cursor (.awaiting openings) openings ∧
      ∀ left, Reads outer target (climb fuel (strength openings) left) cursor (.holding openings left) openings

theorem reads_climb {fuel : Nat} (openings : List Opening) (left : Expr) (enough : cursor.left < fuel + 1)
    (count : cursor.nesting = depth openings) (ih : ReadsAll outer target fuel) :
    Reads outer target (climb (fuel + 1) (strength openings) left) cursor (.holding openings left) openings := by
  rw [Reads, climb]
  refine yields_peek ?_
  cases found : cursor.current.kind.binaryOp? with
  | none =>
    refine yields_pure ?_ rfl
    intro op belongs
    rw [found] at belongs
    cases belongs
  | some op =>
    dsimp only
    split
    next loose =>
      refine yields_pure ?_ rfl
      intro op' belongs
      rw [found] at belongs
      cases belongs
      exact loose
    next tight =>
      have notEnd : cursor.current.kind ≠ .endOfInput := Kind.ne_of_some found rfl
      have notName : cursor.current.kind ≠ .name := Kind.ne_of_some found rfl
      have fed : (Reading.holding openings left).feed cursor.current =
          .more (.awaiting (.binary op left :: openings)) := by
        simp only [feed, feedHolding, found,
          settle_of_admits (admits_of_strength_le (Nat.not_lt.mp tight)) left]
      have reacts : (outer.within target (.holding openings left)).react cursor.current = _ :=
        react_within_more fed
      rw [if_neg notName] at reacts
      have fewer := Cursor.left_next notEnd
      refine (yields_advance notEnd reacts rfl ?_).mono fun _ _ _ reached => reached.1
      have right := (ih cursor.next (.binary op left :: openings) (by omega) (cursor.nesting_next.trans count)).1
      refine Yields.bind right (fun _ => rfl) fun operand last leads stops => yields_peek ?_
      have settled : settle last.current.kind.binaryOp? (.binary op left :: openings) operand = _ :=
        settle_binary operand stops
      split
      next chains =>
        rw [if_pos chains] at settled
        refine yields_refuse (react_within_refused ?_)
        simp only [feed, feedHolding, settled]
      next chains =>
        rw [if_neg chains] at settled
        -- The machine still has the operator open; the next token closes it in either state.
        have less := leads.reaches.left_le
        have rest := (ih last openings (by omega)
          (leads.nesting.trans (cursor.nesting_next.trans count))).2 (.binary op left operand)
        exact rest.of_leads (.of_react_eq (react_within_congr (feed_holding_congr settled))) rfl

theorem yields_nested {openings : List Opening} {opening : Opening} {inner : Descent Expr}
    {whole : Expr → Expr} (count : cursor.nesting = depth openings)
    (fed : (Reading.awaiting openings).feed cursor.current = nest openings opening)
    (isNested : opening.isNested = true) (notEnd : cursor.current.kind ≠ .endOfInput)
    (notName : cursor.current.kind ≠ .name)
    (yields : ∀ deeper : Cursor, deeper.left < cursor.left → deeper.nesting = depth (opening :: openings) →
      inner.Yields (outer.within target (.awaiting (opening :: openings))) deeper
        (fun expr => outer.within target (.holding openings (whole expr))) fun _ _ => True) :
    (do
      let _ ← advance
      return whole (← nested cursor.current inner) : Descent Expr).Yields
        (outer.within target (.awaiting openings)) cursor
        (fun expr => outer.within target (.holding openings expr)) fun _ last => last.left < cursor.left := by
  rw [Yields, ends_bind, ends_lift, ends_advance notEnd]
  dsimp only
  rw [ends_bind, nested, ends_bind, ends_enter, Cursor.nesting_next, count]
  rw [nest] at fed
  split at fed
  next shallow =>
    have reacts : (outer.within target (.awaiting openings)).react cursor.current = _ :=
      react_within_more fed
    rw [if_neg notName] at reacts
    have opens := Leads.turn notEnd reacts
    have deeper : cursor.next.nesting + 1 = depth (opening :: openings) := by
      rw [cursor.nesting_next, count, depth, depth, List.countP_cons_of_pos isNested]
    have less := Cursor.left_next notEnd
    rw [if_pos shallow, ← count, ← cursor.nesting_next]
    simp only [ExceptT.run, Session.ends_bind, leave, Session.ends_modify, Session.ends_pure]
    refine Session.Ends.mono (yields { cursor.next with nesting := _ } less deeper) fun outcome last reached => ?_
    -- The level is left with or without a fault, so either outcome is one level further out.
    cases outcome with
    | ok expr =>
      have leads := opens.trans (Leads.leave reached.1)
      exact (Session.ends_pure _ _).mpr ⟨leads, Nat.lt_of_le_of_lt reached.1.reaches.left_le less⟩
    | error fault => exact opens.trans (Leads.leave reached)
  next deep =>
    rw [if_neg deep]
    have reacts : (outer.within target (.awaiting openings)).react cursor.current =
        ⟨(outer.within target (.awaiting openings)).broken, [],
          [Fault.event ⟨.expressionTooDeep deepestNesting, cursor.current⟩]⟩ := by
      simp only [within, react, readExpression, fed]
      rfl
    exact .step notEnd reacts

theorem binaryOp?_of_stops {openings : List Opening} (weakest : strength openings = BinaryOp.or.precedence)
    (stops : Stops openings cursor) : cursor.current.kind.binaryOp? = none := by
  cases found : cursor.current.kind.binaryOp? with
  | none => rfl
  | some op =>
    have less := stops op found
    rw [weakest] at less
    cases op <;> cases less <;> contradiction

theorem yields_parenthesized {openings : List Opening} {place : Location} {inside : Descent Expr}
    (reads : Reads outer target inside cursor (.awaiting (.paren place :: openings)) (.paren place :: openings)) :
    (parenthesized inside).Yields (outer.within target (.awaiting (.paren place :: openings))) cursor
      (fun expr => outer.within target (.holding openings (.group expr place))) fun _ _ => True := by
  refine Yields.bind reads (fun _ => rfl) fun expr last leads stops => ?_
  have none := binaryOp?_of_stops rfl stops
  have reacts : (outer.within target (.holding (.paren place :: openings) expr)).react last.current =
      if last.current.kind = .closeParen then ⟨outer.within target (.holding openings (.group expr place)), [], []⟩
      else (outer.within target (.holding (.paren place :: openings) expr)).refuse last.current "')'" := by
    by_cases closes : last.current.kind = .closeParen
    · have fed : (Reading.holding (.paren place :: openings) expr).feed last.current =
          .more (.holding openings (.group expr place)) := by
        simp only [feed, feedHolding, none, settle, if_pos closes]
      rw [react_within_more fed, if_pos closes, closes]
      rfl
    · have fed : (Reading.holding (.paren place :: openings) expr).feed last.current = .refused "')'" := by
        simp only [feed, feedHolding, none, settle, if_neg closes]
      rw [react_within_refused fed, if_neg closes]
  refine Yields.bind (yields_expect (by decide) reacts) (fun _ => rfl) fun _ _ _ _ => yields_pure trivial rfl

theorem yields_literal {openings : List Opening} {value : Literal}
    (noSign : cursor.current.kind.unaryOp? = none) (found : cursor.current.literal? = some value) :
    (do
      let _ ← advance
      return .literal value cursor.current.place : Descent Expr).Yields
        (outer.within target (.awaiting openings)) cursor
        (fun expr => outer.within target (.holding openings expr)) fun _ last => last.left < cursor.left := by
  have fed : (Reading.awaiting openings).feed cursor.current =
      .more (.holding openings (.literal value cursor.current.place)) := by
    simp only [feed, feedAwaiting, noSign, found]
  have reacts : (outer.within target (.awaiting openings)).react cursor.current = _ := react_within_more fed
  have notEnd : cursor.current.kind ≠ .endOfInput := by
    intro ends
    simp [Token.literal?, ends] at found
  have notName : cursor.current.kind ≠ .name := by
    intro isName
    simp [Token.literal?, isName] at found
  rw [if_neg notName] at reacts
  have rest : (pure (.literal value cursor.current.place) : Descent Expr).Yields
      (outer.within target (.holding openings (.literal value cursor.current.place))) cursor.next
      (fun expr => outer.within target (.holding openings expr)) fun _ _ => True := yields_pure trivial rfl
  exact (yields_advance notEnd reacts rfl rest).mono fun _ _ _ reached => reached.2

/-- A name is told of after the next token has been pulled. -/
theorem yields_name {openings : List Opening} (noLiteral : cursor.current.literal? = none)
    (isName : cursor.current.kind = .name) :
    (do
      let _ ← advance
      tell (.used cursor.current)
      return .name cursor.current.payload.shown cursor.current.place : Descent Expr).Yields
        (outer.within target (.awaiting openings)) cursor
        (fun expr => outer.within target (.holding openings expr)) fun _ last => last.left < cursor.left := by
  have fed : (Reading.awaiting openings).feed cursor.current =
      .more (.holding openings (.name cursor.current.payload.shown cursor.current.place)) := by
    simp only [feed, feedAwaiting, Kind.unaryOp?, noLiteral, isName]
  have reacts : (outer.within target (.awaiting openings)).react cursor.current = _ := react_within_more fed
  rw [if_pos isName] at reacts
  have notEnd : cursor.current.kind ≠ .endOfInput := by simp [isName]
  simp only [Yields, ends_bind, ends_lift, ends_advance notEnd, ends_tell]
  exact (Session.ends_pure _ _).mpr ⟨.step notEnd reacts, Cursor.left_next notEnd⟩

theorem yields_operand {fuel : Nat} (openings : List Opening) (enough : cursor.left < fuel + 1)
    (count : cursor.nesting = depth openings) (ih : ReadsAll outer target fuel) :
    (operand (expression fuel)).Yields (outer.within target (.awaiting openings)) cursor
      (fun expr => outer.within target (.holding openings expr)) fun _ last => last.left < cursor.left := by
  refine yields_peek ?_
  split
  next op found =>
    have fed : (Reading.awaiting openings).feed cursor.current = nest openings (.unary op cursor.current.place) := by
      simp only [feed, feedAwaiting, found]
    refine yields_nested count fed rfl (Kind.ne_of_some found rfl) (Kind.ne_of_some found rfl)
      fun deeper less level => ?_
    have inner := (ih deeper _ (by omega) level).1
    refine (Yields.congr inner fun expr last stops => ?_).mono fun _ _ _ _ => trivial
    exact react_within_congr (feed_holding_congr (settle_unary expr stops))
  next value noSign found => exact yields_literal noSign found
  next noSign noLiteral =>
    split
    next kind => exact yields_name noLiteral kind
    next kind =>
      have fed : (Reading.awaiting openings).feed cursor.current =
          nest openings (.paren cursor.current.place) := by
        simp only [feed, feedAwaiting, Kind.unaryOp?, noLiteral, kind]
      refine yields_nested count fed rfl (by simp [kind]) (by simp [kind])
        fun deeper less level => yields_parenthesized (ih deeper _ (by omega) level).1
    next notName notParen =>
      refine yields_refuse (react_within_refused ?_)
      simp only [feed, feedAwaiting, noSign, noLiteral]

theorem readsAll (outer : Machine) (target : Goal) (fuel : Nat) : ReadsAll outer target fuel := by
  induction fuel with
  | zero => exact fun cursor openings enough => absurd enough (Nat.not_lt_zero _)
  | succ fuel ih =>
    intro cursor openings enough count
    refine ⟨?_, fun left => reads_climb openings left enough count ih⟩
    rw [Reads, expression]
    refine Yields.bind (yields_operand openings enough count ih) (fun _ => rfl) fun expr last leads less => ?_
    exact (ih last openings (by omega) (leads.nesting.trans count)).2 expr

end

end Descent

end Offside
