import Offside.Proofs.Grammar.Drive
import Offside.Proofs.Grammar.DescentExpr

/-!
Statements read by descent, and by the machine. A statement that does not start at the end of its block or
of the input consumes a token, or is broken off before a token that is then skipped. So each turn of a loop
over statements leaves fewer tokens, and there is enough fuel for the loop, and for all that is called in
it, where there is more than there are tokens left.
-/

namespace Offside

namespace Descent

open Machine

section

variable {enclosing : List Enclosing} {statements : List Stmt} {cursor : Cursor}

theorem yields_whole {fuel : Nat} (target : Goal) (enough : cursor.left < fuel) (outside : cursor.nesting = 0) :
    (expression fuel BinaryOp.or.precedence).Yields ⟨.expression target .start, enclosing, statements⟩ cursor
      (fun expr => ⟨.expression target (.holding [] expr), enclosing, statements⟩)
      fun _ last => last.current.kind.binaryOp? = none :=
  (readsAll ⟨.start, enclosing, statements⟩ target fuel cursor [] enough outside).1.mono
    fun _ _ _ stops => binaryOp?_of_stops rfl stops

theorem react_concluded {target : Goal} {expr : Expr} {token : Token} (none : token.kind.binaryOp? = none) :
    react ⟨.expression target (.holding [] expr), enclosing, statements⟩ token =
      conclude ⟨.expression target (.holding [] expr), enclosing, statements⟩ expr token target := by
  simp only [react, readExpression, Reading.feed, Reading.feedHolding, Reading.settle, none]

theorem yields_turn {Product : Type} {further : Token → Descent Product} {after : Product → Machine}
    {mode next : Mode} (notEnd : cursor.current.kind ≠ .endOfInput)
    (reacts : react ⟨mode, enclosing, statements⟩ cursor.current = ⟨⟨next, enclosing, statements⟩, [], []⟩)
    (rest : (further cursor.current).Yields ⟨next, enclosing, statements⟩ cursor.next after fun _ _ => True) :
    (liftM advance >>= further : Descent Product).Yields ⟨mode, enclosing, statements⟩ cursor after
      fun _ last => last.left < cursor.left :=
  (yields_advance notEnd reacts rfl rest).mono fun _ _ _ reached => reached.2

theorem yields_lineEnd {machine middle : Machine}
    (reacts : machine.react cursor.current = if cursor.current.kind = .endOfLine then ⟨middle, [], []⟩
      else machine.refuse cursor.current "end of line") :
    lineEnd.Yields machine cursor (fun _ => middle) fun _ last => last.left < cursor.left :=
  (yields_expect (by decide) reacts).map (fun _ => rfl) fun _ _ less => less

theorem yields_headerEnd {mode : Mode} {header : Header}
    (reacts : react ⟨mode, enclosing, statements⟩ cursor.current =
      if cursor.current.kind = .colon then ⟨⟨.lineEnd header, enclosing, statements⟩, [], []⟩
      else Machine.refuse ⟨mode, enclosing, statements⟩ cursor.current "':'") :
    headerEnd.Yields ⟨mode, enclosing, statements⟩ cursor (fun _ => ⟨.opening header, enclosing, statements⟩)
      fun _ _ => True := by
  refine Yields.bind (yields_expect (by decide) reacts) (fun _ => rfl) fun _ last _ _ => ?_
  exact (yields_lineEnd rfl).mono fun _ _ _ _ => trivial

abbrev Adds (descent : Descent (Option Stmt)) (mode : Mode) (enclosing : List Enclosing)
    (statements : List Stmt) (cursor : Cursor) : Prop :=
  descent.Yields ⟨mode, enclosing, statements⟩ cursor
    (fun stmt => ⟨.start, enclosing, stmt.toList ++ statements⟩) fun _ last => last.left < cursor.left

theorem yields_assigned {target : Token} {value : Expr} (none : cursor.current.kind.binaryOp? = none) :
    (do
      lineEnd
      tell (.assigned target)
      return some (.assign target.payload.shown value target.place) : Descent (Option Stmt)).Yields
        ⟨.expression (.value target) (.holding [] value), enclosing, statements⟩ cursor
        (fun stmt => ⟨.start, enclosing, stmt.toList ++ statements⟩) fun _ _ => True := by
  have reacts : react ⟨.expression (.value target) (.holding [] value), enclosing, statements⟩ cursor.current = _ :=
    react_concluded none
  rw [conclude] at reacts
  rw [Yields, ends_bind, lineEnd, ends_bind, ends_expect (by decide)]
  split at reacts
  next ends =>
    have notEnd : cursor.current.kind ≠ .endOfInput := by simp [ends]
    rw [if_pos ends]
    refine (Session.ends_pure _ _).mpr ?_
    simp only [ends_bind, ends_lift, ends_tell]
    exact (Session.ends_pure _ _).mpr ⟨.step notEnd reacts, trivial⟩
  next other =>
    rw [if_neg other]
    exact leads_refuse reacts

theorem adds_assignment {fuel : Nat} (enough : cursor.left < fuel) (isName : cursor.current.kind = .name)
    (outside : cursor.nesting = 0) : Adds (assignment fuel) .start enclosing statements cursor := by
  have notEnd : cursor.current.kind ≠ .endOfInput := by simp [isName]
  have fewer := Cursor.left_next notEnd
  have reacts : react ⟨.start, enclosing, statements⟩ cursor.current =
      ⟨⟨.target cursor.current, enclosing, statements⟩, [], []⟩ := by
    simp only [react, begin, isName]
    rfl
  refine yields_turn notEnd reacts ?_
  refine Yields.bind (yields_expect (by decide) rfl) (fun _ => rfl) fun _ later leads less => ?_
  have nested := leads.nesting.trans (cursor.nesting_next.trans outside)
  exact Yields.bind (yields_whole _ (by omega) nested) (fun _ => rfl) fun value last _ none => yields_assigned none

theorem adds_leaving (isBreak : cursor.current.kind = .breakWord) :
    Adds leaving .start enclosing statements cursor := by
  have reacts : react ⟨.start, enclosing, statements⟩ cursor.current =
      ⟨⟨.leaving cursor.current.place, enclosing, statements⟩, [], []⟩ := by
    simp only [react, begin, isBreak]
    rfl
  refine yields_turn (by simp [isBreak]) reacts ?_
  exact (yields_lineEnd rfl).map (fun _ => rfl) fun _ _ _ => trivial

end

section

variable {Product Further : Type} {machine middle : Machine} {cursor between : Cursor}
  {after : Product → Machine} {goal : Product → Cursor → Prop} {descent : Descent Product}

/-- No fault gets out of the descent. -/
def Succeeds (descent : Descent Product) (machine : Machine) (cursor : Cursor) (after : Product → Machine)
    (goal : Product → Cursor → Prop) : Prop :=
  descent.run.Ends cursor (Meets machine cursor after goal fun _ _ => False)

theorem Succeeds.exists_run (succeeds : descent.Succeeds machine cursor after goal) :
    ∃ result last, descent.run.run cursor = some (.ok result, last) ∧
      machine.Leads cursor (after result) last ∧ goal result last := by
  obtain ⟨outcome, last, run, reached⟩ := succeeds
  cases outcome with
  | ok result => exact ⟨result, last, run, reached⟩
  | error fault => exact reached.elim

theorem Succeeds.of_leads (succeeds : descent.Succeeds middle between after goal)
    (leads : machine.Leads cursor middle between) :
    descent.run.Ends between (Meets machine cursor after goal fun _ _ => False) := by
  obtain ⟨result, last, run, reached, met⟩ := succeeds.exists_run
  exact ⟨.ok result, last, run, leads.trans reached, met⟩

theorem Succeeds.bind {further : Product → Descent Further} {final : Further → Machine}
    {eventually : Further → Cursor → Prop} (succeeds : descent.Succeeds machine cursor after goal)
    (rest : ∀ result last, machine.Leads cursor (after result) last → goal result last →
      (further result).Succeeds (after result) last final eventually) :
    (descent >>= further).Succeeds machine cursor final eventually := by
  refine ends_bind.mpr (Session.Ends.mono succeeds fun outcome last reached => ?_)
  cases outcome with
  | ok result => exact (rest result last reached.1 reached.2).of_leads reached.1
  | error fault => exact reached

theorem succeeds_pure {result : Product} (reached : goal result cursor) (same : after result = machine) :
    (pure result : Descent Product).Succeeds machine cursor after goal := by
  refine (Session.ends_pure _ _).mpr ⟨?_, reached⟩
  rw [same]
  exact .refl machine cursor

theorem succeeds_peek {further : Token → Descent Product}
    (rest : (further cursor.current).Succeeds machine cursor after goal) :
    (liftM peek >>= further : Descent Product).Succeeds machine cursor after goal := by
  rw [Succeeds, ends_bind, ends_lift, ends_peek]
  exact rest

end

/-- What a block asks of the statements in it: they are read up to its end, or to that of the input. -/
def ReadsBody (statements : Descent (List Stmt)) (cursor : Cursor) : Prop :=
  ∀ enclosing : List Enclosing, statements.Succeeds ⟨.start, enclosing, []⟩ cursor
    (fun body => ⟨.start, enclosing, body.reverse⟩)
    fun _ last => last.current.kind = .dedent ∨ last.current.kind = .endOfInput

section

variable {enclosing : List Enclosing} {statements : List Stmt} {cursor : Cursor} {inside : Descent (List Stmt)}
  {fuel : Nat}

/-- At the end of the input a block lacks its end, and the statement that it belongs to is skipped. -/
theorem leads_unclosed {header : Header} {body : List Stmt} (ends : cursor.current.kind = .endOfInput) :
    Leads ⟨.start, ⟨header, statements⟩ :: enclosing, body⟩ cursor
      ⟨.skipping 0 [], enclosing, statements⟩
      (cursor.told [unexpected cursor.current (some "end of block")]) := by
  apply Leads.of_react
  simp only [react, begin, Machine.skip, ends, closeAll, List.flatMap_cons, outermost, List.getLast?_cons]
  cases enclosing with
  | nil => rfl
  | cons block outer =>
    rw [List.getLast?_cons]
    rfl

theorem yields_block (header : Header) (outside : cursor.nesting = 0)
    (ih : ∀ later : Cursor, later.left < cursor.left → later.nesting = 0 → ReadsBody inside later) :
    (block inside).Yields ⟨.opening header, enclosing, statements⟩ cursor
      (fun body => leaveBlock ⟨.start, enclosing, statements⟩ body header)
      fun _ last => last.left < cursor.left := by
  rw [block, Yields, ends_bind, ends_expect (by decide)]
  by_cases opens : cursor.current.kind = .indent
  · have notEnd : cursor.current.kind ≠ .endOfInput := by simp [opens]
    have less := Cursor.left_next notEnd
    have reacts : react ⟨.opening header, enclosing, statements⟩ cursor.current =
        ⟨⟨.start, ⟨header, statements⟩ :: enclosing, []⟩, [], []⟩ := by
      simp only [react, opens, ↓reduceIte]
      rfl
    have inside := Leads.turn notEnd reacts
    rw [if_pos opens]
    dsimp only
    rw [ends_bind]
    have reads := ih cursor.next less (cursor.nesting_next.trans outside) (⟨header, statements⟩ :: enclosing)
    obtain ⟨body, last, run, leads, stops⟩ := reads.exists_run
    refine ⟨_, _, run, ?_⟩
    dsimp only
    rw [ends_bind, ends_expect (by decide)]
    rcases stops with dedent | ends
    · rw [if_pos dedent]
      have reacts : react ⟨.start, ⟨header, statements⟩ :: enclosing, body.reverse⟩ last.current =
          ⟨leaveBlock ⟨.start, enclosing, statements⟩ body header, [], []⟩ := by
        simp only [react, begin, dedent, closeBlock, List.reverse_reverse]
      have closes := Leads.turn (by simp [dedent]) reacts
      refine (Session.ends_pure _ _).mpr ⟨inside.trans (leads.trans closes), ?_⟩
      exact Nat.lt_of_le_of_lt (leads.trans closes).reaches.left_le less
    · rw [if_neg (by simp [ends])]
      exact inside.trans (leads.trans (leads_unclosed ends))
  · rw [if_neg opens]
    refine leads_refuse ?_
    simp only [react, opens, ↓reduceIte]

theorem yields_condition {Product : Type} {target : Goal} (header : Expr → Header)
    {further : Expr → Descent Product} {after : Product → Machine} {goal : Product → Cursor → Prop}
    (concludes : ∀ mode expr token, conclude ⟨mode, enclosing, statements⟩ expr token target =
      if token.kind = .colon then ⟨⟨.lineEnd (header expr), enclosing, statements⟩, [], []⟩
      else Machine.refuse ⟨mode, enclosing, statements⟩ token "':'")
    (enough : cursor.left < fuel) (outside : cursor.nesting = 0)
    (rest : ∀ expr last, last.left ≤ cursor.left → last.nesting = 0 →
      (further expr).Yields ⟨.opening (header expr), enclosing, statements⟩ last after goal) :
    (do
      let expr ← expression fuel BinaryOp.or.precedence
      headerEnd
      further expr : Descent Product).Yields ⟨.expression target .start, enclosing, statements⟩ cursor
        after goal := by
  refine Yields.bind (yields_whole target enough outside) (fun _ => rfl) fun expr last leads none => ?_
  have reacts := (react_concluded none).trans (concludes _ expr last.current)
  refine Yields.bind (yields_headerEnd reacts) (fun _ => rfl) fun _ final leads' _ => ?_
  have whole := leads.trans leads'
  exact rest expr final whole.reaches.left_le (whole.nesting.trans outside)

theorem yields_choice (place : Location) (earlier : ArmsSoFar) (enough : cursor.left < fuel)
    (outside : cursor.nesting = 0)
    (ih : ∀ later : Cursor, later.left < cursor.left → later.nesting = 0 → ReadsBody inside later) :
    (choice inside fuel place earlier).Yields ⟨.expression (.guard place earlier) .start, enclosing, statements⟩
      cursor (fun stmt => ⟨.start, enclosing, stmt.toList ++ statements⟩) fun _ _ => True := by
  induction fuel generalizing cursor earlier with
  | zero => exact absurd enough (Nat.not_lt_zero _)
  | succ fuel again =>
    rw [choice]
    refine yields_condition (.arm place earlier) (fun _ _ _ => rfl) enough outside
      fun guard first less nested => ?_
    have bodies : ∀ later : Cursor, later.left < first.left → later.nesting = 0 → ReadsBody inside later :=
      fun later closer => ih later (Nat.lt_of_lt_of_le closer less)
    refine Yields.bind (yields_block _ nested bodies) (fun _ => rfl) fun body last leads consumed => yields_peek ?_
    have nested' := leads.nesting.trans nested
    split
    next elif =>
      have reacts : react ⟨.afterArm place ((guard, body) :: earlier), enclosing, statements⟩ last.current =
          ⟨⟨.expression (.guard place ((guard, body) :: earlier)) .start, enclosing, statements⟩, [], []⟩ := by
        simp only [react, elif]
        rfl
      have notEnd : last.current.kind ≠ .endOfInput := by simp [elif]
      have further := Cursor.left_next notEnd
      refine (yields_turn notEnd reacts ?_).mono fun _ _ _ _ => trivial
      exact again _ (by omega) (last.nesting_next.trans nested') fun later closer => ih later (by omega)
    next otherwise =>
      have reacts : react ⟨.afterArm place ((guard, body) :: earlier), enclosing, statements⟩ last.current =
          ⟨⟨.colon (.otherwise place ((guard, body) :: earlier)), enclosing, statements⟩, [], []⟩ := by
        simp only [react, otherwise]
        rfl
      have notEnd : last.current.kind ≠ .endOfInput := by simp [otherwise]
      have further := Cursor.left_next notEnd
      refine (yields_turn notEnd reacts ?_).mono fun _ _ _ _ => trivial
      refine Yields.bind (yields_headerEnd rfl) (fun _ => rfl) fun _ final leads' _ => ?_
      have fewer := leads'.reaches.left_le
      exact (yields_block _ (leads'.nesting.trans (last.nesting_next.trans nested'))
        fun later closer => ih later (by omega)).map (fun _ => rfl) fun _ _ _ => trivial
    next noElif noElse =>
      refine (Session.ends_pure _ _).mpr ⟨.of_react_eq ?_, trivial⟩
      simp only [leaveBlock, react]
      rfl

theorem adds_statement (enough : cursor.left < fuel) (notDedent : cursor.current.kind ≠ .dedent)
    (notEnd : cursor.current.kind ≠ .endOfInput) (outside : cursor.nesting = 0)
    (ih : ∀ later : Cursor, later.left < cursor.left → later.nesting = 0 → ReadsBody inside later) :
    Adds (statement fuel inside) .start enclosing statements cursor := by
  have fewer := Cursor.left_next notEnd
  have nested := cursor.nesting_next.trans outside
  have bodies : ∀ later : Cursor, later.left < cursor.next.left → later.nesting = 0 → ReadsBody inside later :=
    fun later closer => ih later (Nat.lt_trans closer fewer)
  rw [Adds, statement]
  refine yields_peek ?_
  split
  next kind => exact adds_assignment enough kind outside
  next kind =>
    have reacts : react ⟨.start, enclosing, statements⟩ cursor.current =
        ⟨⟨.expression (.guard cursor.current.place []) .start, enclosing, statements⟩, [], []⟩ := by
      simp only [react, begin, kind]
      rfl
    exact yields_turn notEnd reacts (yields_choice _ [] (by omega) nested bodies)
  next kind =>
    have reacts : react ⟨.start, enclosing, statements⟩ cursor.current =
        ⟨⟨.expression (.condition cursor.current.place) .start, enclosing, statements⟩, [], []⟩ := by
      simp only [react, begin, kind]
      rfl
    refine yields_turn notEnd reacts ?_
    refine yields_condition (.loop cursor.current.place) (fun _ _ _ => rfl) (by omega) nested
      fun condition last less outside' => ?_
    exact (yields_block _ outside' fun later closer => bodies later (Nat.lt_of_lt_of_le closer less)).map
      (fun _ => rfl) fun _ _ _ => trivial
  next kind => exact adds_leaving kind
  next kind =>
    have inner : (block inside).Yields ⟨.opening .stray, enclosing, statements⟩
        (cursor.told [.rejected .strayIndent cursor.current]) _ _ := yields_block .stray outside ih
    have stray : (block inside >>= fun _ => pure none : Descent (Option Stmt)).Yields _ _
        (fun stmt => ⟨.start, enclosing, stmt.toList ++ statements⟩) fun _ last => last.left < cursor.left :=
      inner.map (fun _ => rfl) fun _ _ less => less
    rw [Yields, ends_bind, ends_lift, ends_tell]
    refine stray.of_leads (.of_react ?_) rfl
    simp only [react, begin, kind]
    rfl
  next kind =>
    have reacts : react ⟨.start, enclosing, statements⟩ cursor.current =
        ⟨⟨.start, enclosing, statements⟩, [], []⟩ := by
      simp only [react, begin, kind]
      rfl
    exact yields_turn notEnd reacts (yields_pure trivial rfl)
  next =>
    refine yields_refuse ?_
    simp only [react, begin, *]

variable (enclosing statements) in
/-- What is skipped is what the machine skips. No token is consumed only where the block or the input ends
at once. -/
theorem ends_skip (cursor : Cursor) (depth : Nat) (skipped : List Token) (enough : cursor.left < fuel) :
    (skip fuel depth skipped).Ends cursor fun _ last =>
      Leads ⟨.skipping depth skipped, enclosing, statements⟩ cursor ⟨.start, enclosing, statements⟩ last ∧
        (last.left < cursor.left ∨ last = cursor.told [.recovered skipped.reverse] ∧
          (cursor.current.kind = .dedent ∨ cursor.current.kind = .endOfInput)) := by
  induction fuel generalizing cursor depth skipped with
  | zero => exact absurd enough (Nat.not_lt_zero _)
  | succ fuel ih =>
    have goesOn (notEnd : cursor.current.kind ≠ .endOfInput) {depth' : Nat}
        (reacts : react ⟨.skipping depth skipped, enclosing, statements⟩ cursor.current =
          ⟨⟨.skipping depth' (cursor.current :: skipped), enclosing, statements⟩, [], []⟩) :
        (skip fuel depth' (cursor.current :: skipped)).Ends cursor.next fun _ last =>
          Leads ⟨.skipping depth skipped, enclosing, statements⟩ cursor ⟨.start, enclosing, statements⟩ last ∧
            (last.left < cursor.left ∨ last = cursor.told [.recovered skipped.reverse] ∧
              (cursor.current.kind = .dedent ∨ cursor.current.kind = .endOfInput)) := by
      have less := Cursor.left_next notEnd
      have first := Leads.turn notEnd reacts
      refine (ih cursor.next depth' _ (by omega)).mono fun _ last reached => ⟨first.trans reached.1, ?_⟩
      exact .inl (Nat.lt_of_le_of_lt reached.1.reaches.left_le less)
    rw [skip]
    simp only [Session.ends_bind, ends_peek]
    split
    next kind =>
      refine ends_tell.mpr ⟨.of_react ?_, .inr ⟨rfl, .inr kind⟩⟩
      simp only [react, Machine.skip, begin, kind]
      rfl
    next kind =>
      split
      next flat =>
        subst flat
        refine ends_tell.mpr ⟨.of_react ?_, .inr ⟨rfl, .inl kind⟩⟩
        simp only [react, Machine.skip, begin, kind]
        rfl
      next deep =>
        have notEnd : cursor.current.kind ≠ .endOfInput := by simp [kind]
        simp only [Session.ends_bind, ends_advance notEnd]
        split
        next single =>
          subst single
          refine ends_tell.mpr ⟨.step notEnd ?_, .inl (Cursor.left_next notEnd)⟩
          simp only [react, Machine.skip, kind]
        next deeper =>
          obtain ⟨inner, rfl⟩ : ∃ inner, depth = inner + 2 := ⟨depth - 2, by omega⟩
          refine goesOn notEnd ?_
          simp only [react, Machine.skip, kind]
          rfl
    next kind =>
      have notEnd : cursor.current.kind ≠ .endOfInput := by simp [kind]
      simp only [Session.ends_bind, ends_advance notEnd]
      refine goesOn notEnd ?_
      simp only [react, Machine.skip, kind]
      rfl
    next kind =>
      have notEnd : cursor.current.kind ≠ .endOfInput := by simp [kind]
      simp only [Session.ends_bind, ends_advance notEnd]
      split
      next flat =>
        subst flat
        refine ends_tell.mpr ⟨.step notEnd ?_, .inl (Cursor.left_next notEnd)⟩
        simp only [react, Machine.skip, kind]
      next deep =>
        refine goesOn notEnd ?_
        obtain ⟨inner, rfl⟩ := Nat.exists_eq_succ_of_ne_zero deep
        simp only [react, Machine.skip, kind]
        rfl
    next notEnd notDedent notIndent notLine =>
      simp only [Session.ends_bind, ends_advance notEnd]
      have plain : cursor.current.kind.isStructural = false := by
        simp only [Kind.isStructural, *]
      exact goesOn notEnd (skip_of_plain _ _ _ plain)

variable (enclosing statements) in
theorem succeeds_statementSafely (enough : cursor.left < fuel) (notDedent : cursor.current.kind ≠ .dedent)
    (notEnd : cursor.current.kind ≠ .endOfInput) (outside : cursor.nesting = 0)
    (ih : ∀ later : Cursor, later.left < cursor.left → later.nesting = 0 → ReadsBody inside later) :
    (statementSafely fuel inside).Succeeds ⟨.start, enclosing, statements⟩ cursor
      (fun stmt => ⟨.start, enclosing, stmt.toList ++ statements⟩) fun _ last => last.left < cursor.left := by
  have adds : Adds (statement fuel inside) .start enclosing statements cursor :=
    adds_statement enough notDedent notEnd outside ih
  rw [Succeeds, statementSafely]
  simp only [ExceptT.run, Session.ends_bind]
  refine Session.Ends.mono adds fun outcome last reached => ?_
  cases outcome with
  | ok stmt => exact (Session.ends_pure _ _).mpr reached
  | error fault =>
    simp only [Session.ends_bind, ends_tell, synchronize]
    have remains := reached.reaches.left_le
    refine (ends_skip enclosing statements _ 0 [] (Nat.lt_of_le_of_lt remains enough)).mono
      fun _ final skips => ?_
    refine (Session.ends_pure _ _).mpr ⟨reached.trans skips.1, ?_⟩
    -- Where nothing is skipped, the statement has consumed the token that is no dedent.
    rcases reached.reaches with less | ⟨same, current⟩
    · exact Nat.lt_of_le_of_lt skips.1.reaches.left_le less
    · rcases skips.2 with less | ⟨-, dedent | ends⟩
      · exact same ▸ less
      · exact absurd (current ▸ dedent) notDedent
      · exact absurd (current ▸ ends) notEnd

end

/-- The induction is on the fuel: blocks and the next turn have one unit less, and fewer tokens left. -/
theorem succeeds_statements {fuel : Nat} {cursor : Cursor} (enclosing : List Enclosing) (read : List Stmt)
    (enough : cursor.left < fuel) (outside : cursor.nesting = 0) :
    (statements fuel read).Succeeds ⟨.start, enclosing, read⟩ cursor
      (fun body => ⟨.start, enclosing, body.reverse⟩)
      fun _ last => last.current.kind = .dedent ∨ last.current.kind = .endOfInput := by
  induction fuel generalizing cursor enclosing read with
  | zero => exact absurd enough (Nat.not_lt_zero _)
  | succ fuel ih =>
    rw [statements]
    refine succeeds_peek ?_
    split
    next dedent => exact succeeds_pure (.inl dedent) (by rw [List.reverse_reverse])
    next ends => exact succeeds_pure (.inr ends) (by rw [List.reverse_reverse])
    next notDedent notEnd =>
      have bodies : ∀ later : Cursor, later.left < cursor.left → later.nesting = 0 →
          ReadsBody (statements fuel []) later :=
        fun later less level block => ih block [] (by omega) level
      have safely := succeeds_statementSafely enclosing read enough notDedent notEnd outside bodies
      refine safely.bind fun stmt last leads less => ?_
      exact ih enclosing (stmt.toList ++ read) (by omega) (leads.nesting.trans outside)

/-- Outside all blocks, a dedent is consumed as well. -/
theorem succeeds_program {fuel : Nat} {cursor : Cursor} (read : List Stmt) (enough : cursor.left < fuel)
    (outside : cursor.nesting = 0) :
    (program fuel read).Succeeds ⟨.start, [], read⟩ cursor (fun body => ⟨.start, [], body.reverse⟩)
      fun _ last => last.current.kind = .endOfInput := by
  induction fuel generalizing cursor read with
  | zero => exact absurd enough (Nat.not_lt_zero _)
  | succ fuel ih =>
    rw [program]
    refine succeeds_peek ?_
    split
    next ends => exact succeeds_pure ends (by rw [List.reverse_reverse])
    next dedent =>
      have notEnd : cursor.current.kind ≠ .endOfInput := by simp [dedent]
      have reacts : react ⟨.start, [], read⟩ cursor.current =
          ⟨⟨.start, [], read⟩, [], [unexpected cursor.current none]⟩ := by
        simp only [react, begin, dedent]
        rfl
      have leads := Leads.step notEnd reacts
      have less : (cursor.next.told [unexpected cursor.current none]).left < fuel :=
        Nat.lt_of_lt_of_le (Cursor.left_next notEnd) (Nat.le_of_lt_succ enough)
      simp only [Succeeds, ends_bind, ends_lift, ends_advance notEnd, ends_tell]
      exact (ih read less (leads.nesting.trans outside)).of_leads leads
    next notEnd notDedent =>
      have bodies : ∀ later : Cursor, later.left < cursor.left → later.nesting = 0 →
          ReadsBody (statements fuel []) later :=
        fun later less level block => succeeds_statements block [] (by omega) level
      have safely := succeeds_statementSafely [] read enough notDedent notEnd outside bodies
      refine safely.bind fun stmt last leads less => ?_
      exact ih (stmt.toList ++ read) (by omega) (leads.nesting.trans outside)

/-- The descent comes to an end, and gives what the machine gives. -/
theorem parse_eq {fuel : Nat} (file : String) {pulls : List Pull} (enough : pulls.length < fuel) :
    parse fuel file pulls = some (.ok (Parsed.ofPulls file pulls)) := by
  have outside : (Cursor.ofPulls file pulls).nesting = 0 := Cursor.nesting_next _
  have given := Nat.lt_of_le_of_lt (Cursor.left_ofPulls file pulls) enough
  obtain ⟨body, last, run, leads, ends⟩ := (succeeds_program [] given outside).exists_run
  -- The end of the input is looked at but never consumed; the machine reads it and is done.
  have closes : complete ⟨.start, [], body.reverse⟩ last = ⟨body, last.pulled, last.events⟩ := by
    simp [complete, react, begin, closeAll, outermost, ends]
  have whole : Parsed.ofPulls file pulls = ⟨body, last.pulled, last.events⟩ := by
    rw [← complete_ofPulls, ← closes]
    exact leads.same.symm
  rw [parse, run, whole]
  rfl

end Descent

end Offside
