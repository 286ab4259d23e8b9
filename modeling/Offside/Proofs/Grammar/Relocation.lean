import Offside.Resolution
import Offside.Grammar.Parse

/-!
Places take no part in a parse. When the places of all tokens are moved, the program, the faults and the
declarations are the same with their places moved. What happens while tokens are read is moved along,
and each fault quotes the line that its place has come to.
-/

namespace Offside

variable {move : Location → Location}

def Token.relocate (move : Location → Location) (token : Token) : Token :=
  { token with place := move token.place }

@[simp]
theorem Token.kind_relocate (token : Token) : (token.relocate move).kind = token.kind := rfl

@[simp]
theorem Token.payload_relocate (token : Token) : (token.relocate move).payload = token.payload := rfl

@[simp]
theorem Token.place_relocate (token : Token) : (token.relocate move).place = move token.place := rfl

@[simp]
theorem Token.literal?_relocate (token : Token) : (token.relocate move).literal? = token.literal? := rfl

namespace Stmt

@[simp]
theorem relocateAll_eq_map (statements : List Stmt) :
    relocateAll move statements = statements.map (relocate move) := by
  induction statements with
  | nil => rfl
  | cons first rest ih => rw [relocateAll, ih, List.map_cons]

end Stmt

def Opening.relocate (move : Location → Location) : Opening → Opening
  | paren place => paren (move place)
  | unary op place => unary op (move place)
  | binary op left => binary op (left.relocate move)

namespace Reading

def relocate (move : Location → Location) : Reading → Reading
  | awaiting openings => awaiting (openings.map (Opening.relocate move))
  | holding openings operand =>
    holding (openings.map (Opening.relocate move)) (operand.relocate move)

end Reading

def Verdict.relocate (move : Location → Location) : Verdict → Verdict
  | more reading => more (reading.relocate move)
  | complete expr => complete (expr.relocate move)
  | refused expected => refused expected
  | tooDeep => tooDeep

def Settled.relocate (move : Location → Location) : Settled → Settled
  | ready openings operand => ready (openings.map (Opening.relocate move)) (operand.relocate move)
  | chained => chained

namespace Reading

theorem settle_relocate (next : Option BinaryOp) (openings : List Opening) (operand : Expr) :
    settle next (openings.map (Opening.relocate move)) (operand.relocate move) =
      (settle next openings operand).relocate move := by
  fun_induction settle next openings operand with
  | case1 operand => rfl
  | case2 place outer operand => rfl
  | case3 op place outer operand stays =>
    rw [List.map_cons, Opening.relocate, settle, if_pos stays]
    rfl
  | case4 op place outer operand closes ih =>
    rw [List.map_cons, Opening.relocate, settle, if_neg closes, ← ih]
    rfl
  | case5 op left outer operand stays =>
    rw [List.map_cons, Opening.relocate, settle, if_pos stays]
    rfl
  | case6 op left outer operand closes chains =>
    rw [List.map_cons, Opening.relocate, settle, if_neg closes, if_pos chains]
    rfl
  | case7 op left outer operand closes single ih =>
    rw [List.map_cons, Opening.relocate, settle, if_neg closes, if_neg single, ← ih]
    rfl

theorem depth_relocate (openings : List Opening) :
    depth (openings.map (Opening.relocate move)) = depth openings := by
  rw [depth, depth, List.countP_map]
  congr 1
  funext opening
  cases opening <;> rfl

theorem nest_relocate (openings : List Opening) (opening : Opening) :
    nest (openings.map (Opening.relocate move)) (opening.relocate move) =
      (nest openings opening).relocate move := by
  unfold nest
  rw [depth_relocate]
  split <;> rfl

theorem feed_relocate (reading : Reading) (token : Token) :
    (reading.relocate move).feed (token.relocate move) = (reading.feed token).relocate move := by
  cases reading with
  | awaiting openings =>
    simp only [relocate, feed, feedAwaiting, Token.kind_relocate, Token.literal?_relocate,
      Token.payload_relocate, Token.place_relocate]
    split
    · exact nest_relocate openings (.unary _ token.place)
    · rfl
    · split
      · rfl
      · exact nest_relocate openings (.paren token.place)
      · rfl
  | holding openings operand =>
    simp only [relocate, feed, feedHolding, Token.kind_relocate, settle_relocate]
    cases settle token.kind.binaryOp? openings operand with
    | chained => rfl
    | ready rest operand =>
      cases token.kind.binaryOp? with
      | some op => rfl
      | none =>
        cases rest with
        | nil => rfl
        | cons opening outer =>
          cases opening with
          | unary op place => rfl
          | binary op left => rfl
          | paren place =>
            simp only [Settled.relocate, List.map_cons, Opening.relocate, apply_ite (Verdict.relocate move)]
            rfl

end Reading

def ArmsSoFar.relocate (move : Location → Location) (arms : ArmsSoFar) : ArmsSoFar :=
  arms.map fun (guard, body) => (guard.relocate move, body.map (Stmt.relocate move))

def Goal.relocate (move : Location → Location) : Goal → Goal
  | value target => value (target.relocate move)
  | guard place earlier => guard (move place) (earlier.relocate move)
  | condition place => condition (move place)

def Header.relocate (move : Location → Location) : Header → Header
  | arm place earlier guard => arm (move place) (earlier.relocate move) (guard.relocate move)
  | otherwise place arms => otherwise (move place) (arms.relocate move)
  | loop place condition => loop (move place) (condition.relocate move)
  | stray => stray

def Mode.relocate (move : Location → Location) : Mode → Mode
  | start => start
  | target name => target (name.relocate move)
  | expression goal reading => expression (goal.relocate move) (reading.relocate move)
  | colon header => colon (header.relocate move)
  | lineEnd header => lineEnd (header.relocate move)
  | opening header => opening (header.relocate move)
  | afterArm place arms => afterArm (move place) (arms.relocate move)
  | leaving place => leaving (move place)
  | skipping depth skipped => skipping depth (skipped.map (Token.relocate move))

def Enclosing.relocate (move : Location → Location) (block : Enclosing) : Enclosing :=
  ⟨block.header.relocate move, block.before.map (Stmt.relocate move)⟩

def Machine.relocate (move : Location → Location) (machine : Machine) : Machine :=
  ⟨machine.mode.relocate move, machine.enclosing.map (Enclosing.relocate move),
    machine.statements.map (Stmt.relocate move)⟩

/-- Where places come to, which number a line gets, and the lines that faults quote. -/
structure Relocation where
  move : Location → Location
  renumber : Nat → Nat
  lines : List String

def Diagnostic.relocate (relocation : Relocation) (problem : Diagnostic) : Diagnostic :=
  ⟨problem.cause, problem.place.map relocation.move,
    problem.place.bind fun place => lineAt? relocation.lines (relocation.move place).line⟩

def Entry.relocate (relocation : Relocation) : Entry → Entry
  | pushed line width => pushed (relocation.renumber line) width
  | popped line width => popped (relocation.renumber line) width
  | closed width => closed width
  | recorded problem => recorded (problem.relocate relocation)
  | declared name place => declared name (place.map relocation.move)
  | recovered skipped => recovered skipped

def Event.relocate (relocation : Relocation) : Event → Event
  | noted entry => noted (entry.relocate relocation)
  | rejected cause token => rejected cause (token.relocate relocation.move)
  | used token => used (token.relocate relocation.move)
  | assigned token => assigned (token.relocate relocation.move)
  | recovered skipped => recovered (skipped.map (Token.relocate relocation.move))

def Reaction.relocate (relocation : Relocation) (reaction : Reaction) : Reaction :=
  ⟨reaction.machine.relocate relocation.move, reaction.now.map (Event.relocate relocation),
    reaction.later.map (Event.relocate relocation)⟩

def Pull.relocate (relocation : Relocation) (pull : Pull) : Pull :=
  ⟨pull.journal.map (Entry.relocate relocation), pull.token.relocate relocation.move, pull.levels,
    pull.owed.map (Token.relocate relocation.move)⟩

def Parse.relocate (relocation : Relocation) (parse : Parse) : Parse :=
  ⟨parse.machine.relocate relocation.move, parse.deferred.map (Event.relocate relocation)⟩

def Scope.relocate (move : Location → Location) (scope : Scope) : Scope :=
  ⟨scope.entries.map fun (name, place) => (name, place.map move)⟩

theorem problems_relocate (relocation : Relocation) (journal : List Entry) :
    problems (journal.map (Entry.relocate relocation)) =
      (problems journal).map (Diagnostic.relocate relocation) := by
  rw [problems, problems, List.filterMap_map, List.map_filterMap]
  congr 1
  funext entry
  cases entry <;> rfl

namespace Machine

variable (relocation : Relocation)

theorem relocate_append (machine : Machine) (statement : Stmt) :
    (machine.append statement).relocate move =
      (machine.relocate move).append (statement.relocate move) := rfl

theorem relocate_chain (last : Arms Expr Stmt) (arms : ArmsSoFar) :
    Stmt.relocateArms move (chain last arms) =
      chain (Stmt.relocateArms move last) (ArmsSoFar.relocate move arms) := by
  have ofList (arms : List (Expr × List Stmt)) : Stmt.relocateArms move (Arms.ofList last arms) =
      Arms.ofList (Stmt.relocateArms move last)
        (arms.map fun (guard, body) => (guard.relocate move, body.map (Stmt.relocate move))) := by
    induction arms with
    | nil => rfl
    | cons first rest ih =>
      simp only [Arms.ofList, Stmt.relocateArms, ih, List.map_cons, Stmt.relocateAll_eq_map]
  rw [chain, chain, ofList, ArmsSoFar.relocate, List.map_reverse]

theorem relocate_leaveBlock (outer : Machine) (body : List Stmt) (header : Header) :
    (leaveBlock outer body header).relocate move =
      leaveBlock (outer.relocate move) (body.map (Stmt.relocate move)) (header.relocate move) := by
  cases header with
  | arm place earlier guard => rfl
  | otherwise place arms =>
    simp only [leaveBlock, Header.relocate, relocate_append, Stmt.relocate, relocate_chain,
      Stmt.relocateArms, Stmt.relocateAll_eq_map]
  | loop place condition =>
    simp only [leaveBlock, Header.relocate, relocate_append, Stmt.relocate, Stmt.relocateAll_eq_map]
  | stray => rfl

theorem relocate_outermost (machine : Machine) :
    (machine.relocate move).outermost = machine.outermost.map (Stmt.relocate move) := by
  simp only [outermost, relocate, List.getLast?_map]
  cases machine.enclosing.getLast? <;> rfl

theorem relocate_ite {condition : Prop} [Decidable condition] {yes no yes' no' : Reaction}
    (same : yes.relocate relocation = yes') (other : no.relocate relocation = no') :
    (if condition then yes else no).relocate relocation = if condition then yes' else no' := by
  rw [apply_ite (Reaction.relocate relocation), same, other]

theorem relocate_closeBlock (machine : Machine) (token : Token) :
    (machine.closeBlock token).relocate relocation =
      (machine.relocate relocation.move).closeBlock (token.relocate relocation.move) := by
  obtain ⟨mode, enclosing, statements⟩ := machine
  cases enclosing with
  | nil => rfl
  | cons block outer =>
    have left : (leaveBlock ⟨.start, outer, block.before⟩ statements.reverse block.header).relocate
        relocation.move = _ :=
      relocate_leaveBlock _ _ _
    rw [List.map_reverse] at left
    exact congrArg (fun machine => Reaction.mk machine [] []) left

theorem relocate_closeAll (machine : Machine) (token : Token) :
    (machine.closeAll token).relocate relocation =
      (machine.relocate relocation.move).closeAll (token.relocate relocation.move) := by
  simp only [closeAll, relocate_outermost]
  simp only [Reaction.relocate, relocate, List.map_flatMap, List.flatMap_map]
  rfl

theorem relocate_skip (machine : Machine) (depth : Nat) (skipped : List Token) (token : Token) :
    (machine.skip depth skipped token).relocate relocation =
      (machine.relocate relocation.move).skip depth (skipped.map (Token.relocate relocation.move))
        (token.relocate relocation.move) := by
  have done : (Event.recovered (token :: skipped).reverse).relocate relocation =
      .recovered (token.relocate relocation.move ::
        skipped.map (Token.relocate relocation.move)).reverse := by
    rw [← List.map_cons, ← List.map_reverse]
    rfl
  have early : (Event.recovered skipped.reverse).relocate relocation =
      .recovered (skipped.map (Token.relocate relocation.move)).reverse := by
    rw [← List.map_reverse]
    rfl
  unfold skip
  rw [Token.kind_relocate]
  split
  · rw [← relocate_closeAll, ← early]
    rfl
  · rw [← relocate_closeBlock, ← early]
    rfl
  · rw [← done]
    rfl
  · rfl
  · rfl
  · rw [← done]
    rfl
  · rfl

theorem relocate_refuse (machine : Machine) (token : Token) (expected : String) :
    (machine.refuse token expected).relocate relocation =
      (machine.relocate relocation.move).refuse (token.relocate relocation.move) expected := by
  unfold refuse
  rw [← List.map_nil, ← relocate_skip]
  rfl

theorem relocate_begin (machine : Machine) (token : Token) :
    (machine.begin token).relocate relocation =
      (machine.relocate relocation.move).begin (token.relocate relocation.move) := by
  unfold begin
  rw [Token.kind_relocate]
  split
  case h_7 => exact relocate_closeBlock relocation machine token
  case h_8 => exact relocate_closeAll relocation machine token
  case h_9 => exact relocate_refuse relocation machine token "statement"
  all_goals rfl

theorem relocate_conclude (machine : Machine) (expr : Expr) (token : Token) (goal : Goal) :
    (machine.conclude expr token goal).relocate relocation =
      (machine.relocate relocation.move).conclude (expr.relocate relocation.move)
        (token.relocate relocation.move) (goal.relocate relocation.move) := by
  cases goal with
  | value target => exact relocate_ite relocation rfl (relocate_refuse relocation machine token _)
  | guard place earlier =>
    exact relocate_ite relocation rfl (relocate_refuse relocation machine token _)
  | condition place => exact relocate_ite relocation rfl (relocate_refuse relocation machine token _)

theorem relocate_readExpression (machine : Machine) (goal : Goal) (reading : Reading) (token : Token) :
    (machine.readExpression goal reading token).relocate relocation =
      (machine.relocate relocation.move).readExpression (goal.relocate relocation.move)
        (reading.relocate relocation.move) (token.relocate relocation.move) := by
  unfold readExpression
  rw [Reading.feed_relocate, Token.kind_relocate]
  cases reading.feed token with
  | more reading =>
    dsimp only [Verdict.relocate]
    split <;> rfl
  | complete expr => exact relocate_conclude relocation machine expr token goal
  | refused expected => exact relocate_refuse relocation machine token expected
  | tooDeep => rfl

/-- The machine minds no places. -/
theorem relocate_react (machine : Machine) (token : Token) :
    (machine.react token).relocate relocation =
      (machine.relocate relocation.move).react (token.relocate relocation.move) := by
  obtain ⟨mode, enclosing, statements⟩ := machine
  cases mode with
  | start => exact relocate_begin relocation _ token
  | target name => exact relocate_ite relocation rfl (relocate_refuse relocation _ token _)
  | expression goal reading => exact relocate_readExpression relocation _ goal reading token
  | colon header => exact relocate_ite relocation rfl (relocate_refuse relocation _ token _)
  | lineEnd header => exact relocate_ite relocation rfl (relocate_refuse relocation _ token _)
  | opening header => exact relocate_ite relocation rfl (relocate_refuse relocation _ token _)
  | afterArm place arms =>
    simp only [react, relocate, Mode.relocate, Token.kind_relocate]
    split
    · rfl
    · rfl
    · rw [relocate_begin, relocate_append, Stmt.relocate, relocate_chain]
      rfl
  | leaving place => exact relocate_ite relocation rfl (relocate_refuse relocation _ token _)
  | skipping depth skipped => exact relocate_skip relocation _ depth skipped token

end Machine

theorem Parse.relocate_run (relocation : Relocation) (parse : Parse) (pulls : List Pull) :
    (parse.relocate relocation).run (pulls.map (Pull.relocate relocation)) =
      ((parse.run pulls).1.relocate relocation,
        (parse.run pulls).2.map (Event.relocate relocation)) := by
  induction pulls generalizing parse with
  | nil => rfl
  | cons pull rest ih =>
    have react := Machine.relocate_react relocation parse.machine pull.token
    have stepped : (parse.relocate relocation).step (pull.relocate relocation).token =
        ((parse.step pull.token).1.relocate relocation,
          (parse.step pull.token).2.map (Event.relocate relocation)) := by
      simp only [step, Parse.relocate, Pull.relocate, ← react, List.map_append]
      rfl
    have read : (pull.relocate relocation).journal.map Event.noted =
        (pull.journal.map Event.noted).map (Event.relocate relocation) := by
      rw [Pull.relocate, List.map_map, List.map_map]
      rfl
    simp only [List.map_cons, run, stepped, ih, read, List.map_append]

namespace Scope

theorem names_relocate (scope : Scope) : (scope.relocate move).names = scope.names := by
  rw [names, names, relocate, List.map_map]
  rfl

theorem contains_relocate (scope : Scope) (name : String) :
    (scope.relocate move).contains name = scope.contains name := by
  rw [contains, contains, relocate, List.any_map]
  rfl

theorem similar_relocate (scope : Scope) (name : String) :
    (scope.relocate move).similar name = scope.similar name := by
  rw [similar, similar, names_relocate]

theorem declare_relocate (scope : Scope) (name : String) (place : Option Location) :
    (scope.relocate move).declare name (place.map move) = (scope.declare name place).relocate move := by
  unfold declare
  rw [contains_relocate]
  split
  · rfl
  · simp only [relocate, List.map_append, List.map_cons, List.map_nil]

end Scope

namespace Event

theorem resolve_relocate (relocation : Relocation) (lines : List String) (scope : Scope) (event : Event) :
    (event.relocate relocation).resolve relocation.lines (scope.relocate relocation.move) =
      ((event.resolve lines scope).1.map (Entry.relocate relocation),
        (event.resolve lines scope).2.relocate relocation.move) := by
  cases event with
  | noted entry => rfl
  | rejected cause token => rfl
  | used token =>
    simp only [relocate, resolve, Token.payload_relocate, Scope.contains_relocate,
      Scope.similar_relocate]
    split <;> rfl
  | assigned token =>
    simp only [relocate, resolve, Token.payload_relocate, Scope.contains_relocate, Token.place_relocate]
    split
    · rfl
    · exact congrArg (Prod.mk _)
        (Scope.declare_relocate scope token.payload.shown (some token.place))
  | recovered skipped =>
    simp only [relocate, resolve, List.length_map]
    rfl

theorem resolveAll_relocate (relocation : Relocation) (lines : List String) (scope : Scope)
    (events : List Event) :
    resolveAll relocation.lines (scope.relocate relocation.move)
        (events.map (relocate relocation)) =
      ((resolveAll lines scope events).1.map (Entry.relocate relocation),
        (resolveAll lines scope events).2.relocate relocation.move) := by
  induction events generalizing scope with
  | nil => rfl
  | cons event rest ih =>
    simp only [List.map_cons, resolveAll, resolve_relocate relocation lines, ih, List.map_append]

end Event

end Offside
