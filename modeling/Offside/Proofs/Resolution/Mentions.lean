import Offside.Proofs.Grammar.Accounting

/-!
The variables that a program mentions, in the order of the source. While tokens are parsed without a
fault, each mention is said when its token has been read; what the machine knows mentions exactly the
variables that were said, so in the end the program does.
-/

namespace Offside

inductive Mention where
  | read (name : String) (place : Location)
  | assigned (name : String) (place : Location)
deriving DecidableEq, Repr

def Event.mention? : Event → Option Mention
  | used token => some (.read token.payload.shown token.place)
  | assigned token => some (.assigned token.payload.shown token.place)
  | _ => none

def Expr.mentions : Expr → List Mention
  | literal _ _ => []
  | name text place => [.read text place]
  | unary _ operand _ => operand.mentions
  | binary _ left right => left.mentions ++ right.mentions
  | group inner _ => inner.mentions

namespace Stmt

mutual

/-- An assignment reads its value before it declares its target. -/
def mentions : Stmt → List Mention
  | assign target value place => value.mentions ++ [.assigned target place]
  | choose arms _ => mentionsOfArms arms
  | loop condition body _ => condition.mentions ++ mentionsOfAll body
  | leave _ => []

def mentionsOfAll : List Stmt → List Mention
  | [] => []
  | first :: rest => first.mentions ++ mentionsOfAll rest

def mentionsOfArms : Arms Expr Stmt → List Mention
  | .done => []
  | .otherwise body => mentionsOfAll body
  | .arm guard body rest => guard.mentions ++ mentionsOfAll body ++ mentionsOfArms rest

end

@[simp]
theorem mentionsOfAll_append (front back : List Stmt) :
    mentionsOfAll (front ++ back) = mentionsOfAll front ++ mentionsOfAll back := by
  induction front with
  | nil => rfl
  | cons first rest ih => simp only [List.cons_append, mentionsOfAll, ih, List.append_assoc]

end Stmt

namespace Reading

def openMentions : List Opening → List Mention
  | [] => []
  | .binary _ left :: outer => openMentions outer ++ left.mentions
  | _ :: outer => openMentions outer

def mentions : Reading → List Mention
  | awaiting openings => openMentions openings
  | holding openings operand => openMentions openings ++ operand.mentions

theorem settle_mentions {next : Option BinaryOp} {openings rest : List Opening} {operand result : Expr}
    (settled : settle next openings operand = .ready rest result) :
    openMentions rest ++ result.mentions = openMentions openings ++ operand.mentions := by
  fun_induction settle next openings operand with
  | case1 operand => cases settled; rfl
  | case2 place outer operand => cases settled; rfl
  | case3 op place outer operand belongs => cases settled; rfl
  | case4 op place outer operand looser ih => exact ih settled
  | case5 op left outer operand belongs => cases settled; rfl
  | case6 => cases settled
  | case7 op left outer operand looser apart ih =>
    rw [ih settled]
    simp only [openMentions, Expr.mentions, List.append_assoc]

def mentionOf (token : Token) : List Mention :=
  if token.kind = .name then [.read token.payload.shown token.place] else []

theorem nest_mentions {openings : List Opening} {opening : Opening} {next : Reading}
    (fed : nest openings opening = .more next) (silent : openMentions [opening] = []) :
    next.mentions = openMentions openings := by
  obtain ⟨_, rfl⟩ := nest_more fed
  cases opening with
  | paren place => rfl
  | unary op place => rfl
  | binary op left =>
    have none : left.mentions = [] := silent
    simp only [mentions, openMentions, none, List.append_nil]

theorem feedAwaiting_mentions {openings : List Opening} {token : Token} {next : Reading}
    (fed : feedAwaiting openings token = .more next) :
    next.mentions = openMentions openings ++ mentionOf token := by
  unfold feedAwaiting at fed
  split at fed
  next op _ sign =>
    have noName : token.kind ≠ .name := by
      intro kind
      rw [kind] at sign
      cases sign
    rw [nest_mentions fed rfl, mentionOf, if_neg noName, List.append_nil]
  next value _ found =>
    have noName : token.kind ≠ .name := by
      intro kind
      simp only [Token.literal?, kind] at found
      cases found
    cases fed
    rw [mentionOf, if_neg noName]
    rfl
  next =>
    split at fed
    next kind =>
      cases fed
      rw [mentionOf, if_pos kind]
      rfl
    next kind => rw [nest_mentions fed rfl, mentionOf, if_neg (by rw [kind]; decide), List.append_nil]
    next => cases fed

theorem feedHolding_mentions {openings : List Opening} {operand : Expr} {token : Token} {next : Reading}
    (fed : feedHolding openings operand token = .more next) :
    next.mentions = openMentions openings ++ operand.mentions ++ mentionOf token := by
  unfold feedHolding at fed
  split at fed
  next => cases fed
  next rest left op settled between =>
    have noName : token.kind ≠ .name := by
      intro kind
      rw [kind] at between
      cases between
    cases fed
    rw [← settle_mentions settled, mentionOf, if_neg noName, List.append_nil]
    rfl
  next place rest inner settled between =>
    split at fed
    next closes =>
      cases fed
      rw [← settle_mentions settled, mentionOf, if_neg (by rw [closes]; decide), List.append_nil]
      rfl
    next => cases fed
  next => cases fed

theorem feed_more_mentions {reading next : Reading} {token : Token}
    (fed : reading.feed token = .more next) : next.mentions = reading.mentions ++ mentionOf token := by
  cases reading with
  | awaiting openings => exact feedAwaiting_mentions fed
  | holding openings operand => exact feedHolding_mentions fed

theorem feed_complete_mentions {reading : Reading} {token : Token} {expr : Expr}
    (fed : reading.feed token = .complete expr) : expr.mentions = reading.mentions := by
  obtain ⟨openings, operand, rfl, settled⟩ := settle_of_complete fed
  exact settle_mentions settled

end Reading

def ArmsSoFar.mentions : ArmsSoFar → List Mention
  | [] => []
  | (guard, body) :: earlier =>
    ArmsSoFar.mentions earlier ++ guard.mentions ++ Stmt.mentionsOfAll body

def Goal.mentions : Goal → List Mention
  | value _ | condition _ => []
  | guard _ earlier => earlier.mentions

def Header.mentions : Header → List Mention
  | arm _ earlier guard => earlier.mentions ++ guard.mentions
  | otherwise _ arms => arms.mentions
  | loop _ condition => condition.mentions
  | stray => []

def Mode.mentions : Mode → List Mention
  | start | skipping _ _ | target _ | leaving _ => []
  | expression goal reading => goal.mentions ++ reading.mentions
  | colon header | lineEnd header | opening header => header.mentions
  | afterArm _ arms => arms.mentions

namespace Machine

def enclosingMentions : List Enclosing → List Mention
  | [] => []
  | block :: outer =>
    enclosingMentions outer ++ Stmt.mentionsOfAll block.before.reverse ++ block.header.mentions

def mentions (machine : Machine) : List Mention :=
  enclosingMentions machine.enclosing ++ Stmt.mentionsOfAll machine.statements.reverse ++
    machine.mode.mentions

theorem mentionsOfArms_chain (last : Arms Expr Stmt) (arms : ArmsSoFar) :
    Stmt.mentionsOfArms (chain last arms) = arms.mentions ++ Stmt.mentionsOfArms last := by
  induction arms generalizing last with
  | nil => rfl
  | cons arm earlier ih =>
    obtain ⟨guard, body⟩ := arm
    rw [← chain_arm, ih]
    simp only [ArmsSoFar.mentions, Stmt.mentionsOfArms, List.append_assoc]

theorem mentions_append (machine : Machine) (stmt : Stmt) :
    (machine.append stmt).mentions =
      enclosingMentions machine.enclosing ++ Stmt.mentionsOfAll machine.statements.reverse ++
        stmt.mentions := by
  simp only [mentions, append, Mode.mentions, List.reverse_cons, Stmt.mentionsOfAll_append,
    Stmt.mentionsOfAll, List.append_nil, List.append_assoc]

theorem mentions_append_chain {machine : Machine} {place : Location} {arms : ArmsSoFar}
    (mode : machine.mode = .afterArm place arms) :
    (machine.append (.choose (chain .done arms) place)).mentions = machine.mentions := by
  rw [mentions_append, mentions, mode, Stmt.mentions, mentionsOfArms_chain]
  simp only [Mode.mentions, Stmt.mentionsOfArms, List.append_nil]

/-- What is said in a reaction is what the machine knows more of variables after it. -/
def Records (machine : Machine) (reaction : Reaction) : Prop :=
  reaction.machine.mentions =
    machine.mentions ++ (reaction.now ++ reaction.later).filterMap Event.mention?

theorem records_turn {machine : Machine} {mode : Mode} (same : mode.mentions = machine.mode.mentions) :
    Records machine (machine.turn mode) := by
  simp only [Records, turn, mentions, same, List.filterMap_nil, List.append_nil]

/-- The end of a block keeps all mentions, unless the block is a stray one. -/
theorem records_closeBlock {machine : Machine} {block : Enclosing} {outer : List Enclosing}
    (inside : machine.enclosing = block :: outer) (valid : block.header.Valid)
    (mode : machine.mode = .start) (token : Token) : Records machine (machine.closeBlock token) := by
  obtain ⟨header, before⟩ := block
  simp only [Records, closeBlock, inside, mentions, mode, enclosingMentions]
  cases header with
  | arm place earlier guard =>
    simp [leaveBlock, Mode.mentions, Header.mentions, ArmsSoFar.mentions]
  | otherwise place arms =>
    simp [leaveBlock, append, Mode.mentions, Header.mentions, Stmt.mentionsOfAll, Stmt.mentions,
      Stmt.mentionsOfArms, mentionsOfArms_chain]
  | loop place condition =>
    simp [leaveBlock, append, Mode.mentions, Header.mentions, Stmt.mentionsOfAll, Stmt.mentions]
  | stray => cases valid

theorem records_begin {machine : Machine} {token : Token} (mode : machine.mode = .start)
    (valid : machine.Valid) (notEnd : token.kind ≠ .endOfInput)
    (clean : Clean ((machine.begin token).now ++ (machine.begin token).later)) :
    Records machine (machine.begin token) := by
  unfold begin at clean ⊢
  split at clean
  next => exact records_turn (by rw [mode]; rfl)
  next => exact records_turn (by rw [mode]; rfl)
  next => exact records_turn (by rw [mode]; rfl)
  next => exact records_turn (by rw [mode]; rfl)
  next => cases clean (.rejected .strayIndent token) (by simp)
  next => exact records_turn (by rw [mode])
  next =>
    cases inside : machine.enclosing with
    | nil =>
      simp only [closeBlock, inside] at clean
      exact absurd clean (not_clean_unexpected (List.mem_singleton_self _))
    | cons block outer =>
      exact records_closeBlock inside (valid.enclosing block (by simp [inside])).1 mode token
  next kind => exact absurd kind notEnd
  next => exact absurd clean.left (not_clean_refuse machine token "statement")

theorem records_conclude {machine : Machine} {goal : Goal} {reading : Reading} {expr : Expr}
    {token : Token} (mode : machine.mode = .expression goal reading)
    (same : expr.mentions = reading.mentions) (clean : Clean (machine.conclude expr token goal).now) :
    Records machine (machine.conclude expr token goal) := by
  cases goal with
  | value target =>
    simp only [conclude] at clean ⊢
    split at clean
    next kind =>
      rw [if_pos kind, Records, mentions_append, mentions, mode]
      simp only [Stmt.mentions, Mode.mentions, Goal.mentions, same, List.nil_append, List.append_assoc,
        List.filterMap_cons, Event.mention?, List.filterMap_nil]
    next => exact absurd clean (not_clean_refuse machine token _)
  | guard place earlier =>
    simp only [conclude] at clean ⊢
    split at clean
    next kind =>
      rw [if_pos kind]
      refine records_turn ?_
      rw [mode]
      simp only [Mode.mentions, Header.mentions, Goal.mentions, same]
    next => exact absurd clean (not_clean_refuse machine token _)
  | condition place =>
    simp only [conclude] at clean ⊢
    split at clean
    next kind =>
      rw [if_pos kind]
      refine records_turn ?_
      rw [mode]
      simp only [Mode.mentions, Header.mentions, Goal.mentions, same, List.nil_append]
    next => exact absurd clean (not_clean_refuse machine token _)

theorem records_readExpression {machine : Machine} {goal : Goal} {reading : Reading} {token : Token}
    (mode : machine.mode = .expression goal reading)
    (clean : Clean ((machine.readExpression goal reading token).now ++
      (machine.readExpression goal reading token).later)) :
    Records machine (machine.readExpression goal reading token) := by
  simp only [readExpression] at clean ⊢
  cases fed : reading.feed token with
  | more next =>
    have said : (if token.kind = .name then [Event.used token] else []).filterMap Event.mention? =
        Reading.mentionOf token := by
      unfold Reading.mentionOf
      split <;> rfl
    simp only [Records, mentions, mode, Mode.mentions, Reading.feed_more_mentions fed, said,
      List.nil_append, List.append_assoc]
  | complete expr =>
    rw [fed] at clean
    exact records_conclude mode (Reading.feed_complete_mentions fed) clean.left
  | refused expected =>
    rw [fed] at clean
    exact absurd clean.left (not_clean_refuse machine token expected)
  | tooDeep =>
    rw [fed] at clean
    cases clean (.rejected (.expressionTooDeep deepestNesting) token) (by simp)

theorem records_react {machine : Machine} {token : Token} (valid : machine.Valid)
    (notEnd : token.kind ≠ .endOfInput)
    (clean : Clean ((machine.react token).now ++ (machine.react token).later)) :
    Records machine (machine.react token) := by
  have turned {kind : Kind} {mode' : Mode} {expected : String}
      (same : mode'.mentions = machine.mode.mentions)
      (clean : Clean (if token.kind = kind then machine.turn mode'
        else machine.refuse token expected).now) :
      Records machine (if token.kind = kind then machine.turn mode'
        else machine.refuse token expected) := by
    by_cases found : token.kind = kind
    · rw [if_pos found]
      exact records_turn same
    · rw [if_neg found] at clean
      exact absurd clean (not_clean_refuse machine token expected)
  cases mode : machine.mode with
  | start =>
    simp only [react, mode] at clean ⊢
    exact records_begin mode valid notEnd clean
  | target name =>
    simp only [react, mode] at clean ⊢
    exact turned (by rw [mode]; rfl) clean.left
  | expression goal reading =>
    simp only [react, mode] at clean ⊢
    exact records_readExpression mode clean
  | colon header =>
    simp only [react, mode] at clean ⊢
    exact turned (by rw [mode]; rfl) clean.left
  | lineEnd header =>
    simp only [react, mode] at clean ⊢
    exact turned (by rw [mode]; rfl) clean.left
  | opening header =>
    simp only [react, mode] at clean ⊢
    split at clean
    next kind =>
      rw [if_pos kind]
      simp only [Records, mentions, openBlock, mode, enclosingMentions, Mode.mentions, List.reverse_nil,
        Stmt.mentionsOfAll, List.append_nil, List.filterMap_nil]
    next => exact absurd clean.left (not_clean_refuse machine token _)
  | afterArm place arms =>
    simp only [react, mode] at clean ⊢
    split at clean
    next =>
      refine records_turn ?_
      rw [mode]
      simp only [Mode.mentions, Goal.mentions, Reading.start, Reading.mentions, Reading.openMentions,
        List.append_nil]
    next => exact records_turn (by rw [mode]; rfl)
    next =>
      have settled : (machine.append (.choose (chain .done arms) place)).Valid := by
        obtain ⟨mode', enclosing, statements⟩ := machine
        cases mode
        exact (valid_append_chain valid).1
      have begins := records_begin rfl settled notEnd clean
      rw [Records, mentions_append_chain mode] at begins
      exact begins
  | leaving place =>
    simp only [react, mode] at clean ⊢
    split at clean
    next kind =>
      rw [if_pos kind, Records, mentions_append, mentions, mode]
      simp only [Stmt.mentions, Mode.mentions, List.append_nil, List.filterMap_nil]
    next => exact absurd clean.left (not_clean_refuse machine token _)
  | skipping depth skipped =>
    have absent := valid.mode
    rw [mode] at absent
    exact absent.elim

theorem drive_mentions {machine : Machine} {tokens : List Token} (valid : machine.Valid)
    (inside : ∀ token ∈ tokens, token.kind ≠ .endOfInput) (clean : Clean (machine.drive tokens).2) :
    (machine.drive tokens).1.mentions =
      machine.mentions ++ (machine.drive tokens).2.filterMap Event.mention? := by
  induction tokens generalizing machine with
  | nil => exact (List.append_nil _).symm
  | cons token rest ih =>
    rw [List.forall_mem_cons] at inside
    simp only [drive] at clean ⊢
    have accounts := accounts_react valid inside.1 clean.left
    have records := records_react valid inside.1 clean.left
    rw [Records] at records
    rw [ih accounts.valid inside.2 clean.right, records]
    simp only [List.filterMap_append, List.append_assoc]

theorem react_end_mentions {machine : Machine} {token : Token} (valid : machine.Valid)
    (ends : token.kind = .endOfInput) (clean : Clean (machine.react token).now) :
    Stmt.mentionsOfAll (machine.react token).machine.statements.reverse = machine.mentions ∧
      ((machine.react token).now ++ (machine.react token).later).filterMap Event.mention? = [] := by
  rcases react_end_cases valid ends clean with ⟨statements, rfl⟩ | ⟨place, arms, statements, rfl⟩
  · simp only [react, begin_end statements ends]
    exact ⟨(List.append_nil _).symm, rfl⟩
  · rw [← mentions_append_chain rfl]
    simp only [react, ends, append, begin_end _ ends]
    exact ⟨(List.append_nil _).symm, rfl⟩

end Machine

theorem Event.filterMap_mention?_filter (events : List Event) :
    (events.filter Event.isQuiet).filterMap Event.mention? = events.filterMap Event.mention? := by
  rw [List.filterMap_filter]
  congr 1
  funext event
  cases event <;> rfl

/-- In a parse without a fault of grammar, the uses and assignments of variables are the mentions of
the statements, in their order. -/
theorem Parsed.mentions_of_faultless (file : String) (pulls : List Pull) (lines : List String)
    (scope : Scope)
    (faultless : ∀ problem ∈ problems (Event.resolveAll lines scope (ofPulls file pulls).events).1,
      problem.cause.stage ≠ some .grammatical) :
    (ofPulls file pulls).events.filterMap Event.mention? =
      Stmt.mentionsOfAll (ofPulls file pulls).statements := by
  obtain ⟨last, ends, sameStatements, clean, sameEvents⟩ :=
    exists_clean_drive file pulls lines scope faultless
  rw [Machine.drive_append] at clean sameStatements sameEvents
  have inside : ∀ token ∈ before (pulls.map Pull.token), token.kind ≠ .endOfInput :=
    fun _ => kind_of_mem_before
  obtain ⟨valid, -⟩ := Machine.drive_lexemes Machine.valid_initial inside clean.left
  have known := Machine.drive_mentions Machine.valid_initial inside clean.left
  obtain ⟨kept, silent⟩ := Machine.react_end_mentions valid ends clean.right.left.left
  rw [← Event.filterMap_mention?_filter, sameEvents, Event.filterMap_mention?_filter, sameStatements]
  simp only [Machine.drive, List.append_nil, List.filterMap_append] at silent ⊢
  rw [silent, kept, known, List.append_nil]
  rfl

end Offside
