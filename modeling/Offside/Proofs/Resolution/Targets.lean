import Offside.Proofs.Resolution.Traversal

/-!
The targets of assignments. In a program without a fault they are the declared variables, each at its
first occurrence. Statements may also be read, declared and then dropped with the block or the chain
that they stand in; but whatever statements are kept, their targets are declared.
-/

namespace Offside

namespace Stmt

mutual

def targets : Stmt → List String
  | assign target _ _ => [target]
  | choose arms _ => targetsOfArms arms
  | loop _ body _ => targetsOfAll body
  | leave _ => []

def targetsOfAll : List Stmt → List String
  | [] => []
  | first :: rest => first.targets ++ targetsOfAll rest

def targetsOfArms : Arms Expr Stmt → List String
  | .done => []
  | .otherwise body => targetsOfAll body
  | .arm _ body rest => targetsOfAll body ++ targetsOfArms rest

end

end Stmt

namespace Mention

def name : Mention → String
  | read name _ | assigned name _ => name

def target? : Mention → Option String
  | assigned name _ => some name
  | read _ _ => none

end Mention

theorem Expr.filterMap_target? (expr : Expr) : expr.mentions.filterMap Mention.target? = [] := by
  induction expr with
  | literal value place => rfl
  | name text place => rfl
  | unary op operand place ih => exact ih
  | binary op left right ihLeft ihRight =>
    rw [mentions, List.filterMap_append, ihLeft, ihRight, List.append_nil]
  | group inner place ih => exact ih

namespace Stmt

mutual

theorem filterMap_target? : (stmt : Stmt) → stmt.mentions.filterMap Mention.target? = stmt.targets
  | assign target value place => by
    rw [mentions, List.filterMap_append, Expr.filterMap_target?]
    rfl
  | choose arms place => filterMap_target?_arms arms
  | loop condition body place => by
    rw [mentions, List.filterMap_append, Expr.filterMap_target?, filterMap_target?_all body, targets,
      List.nil_append]
  | leave place => rfl

theorem filterMap_target?_all : (stmts : List Stmt) →
    (mentionsOfAll stmts).filterMap Mention.target? = targetsOfAll stmts
  | [] => rfl
  | first :: rest => by
    rw [mentionsOfAll, List.filterMap_append, filterMap_target? first, filterMap_target?_all rest,
      targetsOfAll]

theorem filterMap_target?_arms : (arms : Arms Expr Stmt) →
    (mentionsOfArms arms).filterMap Mention.target? = targetsOfArms arms
  | .done => rfl
  | .otherwise body => filterMap_target?_all body
  | .arm guard body rest => by
    rw [mentionsOfArms, List.filterMap_append, List.filterMap_append, Expr.filterMap_target?,
      filterMap_target?_all body, filterMap_target?_arms rest, targetsOfArms, List.nil_append]

end

end Stmt

namespace Scope

theorem mem_names_iff (scope : Scope) (name : String) :
    name ∈ scope.names ↔ scope.contains name = true := by
  simp [names, contains]

theorem names_declare (scope : Scope) (name : String) (place : Option Location) :
    (scope.declare name place).names =
      scope.names ++ if scope.contains name then [] else [name] := by
  unfold declare
  split
  next known => exact (List.append_nil _).symm
  next unknown => exact List.map_append

theorem nodup_declare {scope : Scope} (distinct : scope.names.Nodup) (name : String)
    (place : Option Location) : (scope.declare name place).names.Nodup := by
  rw [names_declare]
  by_cases known : scope.contains name = true
  · rw [if_pos known, List.append_nil]
    exact distinct
  · rw [if_neg known]
    rw [← mem_names_iff] at known
    have apart : ∀ other ∈ scope.names, other ≠ name := fun other listed same => known (same ▸ listed)
    simpa [List.nodup_append, distinct] using apart

end Scope

namespace Mention

/-- Resolving mentions adds the targets that were not declared, each at its first occurrence. -/
theorem names_resolveAll_eq (lines : List String) (scope : Scope) (mentions : List Mention) :
    (resolveAll lines scope mentions).2.names = scope.names ++
      ((mentions.filterMap target?).filter (!scope.contains ·)).eraseDups := by
  induction mentions generalizing scope with
  | nil => exact (List.append_nil _).symm
  | cons mention rest ih =>
    cases mention with
    | read name place => exact ih scope
    | assigned name place =>
      simp only [resolveAll, resolve, ih, List.filterMap_cons, target?, Scope.names_declare,
        List.append_assoc, List.filter_cons, Scope.contains_declare]
      congr 1
      cases known : scope.contains name with
      | true =>
        simp only [↓reduceIte, List.nil_append, Bool.not_true, Bool.false_eq_true]
        congr 2
        funext other
        by_cases same : name = other
        · simp [← same, known]
        · simp [same]
      | false =>
        simp only [Bool.false_eq_true, ↓reduceIte, Bool.not_false, List.eraseDups_cons,
          List.filter_filter, List.singleton_append]
        congr 3
        funext other
        by_cases same : name = other
        · simp [same]
        · simp [same, Ne.symm same]

theorem contains_resolveAll (lines : List String) {scope : Scope} {name : String}
    (known : scope.contains name = true) (mentions : List Mention) :
    (resolveAll lines scope mentions).2.contains name = true := by
  rw [← Scope.mem_names_iff] at known ⊢
  rw [names_resolveAll_eq]
  exact List.mem_append_left _ known

theorem contains_of_defined {lines : List String} {scope : Scope} {mentions : List Mention}
    (defined : (resolveAll lines scope mentions).1 = []) :
    ∀ mention ∈ mentions, (resolveAll lines scope mentions).2.contains mention.name = true := by
  induction mentions generalizing scope with
  | nil => exact List.forall_mem_nil _
  | cons mention rest ih =>
    simp only [resolveAll, List.append_eq_nil_iff] at defined ⊢
    rw [List.forall_mem_cons]
    refine ⟨contains_resolveAll lines ?_ rest, ih defined.2⟩
    cases mention with
    | read name place =>
      have known := defined.1
      simp only [resolve, Expr.undefined] at known
      split at known
      next found => exact found
      next => cases known
    | assigned name place =>
      rw [resolve, Scope.contains_declare]
      simp [Mention.name]

end Mention

namespace Machine

/-- What the machine knows of variables after a token, it knew before or is said. Unlike in a run
without a fault, some of it may be lost. -/
def Gathers (machine : Machine) (reaction : Reaction) : Prop :=
  ∀ mention ∈ reaction.machine.mentions, mention ∈ machine.mentions ∨
    ∃ event ∈ reaction.now ++ reaction.later, event.mention? = some mention

theorem mem_mentions_iff (machine : Machine) (mention : Mention) :
    mention ∈ machine.mentions ↔ mention ∈ enclosingMentions machine.enclosing ∨
      mention ∈ Stmt.mentionsOfAll machine.statements.reverse ∨ mention ∈ machine.mode.mentions := by
  rw [mentions, List.mem_append, List.mem_append, or_assoc]

theorem gathers_of_subset {machine : Machine} {reaction : Reaction}
    (kept : ∀ mention ∈ reaction.machine.mentions, mention ∈ machine.mentions) :
    Gathers machine reaction :=
  fun mention found => .inl (kept mention found)

theorem gathers_turn {machine : Machine} {mode : Mode}
    (kept : ∀ mention ∈ mode.mentions, mention ∈ machine.mode.mentions) :
    Gathers machine (machine.turn mode) := by
  apply gathers_of_subset
  intro mention found
  rw [mem_mentions_iff] at found ⊢
  exact found.imp_right (Or.imp_right (kept mention))

theorem mentions_leaveBlock (outer : List Enclosing) (before body : List Stmt) (header : Header) :
    ∀ mention ∈ (leaveBlock ⟨.start, outer, before⟩ body header).mentions,
      mention ∈ enclosingMentions outer ++ Stmt.mentionsOfAll before.reverse ++ header.mentions ++
        Stmt.mentionsOfAll body := by
  intro mention found
  cases header with
  | arm place earlier guard =>
    simpa [leaveBlock, mem_mentions_iff, Mode.mentions, ArmsSoFar.mentions, Header.mentions,
      or_assoc] using found
  | otherwise place arms =>
    simpa [leaveBlock, mentions_append, Stmt.mentions, mentionsOfArms_chain, Stmt.mentionsOfArms,
      Header.mentions, or_assoc] using found
  | loop place condition =>
    simpa [leaveBlock, mentions_append, Stmt.mentions, Header.mentions, or_assoc] using found
  | stray =>
    have kept : mention ∈ enclosingMentions outer ∨ mention ∈ Stmt.mentionsOfAll before.reverse := by
      simpa [leaveBlock, mem_mentions_iff, Mode.mentions] using found
    rw [List.append_assoc, List.mem_append, List.mem_append]
    exact .inl kept

theorem mentions_closeBlock (machine : Machine) (token : Token) :
    ∀ mention ∈ (machine.closeBlock token).machine.mentions, mention ∈ machine.mentions := by
  intro mention found
  rw [mem_mentions_iff]
  unfold closeBlock at found
  split at found
  next none =>
    simp only [mem_mentions_iff, Mode.mentions, List.not_mem_nil, or_false] at found
    exact found.imp_right .inl
  next block outer inside =>
    have known := mentions_leaveBlock outer block.before machine.statements.reverse block.header
      mention found
    rw [List.mem_append] at known
    rw [inside, enclosingMentions]
    exact known.imp_right .inl

theorem mentions_closeAll (machine : Machine) (token : Token) :
    ∀ mention ∈ (machine.closeAll token).machine.mentions, mention ∈ machine.mentions := by
  intro mention found
  have outermost : mention ∈ Stmt.mentionsOfAll machine.outermost.reverse := by
    simpa [closeAll, mem_mentions_iff, enclosingMentions, Mode.mentions] using found
  rw [mem_mentions_iff]
  unfold Machine.outermost at outermost
  split at outermost
  next => exact .inr (.inl outermost)
  next block last =>
    left
    have member := List.mem_of_getLast? last
    generalize machine.enclosing = enclosing at member
    induction enclosing with
    | nil => cases member
    | cons first outer ih =>
      simp only [enclosingMentions, List.mem_append]
      rcases List.mem_cons.mp member with rfl | later
      · exact .inl (.inr outermost)
      · exact .inl (.inl (ih later))

theorem gathers_skip (machine : Machine) (depth : Nat) (skipped : List Token) (token : Token) :
    Gathers machine (machine.skip depth skipped token) := by
  have restarted (later : List Event) : Gathers machine ⟨{ machine with mode := .start }, [], later⟩ := by
    apply gathers_of_subset
    intro mention found
    rw [mem_mentions_iff] at found ⊢
    exact found.imp_right (Or.imp_right (fun none => absurd none List.not_mem_nil))
  have skips (mode : Mode) (silent : mode.mentions = []) : Gathers machine (machine.turn mode) := by
    apply gathers_turn
    rw [silent]
    exact List.forall_mem_nil _
  unfold skip
  split
  next => exact gathers_of_subset (mentions_closeAll machine token)
  next => exact gathers_of_subset (mentions_closeBlock machine token)
  next => exact restarted _
  next => exact skips _ rfl
  next => exact skips _ rfl
  next => exact restarted _
  next => exact skips _ rfl

theorem gathers_refuse (machine : Machine) (token : Token) (expected : String) :
    Gathers machine (machine.refuse token expected) := by
  intro mention found
  rcases gathers_skip machine 0 [] token mention found with known | ⟨event, said, same⟩
  · exact .inl known
  · exact .inr ⟨event, List.mem_cons_of_mem _ said, same⟩

theorem mentions_openBlock (machine : Machine) (header : Header) :
    (machine.openBlock header).mentions = enclosingMentions machine.enclosing ++
      Stmt.mentionsOfAll machine.statements.reverse ++ header.mentions := by
  simp only [openBlock, mentions, enclosingMentions, List.reverse_nil, Stmt.mentionsOfAll,
    Mode.mentions, List.append_nil]

theorem gathers_begin (machine : Machine) (token : Token) :
    Gathers machine (machine.begin token) := by
  unfold begin
  split
  next => exact gathers_turn (List.forall_mem_nil _)
  next => exact gathers_turn (List.forall_mem_nil _)
  next => exact gathers_turn (List.forall_mem_nil _)
  next => exact gathers_turn (List.forall_mem_nil _)
  next =>
    apply gathers_of_subset
    intro mention found
    rw [mentions_openBlock, Header.mentions, List.append_nil] at found
    exact List.mem_append_left _ found
  next => exact gathers_turn (List.forall_mem_nil _)
  next => exact gathers_of_subset (mentions_closeBlock machine token)
  next => exact gathers_of_subset (mentions_closeAll machine token)
  next => exact gathers_refuse machine token "statement"

theorem gathers_conclude {machine : Machine} {goal : Goal} {reading : Reading} {expr : Expr}
    (mode : machine.mode = .expression goal reading) (same : expr.mentions = reading.mentions)
    (token : Token) : Gathers machine (machine.conclude expr token goal) := by
  have turned (header : Header) (known : header.mentions = goal.mentions ++ expr.mentions)
      (expected : String) :
      Gathers machine (if token.kind = .colon then machine.turn (.lineEnd header)
        else machine.refuse token expected) := by
    split
    · apply gathers_turn
      intro mention found
      rw [mode, Mode.mentions, ← same, ← known]
      exact found
    · exact gathers_refuse machine token expected
  cases goal with
  | value target =>
    simp only [conclude]
    split
    · intro mention found
      have known : mention ∈ enclosingMentions machine.enclosing ++
          Stmt.mentionsOfAll machine.statements.reverse ++ reading.mentions ∨
          mention = .assigned target.payload.shown target.place := by
        simpa only [mentions_append, Stmt.mentions, same, List.mem_append, List.mem_singleton,
          or_assoc] using found
      rcases known with before | rfl
      · left
        rw [mentions, mode]
        exact before
      · exact .inr ⟨.assigned target, List.mem_singleton_self _, rfl⟩
    · exact gathers_refuse machine token _
  | guard place earlier => exact turned (.arm place earlier expr) rfl _
  | condition place => exact turned (.loop place expr) rfl _

theorem gathers_readExpression {machine : Machine} {goal : Goal} {reading : Reading}
    (mode : machine.mode = .expression goal reading) (token : Token) :
    Gathers machine (machine.readExpression goal reading token) := by
  unfold readExpression
  split
  next next fed =>
    intro mention found
    have known : mention ∈ machine.mentions ∨ mention ∈ Reading.mentionOf token := by
      simpa only [mentions, mode, Mode.mentions, Reading.feed_more_mentions fed, List.mem_append,
        or_assoc] using found
    rcases known with before | new
    · exact .inl before
    · unfold Reading.mentionOf at new
      split at new
      next isName =>
        rw [List.mem_singleton.mp new]
        exact .inr ⟨.used token, by simp [isName], rfl⟩
      next => cases new
  next expr fed => exact gathers_conclude mode (Reading.feed_complete_mentions fed) token
  next expected fed => exact gathers_refuse machine token expected
  next fed =>
    apply gathers_of_subset
    intro mention found
    rw [mem_mentions_iff] at found ⊢
    exact found.imp_right (Or.imp_right (fun none => absurd none List.not_mem_nil))

theorem gathers_react (machine : Machine) (token : Token) :
    Gathers machine (machine.react token) := by
  have turned {condition : Prop} [Decidable condition] {mode' : Mode} {expected : String}
      (kept : mode'.mentions = machine.mode.mentions) :
      Gathers machine (if condition then machine.turn mode'
        else machine.refuse token expected) := by
    split
    · exact gathers_turn (by rw [kept]; exact fun _ found => found)
    · exact gathers_refuse machine token expected
  unfold react
  split
  next => exact gathers_begin machine token
  next mode => exact turned (by rw [mode]; rfl)
  next mode => exact gathers_readExpression mode token
  next mode => exact turned (by rw [mode]; rfl)
  next mode => exact turned (by rw [mode]; rfl)
  next header mode =>
    split
    · apply gathers_of_subset
      rw [mentions_openBlock, mentions, mode]
      exact fun _ found => found
    · exact gathers_refuse machine token _
  next place arms mode =>
    have appended := mentions_append_chain mode
    split
    · exact gathers_turn (by rw [mode]; simp [Mode.mentions, Goal.mentions, Reading.start,
        Reading.mentions, Reading.openMentions])
    · exact gathers_turn (by rw [mode]; exact fun _ found => found)
    · have begins := gathers_begin (machine.append (.choose (chain .done arms) place)) token
      rwa [Gathers, appended] at begins
  next place mode =>
    split
    · apply gathers_of_subset
      rw [mentions_append, Stmt.mentions, List.append_nil]
      exact fun _ found => List.mem_append_left _ found
    · exact gathers_refuse machine token _
  next => exact gathers_skip machine _ _ token

/-- In a run, with or without faults, what the machine knows of variables has been said. -/
theorem mentions_drive (machine : Machine) (tokens : List Token) :
    ∀ mention ∈ (machine.drive tokens).1.mentions, mention ∈ machine.mentions ∨
      ∃ event ∈ (machine.drive tokens).2, event.mention? = some mention := by
  induction tokens generalizing machine with
  | nil => exact fun mention found => .inl found
  | cons token rest ih =>
    intro mention found
    rw [drive]
    rcases ih (machine.react token).machine mention found with before | ⟨event, said, same⟩
    · rcases gathers_react machine token mention before with known | ⟨event, said, same⟩
      · exact .inl known
      · exact .inr ⟨event, List.mem_append_left _ said, same⟩
    · exact .inr ⟨event, List.mem_append_right _ said, same⟩

end Machine

theorem Parsed.exists_assigned (file : String) (pulls : List Pull) :
    ∀ target ∈ Stmt.targetsOfAll (ofPulls file pulls).statements,
      ∃ token, .assigned token ∈ (ofPulls file pulls).events ∧ token.payload.shown = target := by
  intro target found
  obtain ⟨last, -, statements, events⟩ := ofPulls_eq_drive file pulls
  have omits : Pull.Omits Event.isQuiet pulls := fun _ _ _ _ => rfl
  rw [← Stmt.filterMap_target?_all, statements] at found
  obtain ⟨mention, listed, isTarget⟩ := List.mem_filterMap.mp found
  have known : mention ∈
      (Machine.initial.drive (before (pulls.map Pull.token) ++ [last])).1.mentions := by
    rw [Machine.mem_mentions_iff]
    exact .inr (.inl listed)
  rcases Machine.mentions_drive _ _ mention known with none | ⟨event, said, same⟩
  · cases none
  · cases event with
    | assigned token =>
      have kept : Event.assigned token ∈ (ofPulls file pulls).events.filter Event.isQuiet := by
        rw [events Event.isQuiet omits]
        exact List.mem_filter.mpr ⟨said, rfl⟩
      refine ⟨token, (List.mem_filter.mp kept).1, ?_⟩
      cases same
      exact Option.some.inj isTarget
    | used token =>
      cases same
      cases isTarget
    | _ => cases same

namespace Event

theorem scope_resolve (lines : List String) (scope : Scope) (event : Event) :
    (event.resolve lines scope).2 = scope ∧ (∀ token, event ≠ .assigned token) ∨
      ∃ token, event = .assigned token ∧ (event.resolve lines scope).2 =
        scope.declare token.payload.shown (some token.place) := by
  cases event with
  | assigned token =>
    refine .inr ⟨token, rfl, ?_⟩
    by_cases known : scope.contains token.payload.shown = true <;> simp [resolve, Scope.declare, known]
  | used token =>
    refine .inl ⟨?_, by simp⟩
    by_cases known : scope.contains token.payload.shown = true <;> simp [resolve, known]
  | _ => exact .inl ⟨rfl, by simp⟩

theorem contains_resolveAll (lines : List String) {scope : Scope} {name : String}
    (known : scope.contains name = true) (events : List Event) :
    (resolveAll lines scope events).2.contains name = true := by
  induction events generalizing scope with
  | nil => exact known
  | cons event rest ih =>
    have after : (event.resolve lines scope).2.contains name = true := by
      rcases scope_resolve lines scope event with ⟨same, -⟩ | ⟨token, -, declares⟩
      · rw [same, known]
      · rw [declares, Scope.contains_declare, known]
        rfl
    exact ih after

theorem contains_of_assigned (lines : List String) (scope : Scope) {events : List Event}
    {token : Token} (found : .assigned token ∈ events) :
    (resolveAll lines scope events).2.contains token.payload.shown = true := by
  induction events generalizing scope with
  | nil => cases found
  | cons event rest ih =>
    rcases List.mem_cons.mp found with rfl | later
    · have after : ((assigned token).resolve lines scope).2.contains token.payload.shown = true := by
        rcases scope_resolve lines scope (.assigned token) with ⟨-, other⟩ | ⟨_, ⟨⟩, declares⟩
        · exact absurd rfl (other token)
        · simp [declares, Scope.contains_declare]
      exact contains_resolveAll lines after rest
    · exact ih _ later

theorem nodup_resolveAll (lines : List String) {scope : Scope} (distinct : scope.names.Nodup)
    (events : List Event) : (resolveAll lines scope events).2.names.Nodup := by
  induction events generalizing scope with
  | nil => exact distinct
  | cons event rest ih =>
    have after : (event.resolve lines scope).2.names.Nodup := by
      rcases scope_resolve lines scope event with ⟨same, -⟩ | ⟨token, -, declares⟩
      · rwa [same]
      · rw [declares]
        exact Scope.nodup_declare distinct _ _
    exact ih after

end Event

end Offside
