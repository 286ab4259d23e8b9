import Offside.Proofs.Grammar.Interleaving
import Offside.Proofs.Grammar.MachineSound
import Offside.Proofs.Scanner.Indentation

/-!
What the machine does with a token, told by where the token stands. A token within a line opens and
closes no block, and what is skipped because of it was read on that line; a token at the start of a line
opens or closes one block, and nothing is skipped.
-/

namespace Offside

def expectations : List String :=
  ["statement", "'='", "expression", "')'", "end of comparison (comparisons do not chain)", "':'",
    "end of line", "indented block"]

def Cause.isOrderly : Cause → Bool
  | unexpectedToken _ (some expected) => expected ∈ expectations
  | strayIndent | expressionTooDeep _ => true
  | _ => false

/-- An event that leaves the blocks as they are, if what it skips is such as `Skips` says. -/
def Event.IsOrderly (Skips : List Token → Prop) : Event → Prop
  | rejected cause _ => cause.isOrderly = true
  | recovered skipped => Skips skipped
  | noted _ | used _ | assigned _ => True

def Cause.SparesBlocks (cause : Cause) : Prop :=
  cause.hint ≠ some "expected end of block" ∧ ∀ found, cause ≠ .unexpectedToken found none

theorem Cause.sparesBlocks_of_isOrderly {cause : Cause} (orderly : cause.isOrderly = true) :
    cause.SparesBlocks := by
  cases cause with
  | unexpectedToken found expected =>
    cases expected with
    | none => cases orderly
    | some expected =>
      refine ⟨?_, by simp⟩
      have others : ∀ expected ∈ expectations,
          (unexpectedToken "" (some expected)).hint ≠ some "expected end of block" := by decide
      exact others expected (of_decide_eq_true orderly)
  | strayIndent => exact ⟨by decide, nofun⟩
  | expressionTooDeep limit => exact ⟨by simp [hint], nofun⟩
  | _ => cases orderly

theorem Cause.hint_ne_of_head {start rest : String} {first : Char}
    (head : start.toList.head? = some first) (other : first ≠ 'e') :
    some (start ++ rest) ≠ some "expected end of block" := by
  intro same
  have letters := congrArg String.toList (Option.some.inj same)
  have heads := congrArg List.head? letters
  rw [String.toList_append, List.head?_append, head] at heads
  exact other (Option.some.inj heads)

theorem Cause.sparesBlocks_of_isOfReading {cause : Cause} (read : cause.isOfReading = true) :
    cause.SparesBlocks := by
  cases cause with
  | misalignedDedent width enclosing => exact ⟨hint_ne_of_head rfl (by decide), nofun⟩
  | unknownCharacter char => exact ⟨nofun, nofun⟩
  | numberOutOfRange lexeme => exact ⟨by simp [hint], nofun⟩
  | _ => cases read

theorem Cause.sparesBlocks_undefinedVariable (name : String) (similar : List String) :
    (undefinedVariable name similar).SparesBlocks := by
  refine ⟨?_, nofun⟩
  simp only [hint]
  split
  · nofun
  · rw [String.append_assoc]
    exact hint_ne_of_head rfl (by decide)

theorem Event.sparesBlocks_of_recorded {Skips : List Token → Prop} {event : Event}
    (staged : event.IsStaged) (orderly : event.IsOrderly Skips) {lines : List String} {scope : Scope}
    {problem : Diagnostic} (recorded : problem ∈ problems (event.resolve lines scope).1) :
    problem.cause.SparesBlocks := by
  cases event with
  | noted entry =>
    obtain ⟨other, member, fault⟩ := List.mem_filterMap.mp recorded
    rw [List.mem_singleton.mp member] at fault
    exact Cause.sparesBlocks_of_isOfReading (staged problem fault)
  | rejected cause token =>
    cases List.mem_singleton.mp recorded
    exact Cause.sparesBlocks_of_isOrderly orderly
  | used token =>
    simp only [resolve] at recorded
    split at recorded
    · cases recorded
    · cases List.mem_singleton.mp recorded
      exact Cause.sparesBlocks_undefinedVariable _ _
  | assigned token =>
    simp only [resolve] at recorded
    split at recorded <;> cases recorded
  | recovered skipped => cases recorded

theorem Event.IsOrderly.mono {Skips Skips' : List Token → Prop} {event : Event}
    (orderly : event.IsOrderly Skips) (weaker : ∀ skipped, Skips skipped → Skips' skipped) :
    event.IsOrderly Skips' := by
  cases event with
  | recovered skipped => exact weaker skipped orderly
  | _ => exact orderly

theorem Reading.mem_expectations {reading : Reading} {token : Token} {expected : String}
    (refused : reading.feed token = .refused expected) : expected ∈ expectations := by
  have notNested {openings : List Opening} {opening : Opening} :
      nest openings opening ≠ .refused expected := by
    unfold nest
    split <;> nofun
  cases reading with
  | awaiting openings =>
    simp only [feed, feedAwaiting] at refused
    split at refused
    · exact absurd refused notNested
    · cases refused
    · split at refused
      · cases refused
      · exact absurd refused notNested
      · cases refused
        decide
  | holding openings operand =>
    simp only [feed, feedHolding] at refused
    split at refused
    · cases refused
      decide
    · cases refused
    · split at refused
      · cases refused
      · cases refused
        decide
    · cases refused

/-- What is skipped is the last of the tokens read on the current line, and no block is. -/
def Mode.InLine (read : List Token) : Mode → Prop
  | skipping depth skipped => depth = 0 ∧ skipped.reverse <:+ read
  | _ => True

theorem Mode.cases_of_isFresh {mode : Mode} (fresh : mode.isFresh = true) :
    mode = .start ∨ (∃ header, mode = .opening header) ∨ ∃ place arms, mode = .afterArm place arms := by
  cases mode with
  | start => exact .inl rfl
  | opening header => exact .inr (.inl ⟨header, rfl⟩)
  | afterArm place arms => exact .inr (.inr ⟨place, arms, rfl⟩)
  | _ => cases fresh

theorem Mode.inLine_of_isFresh {mode : Mode} (fresh : mode.isFresh = true) (read : List Token) :
    mode.InLine read := by
  cases mode with
  | skipping depth skipped => cases fresh
  | _ => trivial

structure Reaction.Within (enclosing : List Enclosing) (line : List Token) (reaction : Reaction) : Prop where
  enclosing : reaction.machine.enclosing = enclosing
  mode : reaction.machine.mode.InLine line
  events : ∀ event ∈ reaction.now ++ reaction.later, event.IsOrderly (· <:+: line)

def Kind.isInLine (kind : Kind) : Bool := kind ≠ .indent && kind ≠ .dedent && kind ≠ .endOfInput

theorem Kind.isInLine_of_plain {kind : Kind} (plain : kind.isStructural = false) :
    kind.isInLine = true := by
  revert plain
  cases kind <;> decide

namespace Machine

variable {machine : Machine} {token : Token} {read : List Token}

theorem within_turn {mode : Mode} {line : List Token} (inLine : mode.InLine line) :
    (machine.turn mode).Within machine.enclosing line where
  enclosing := rfl
  mode := inLine
  events := List.forall_mem_nil _

theorem within_skip {skipped : List Token} (inLine : token.kind.isInLine = true)
    (last : skipped.reverse <:+ read) :
    (machine.skip 0 skipped token).Within machine.enclosing (read ++ [token]) := by
  have longer : (token :: skipped).reverse <:+ read ++ [token] := by
    obtain ⟨front, rfl⟩ := last
    exact ⟨front, by rw [List.reverse_cons, List.append_assoc]⟩
  unfold skip
  split
  next kind => rw [kind] at inLine; cases inLine
  next kind _ => rw [kind] at inLine; cases inLine
  next => contradiction
  next => contradiction
  next kind => rw [kind] at inLine; cases inLine
  next =>
    refine ⟨rfl, trivial, ?_⟩
    intro event found
    cases List.mem_singleton.mp found
    exact longer.isInfix
  next => exact within_turn ⟨rfl, longer⟩

theorem isOrderly_unexpected {Skips : List Token → Prop} {expected : String}
    (listed : expected ∈ expectations) : (unexpected token (some expected)).IsOrderly Skips :=
  decide_eq_true listed

theorem within_refuse {expected : String} (inLine : token.kind.isInLine = true)
    (listed : expected ∈ expectations) :
    (machine.refuse token expected).Within machine.enclosing (read ++ [token]) := by
  have skips : (machine.skip 0 [] token).Within machine.enclosing (read ++ [token]) :=
    within_skip inLine (List.nil_suffix)
  refine ⟨skips.enclosing, skips.mode, ?_⟩
  intro event found
  rcases List.mem_cons.mp found with rfl | found
  · exact isOrderly_unexpected listed
  · exact skips.events event found

theorem within_begin (inLine : token.kind.isInLine = true) :
    (machine.begin token).Within machine.enclosing (read ++ [token]) := by
  unfold begin
  split
  next => exact within_turn trivial
  next => exact within_turn trivial
  next => exact within_turn trivial
  next => exact within_turn trivial
  next kind => rw [kind] at inLine; cases inLine
  next => exact within_turn trivial
  next kind => rw [kind] at inLine; cases inLine
  next kind => rw [kind] at inLine; cases inLine
  next => exact within_refuse inLine (by decide)

theorem within_conclude {expr : Expr} {goal : Goal} (inLine : token.kind.isInLine = true) :
    (machine.conclude expr token goal).Within machine.enclosing (read ++ [token]) := by
  cases goal with
  | value target =>
    simp only [conclude]
    split
    · refine ⟨rfl, trivial, ?_⟩
      intro event found
      cases List.mem_singleton.mp found
      trivial
    · exact within_refuse inLine (by decide)
  | guard place earlier =>
    simp only [conclude]
    split
    · exact within_turn trivial
    · exact within_refuse inLine (by decide)
  | condition place =>
    simp only [conclude]
    split
    · exact within_turn trivial
    · exact within_refuse inLine (by decide)

theorem within_readExpression {goal : Goal} {reading : Reading} (inLine : token.kind.isInLine = true) :
    (machine.readExpression goal reading token).Within machine.enclosing (read ++ [token]) := by
  unfold readExpression
  split
  next =>
    refine ⟨rfl, trivial, ?_⟩
    intro event found
    change event ∈ (if token.kind = .name then [Event.used token] else []) at found
    split at found
    · cases List.mem_singleton.mp found
      trivial
    · cases found
  next => exact within_conclude inLine
  next refused => exact within_refuse inLine (Reading.mem_expectations refused)
  next =>
    refine ⟨rfl, ⟨rfl, List.nil_suffix⟩, ?_⟩
    intro event found
    cases List.mem_singleton.mp found
    rfl

/-- A token within a line, or at its end, opens and closes no block, and at most tokens of this line
are skipped. -/
theorem within_react (inLine : token.kind.isInLine = true) (mode : machine.mode.InLine read) :
    (machine.react token).Within machine.enclosing (read ++ [token]) := by
  have either {condition : Prop} [Decidable condition] {met : Reaction} {expected : String}
      (first : met.Within machine.enclosing (read ++ [token])) (listed : expected ∈ expectations) :
      (if condition then met else machine.refuse token expected).Within machine.enclosing
        (read ++ [token]) := by
    split
    · exact first
    · exact within_refuse inLine listed
  unfold react
  split
  next => exact within_begin inLine
  next => exact either (within_turn trivial) (by decide)
  next => exact within_readExpression inLine
  next => exact either (within_turn trivial) (by decide)
  next => exact either (within_turn trivial) (by decide)
  next =>
    have noIndent : token.kind ≠ .indent := by
      intro kind
      rw [kind] at inLine
      cases inLine
    rw [if_neg noIndent]
    exact within_refuse inLine (by decide)
  next place arms _ =>
    split
    · exact within_turn trivial
    · exact within_turn trivial
    · have begins : ((machine.append (.choose (chain .done arms) place)).begin token).Within
          (machine.append (.choose (chain .done arms) place)).enclosing (read ++ [token]) :=
        within_begin inLine
      exact begins
  next => exact either ⟨rfl, trivial, List.forall_mem_nil _⟩ (by decide)
  next same =>
    rw [same] at mode
    obtain ⟨rfl, last⟩ := mode
    exact within_skip inLine last

theorem isFresh_of_endOfLine (ends : token.kind = .endOfLine) (mode : machine.mode.InLine read) :
    (machine.react token).machine.mode.isFresh = true := by
  have refused (expected : String) : (machine.refuse token expected).machine.mode.isFresh = true := by
    simp only [refuse, skip, ends]
    rfl
  unfold react
  split
  next => simp only [begin, ends]; rfl
  next => simp only [ends, reduceCtorEq, ↓reduceIte, refused]
  next goal reading _ =>
    have structural : token.kind.isStructural = true := by rw [ends]; rfl
    rcases reading.feed_of_structural structural with ⟨expr, fed⟩ | ⟨expected, fed⟩
    · simp only [readExpression, fed]
      cases goal with
      | value target => simp only [conclude, ends, ↓reduceIte]; rfl
      | guard place earlier => simp only [conclude, ends, reduceCtorEq, ↓reduceIte, refused]
      | condition place => simp only [conclude, ends, reduceCtorEq, ↓reduceIte, refused]
    · simp only [readExpression, fed, refused]
  next => simp only [ends, reduceCtorEq, ↓reduceIte, refused]
  next => simp only [ends, ↓reduceIte]; rfl
  next => simp only [ends, reduceCtorEq, ↓reduceIte, refused]
  next => simp only [ends, begin]; rfl
  next => simp only [ends, ↓reduceIte]; rfl
  next same =>
    rw [same] at mode
    obtain ⟨rfl, _⟩ := mode
    simp only [skip, ends]
    rfl

/-- A reaction to a token that starts a line: at most one block is opened or closed, and nothing is
skipped. -/
structure AtMargin (machine : Machine) (token : Token) (reaction : Reaction) : Prop where
  fresh : reaction.machine.mode.isFresh = true
  depth : (reaction.machine.enclosing.length : Int) =
    machine.enclosing.length + Kind.surplus [token.kind]
  events : ∀ event ∈ reaction.now ++ reaction.later, event.IsOrderly (· = [])

theorem atMargin_indent (fresh : machine.mode.isFresh = true) (isIndent : token.kind = .indent) :
    AtMargin machine token (machine.react token) := by
  have opened {outer : Machine} {header : Header} {now : List Event}
      (same : outer.enclosing = machine.enclosing)
      (orderly : ∀ event ∈ now, event.IsOrderly (· = [])) :
      AtMargin machine token ⟨outer.openBlock header, now, []⟩ := by
    refine ⟨rfl, ?_, by rwa [List.append_nil]⟩
    rw [isIndent, openBlock, List.length_cons, same]
    rfl
  have stray : ∀ event ∈ [Event.rejected .strayIndent token], event.IsOrderly (· = []) := by
    intro event found
    cases List.mem_singleton.mp found
    rfl
  rcases Mode.cases_of_isFresh fresh with mode | ⟨header, mode⟩ | ⟨place, arms, mode⟩
  · simp only [react, mode, begin, isIndent]
    exact opened rfl stray
  · simp only [react, mode, isIndent, ↓reduceIte]
    exact opened rfl (List.forall_mem_nil _)
  · simp only [react, mode, isIndent, begin]
    exact opened rfl stray

theorem atMargin_closeBlock {inner : Machine} {block : Enclosing} {outer : List Enclosing}
    (isDedent : token.kind = .dedent) (inside : inner.enclosing = block :: outer)
    (same : inner.enclosing = machine.enclosing) :
    AtMargin machine token (inner.closeBlock token) := by
  have depth : (outer.length : Int) = machine.enclosing.length + Kind.surplus [token.kind] := by
    rw [isDedent, ← same, inside, List.length_cons]
    change (outer.length : Int) = (outer.length + 1 : Nat) + -1
    omega
  simp only [closeBlock, inside]
  cases header : block.header with
  | arm place earlier guard => exact ⟨rfl, depth, List.forall_mem_nil _⟩
  | otherwise place arms => exact ⟨rfl, depth, List.forall_mem_nil _⟩
  | loop place condition => exact ⟨rfl, depth, List.forall_mem_nil _⟩
  | stray => exact ⟨rfl, depth, List.forall_mem_nil _⟩

/-- A dedent at the start of a line closes the current block, also where another one should have been
opened. -/
theorem atMargin_dedent (fresh : machine.mode.isFresh = true) (isDedent : token.kind = .dedent)
    (inside : machine.enclosing ≠ []) : AtMargin machine token (machine.react token) := by
  obtain ⟨block, outer, same⟩ := List.exists_cons_of_ne_nil inside
  rcases Mode.cases_of_isFresh fresh with mode | ⟨header, mode⟩ | ⟨place, arms, mode⟩
  · simp only [react, mode, begin, isDedent]
    exact atMargin_closeBlock isDedent same rfl
  · have closes : AtMargin machine token (machine.closeBlock token) :=
      atMargin_closeBlock isDedent same rfl
    simp only [react, mode, isDedent, reduceCtorEq, ↓reduceIte, refuse, skip]
    refine ⟨closes.fresh, closes.depth, ?_⟩
    intro event found
    simp only [List.cons_append, List.mem_cons] at found
    rcases found with rfl | rfl | found
    · exact isOrderly_unexpected (by decide)
    · rfl
    · exact closes.events event found
  · simp only [react, mode, isDedent, begin]
    exact atMargin_closeBlock isDedent same rfl

theorem atMargin_end (fresh : machine.mode.isFresh = true) (ends : token.kind = .endOfInput)
    (outside : machine.enclosing = []) : AtMargin machine token (machine.react token) := by
  have depth : ((closeAll machine token).machine.enclosing.length : Int) =
      machine.enclosing.length + Kind.surplus [token.kind] := by
    rw [ends, outside]
    rfl
  rcases Mode.cases_of_isFresh fresh with mode | ⟨header, mode⟩ | ⟨place, arms, mode⟩
  · simp only [react, mode, begin, ends]
    refine ⟨rfl, depth, ?_⟩
    simp [closeAll, outside]
  · simp only [react, mode, ends, reduceCtorEq, ↓reduceIte, refuse, skip]
    refine ⟨rfl, depth, ?_⟩
    simp only [closeAll, outside, List.flatMap_nil, List.append_nil, List.reverse_nil,
      List.forall_mem_cons]
    exact ⟨isOrderly_unexpected (by decide), rfl, List.forall_mem_nil _⟩
  · simp only [react, mode, ends, begin]
    refine ⟨rfl, depth, ?_⟩
    simp [closeAll, append, outside]

end Machine

end Offside
