import Offside.Proofs.Grammar.Drive
import Offside.Proofs.Grammar.ReadingSound

/-!
Every token that is parsed without a fault is accounted for. What a machine knows stands for the
tokens read so far: each token adds its lexeme, except for a line end where a statement is expected.
After a fault nothing is claimed.
-/

namespace Offside

/-- Tokens without the line ends where a statement is expected. It is expected where nothing has been
read on the line, that is at the start, and after a line end, an indent or a dedent. -/
def Token.withoutEmptyLines (expected : Bool) : List Token → List Token
  | [] => []
  | token :: rest =>
    if expected && token.kind = .endOfLine then withoutEmptyLines true rest
    else token :: withoutEmptyLines token.kind.isStructural rest

theorem Stmt.canonicalAll_iff (body : List Stmt) :
    CanonicalAll body ↔ ∀ stmt ∈ body, stmt.Canonical := by
  induction body with
  | nil => simp [CanonicalAll]
  | cons first rest ih => simp only [CanonicalAll, ih, List.mem_cons, forall_eq_or_imp]

def ArmsSoFar.lexemes (arms : ArmsSoFar) : List Lexeme :=
  Stmt.lexemesOfArms .ifWord (Machine.chain .done arms)

def ArmsSoFar.word : ArmsSoFar → Kind
  | [] => .ifWord
  | _ :: _ => .elifWord

def ArmsSoFar.Valid (arms : ArmsSoFar) : Prop := ∀ arm ∈ arms, arm.1.Canonical ∧ Stmt.CanonicalAll arm.2

namespace Machine

theorem lexemesOfArms_chain (last : Arms Expr Stmt) (arms : ArmsSoFar) :
    Stmt.lexemesOfArms .ifWord (chain last arms) =
      arms.lexemes ++ Stmt.lexemesOfArms arms.word last := by
  have split (word : Kind) (list : List (Expr × List Stmt)) :
      Stmt.lexemesOfArms word (Arms.ofList last list) =
        Stmt.lexemesOfArms word (Arms.ofList .done list) ++
          Stmt.lexemesOfArms (if list = [] then word else .elifWord) last := by
    induction list generalizing word with
    | nil => rfl
    | cons first rest ih =>
      obtain ⟨guard, body⟩ := first
      have same : (if rest = [] then Kind.elifWord else .elifWord) = .elifWord := ite_self _
      simp only [Arms.ofList, Stmt.lexemesOfArms, ih, same, reduceCtorEq, ↓reduceIte, List.append_assoc]
  have word : (if arms.reverse = [] then Kind.ifWord else .elifWord) = arms.word := by
    cases arms <;> simp [ArmsSoFar.word]
  rw [chain, split, word]
  rfl

theorem lexemes_cons (guard : Expr) (body : List Stmt) (arms : ArmsSoFar) :
    ArmsSoFar.lexemes ((guard, body) :: arms) =
      arms.lexemes ++ arms.word.bare :: guard.lexemes ++ Stmt.blockLexemes (Stmt.lexemesOfAll body) := by
  rw [ArmsSoFar.lexemes, ← chain_arm, lexemesOfArms_chain]
  simp only [Stmt.lexemesOfArms, List.append_nil, List.append_assoc, List.cons_append]

theorem chain_canonical {last : Arms Expr Stmt} {arms : ArmsSoFar} (some : arms ≠ [])
    (valid : arms.Valid) (ended : Stmt.CanonicalArms last) (place : Location) :
    (Stmt.choose (chain last arms) place).Canonical := by
  have armsCanonical (list : List (Expr × List Stmt))
      (all : ∀ arm ∈ list, arm.1.Canonical ∧ Stmt.CanonicalAll arm.2) :
      Stmt.CanonicalArms (Arms.ofList last list) := by
    induction list with
    | nil => exact ended
    | cons first rest ih =>
      obtain ⟨guard, body⟩ := first
      obtain ⟨guardCanonical, bodyCanonical⟩ := all (guard, body) (by simp)
      exact ⟨guardCanonical, bodyCanonical, ih fun arm found => all arm (by simp [found])⟩
  refine ⟨?_, armsCanonical arms.reverse fun arm found => valid arm (List.mem_reverse.mp found)⟩
  rw [chain]
  cases reversed : arms.reverse with
  | nil => exact absurd (List.reverse_eq_nil_iff.mp reversed) some
  | cons first rest => rfl

end Machine

def Goal.lexemes : Goal → List Lexeme
  | value target => [target.lexeme, Kind.assign.bare]
  | guard _ earlier => earlier.lexemes ++ [earlier.word.bare]
  | condition _ => [Kind.whileWord.bare]

def Goal.Valid : Goal → Prop
  | value target => target.kind = .name
  | guard _ earlier => earlier.Valid
  | condition _ => True

def Header.lexemes : Header → List Lexeme
  | arm place earlier guard => (Goal.guard place earlier).lexemes ++ guard.lexemes
  | otherwise _ arms => arms.lexemes ++ [Kind.elseWord.bare]
  | loop place condition => (Goal.condition place).lexemes ++ condition.lexemes
  | stray => []

def Header.Valid : Header → Prop
  | arm _ earlier guard => earlier.Valid ∧ guard.Canonical
  | otherwise _ arms => arms ≠ [] ∧ arms.Valid
  | loop _ condition => condition.Canonical
  | stray => False

namespace Mode

def lexemes : Mode → List Lexeme
  | start | skipping _ _ => []
  | target name => [name.lexeme]
  | expression goal reading => goal.lexemes ++ reading.lexemes
  | colon header => header.lexemes
  | lineEnd header => header.lexemes ++ [Kind.colon.bare]
  | opening header => header.lexemes ++ [Kind.colon.bare, Kind.endOfLine.bare]
  | afterArm _ arms => arms.lexemes
  | leaving _ => [Kind.breakWord.bare]

def Valid : Mode → Prop
  | start | leaving _ => True
  | target name => name.kind = .name
  | expression goal reading => goal.Valid ∧ reading.Valid
  | colon header | lineEnd header | opening header => header.Valid
  | afterArm _ arms => arms ≠ [] ∧ arms.Valid
  | skipping _ _ => False

def isFresh : Mode → Bool
  | start | opening _ | afterArm _ _ => true
  | _ => false

end Mode

namespace Machine

def enclosingLexemes : List Enclosing → List Lexeme
  | [] => []
  | block :: outer =>
    enclosingLexemes outer ++ Stmt.lexemesOfAll block.before.reverse ++ block.header.lexemes ++
      [Kind.colon.bare, Kind.endOfLine.bare, Kind.indent.bare]

def lexemes (machine : Machine) : List Lexeme :=
  enclosingLexemes machine.enclosing ++ Stmt.lexemesOfAll machine.statements.reverse ++
    machine.mode.lexemes

/-- A machine that tokens without a fault can lead to. -/
structure Valid (machine : Machine) : Prop where
  mode : machine.mode.Valid
  statements : ∀ stmt ∈ machine.statements, stmt.Canonical
  enclosing : ∀ block ∈ machine.enclosing, block.header.Valid ∧ ∀ stmt ∈ block.before, stmt.Canonical

theorem valid_initial : initial.Valid where
  mode := trivial
  statements := by intro stmt found; cases found
  enclosing := by intro block found; cases found

/-- What a token without a fault does: its lexeme is added, unless it is a line end where a statement
is expected. -/
structure Accounts (machine : Machine) (token : Token) (next : Machine) : Prop where
  valid : next.Valid
  fresh : next.mode.isFresh = token.kind.isStructural
  lexemes : next.lexemes = machine.lexemes ++
    if machine.mode.isFresh && token.kind = .endOfLine then [] else [token.lexeme]

def Clean (events : List Event) : Prop := ∀ event ∈ events, event.isFault = false

theorem Clean.left {first second : List Event} (clean : Clean (first ++ second)) : Clean first :=
  fun event found => clean event (List.mem_append_left second found)

theorem Clean.right {first second : List Event} (clean : Clean (first ++ second)) : Clean second :=
  fun event found => clean event (List.mem_append_right first found)

theorem not_clean_unexpected {token : Token} {expected : Option String} {events : List Event}
    (found : unexpected token expected ∈ events) : ¬ Clean events := by
  intro clean
  cases clean _ found

theorem not_clean_refuse (machine : Machine) (token : Token) (expected : String) :
    ¬ Clean (machine.refuse token expected).now :=
  not_clean_unexpected (List.mem_cons_self ..)

theorem accounts_turn {machine : Machine} {token : Token} {mode : Mode} (valid : machine.Valid)
    (modeValid : mode.Valid) (fresh : mode.isFresh = token.kind.isStructural)
    (notEmpty : (machine.mode.isFresh && decide (token.kind = .endOfLine)) = false)
    (added : mode.lexemes = machine.mode.lexemes ++ [token.lexeme]) :
    Accounts machine token { machine with mode } where
  valid := ⟨modeValid, valid.statements, valid.enclosing⟩
  fresh := fresh
  lexemes := by
    simp only [lexemes, notEmpty, Bool.false_eq_true, ↓reduceIte, added, List.append_assoc]

theorem accounts_turn_bare {machine : Machine} {token : Token} {mode : Mode} {kind : Kind}
    (valid : machine.Valid) (same : token.kind = kind)
    (valueless : kind ∉ [Kind.name, .integer, .float, .boolean]) (modeValid : mode.Valid)
    (fresh : mode.isFresh = kind.isStructural)
    (notEmpty : (machine.mode.isFresh && decide (kind = .endOfLine)) = false)
    (added : mode.lexemes = machine.mode.lexemes ++ [kind.bare]) :
    Accounts machine token { machine with mode } := by
  rw [← Token.lexeme_eq_bare same valueless] at added
  subst same
  exact accounts_turn valid modeValid fresh notEmpty added

theorem accounts_append {machine : Machine} {token : Token} {stmt : Stmt} (valid : machine.Valid)
    (canonical : stmt.Canonical) (structural : token.kind.isStructural = true)
    (notEmpty : (machine.mode.isFresh && decide (token.kind = .endOfLine)) = false)
    (added : stmt.lexemes = machine.mode.lexemes ++ [token.lexeme]) :
    Accounts machine token (machine.append stmt) where
  valid := {
    mode := trivial
    statements := by
      intro other found
      rcases List.mem_cons.mp found with rfl | before
      · exact canonical
      · exact valid.statements other before
    enclosing := valid.enclosing }
  fresh := structural.symm
  lexemes := by
    simp only [lexemes, append, notEmpty, Bool.false_eq_true, ↓reduceIte, List.reverse_cons,
      Stmt.lexemesOfAll_append, Stmt.lexemesOfAll, added, Mode.lexemes, List.append_nil,
      List.append_assoc]

theorem accounts_openBlock {header : Header} {enclosing : List Enclosing} {statements : List Stmt}
    {token : Token} (valid : Valid ⟨.opening header, enclosing, statements⟩)
    (isIndent : token.kind = .indent) :
    Accounts ⟨.opening header, enclosing, statements⟩ token
      (openBlock ⟨.opening header, enclosing, statements⟩ header) where
  valid := {
    mode := trivial
    statements := by intro stmt found; cases found
    enclosing := by
      intro block found
      rcases List.mem_cons.mp found with rfl | outer
      · exact ⟨valid.mode, valid.statements⟩
      · exact valid.enclosing block outer }
  fresh := by rw [isIndent]; rfl
  lexemes := by
    simp only [lexemes, openBlock, enclosingLexemes, Mode.lexemes, Token.lexeme_eq_bare isIndent (by decide),
      isIndent, reduceCtorEq, decide_false, Bool.and_false, Bool.false_eq_true, ↓reduceIte,
      List.reverse_nil, Stmt.lexemesOfAll, List.append_nil, List.append_assoc, List.cons_append,
      List.nil_append]

theorem accounts_leaveBlock {block : Enclosing} {outer : List Enclosing} {statements : List Stmt}
    {token : Token} (valid : Valid ⟨.start, block :: outer, statements⟩)
    (isDedent : token.kind = .dedent) :
    Accounts ⟨.start, block :: outer, statements⟩ token
      (leaveBlock ⟨.start, outer, block.before⟩ statements.reverse block.header) := by
  obtain ⟨header, before⟩ := block
  obtain ⟨headerValid, beforeValid⟩ := valid.enclosing ⟨header, before⟩ (by simp)
  have outerValid : ∀ block ∈ outer, block.header.Valid ∧ ∀ stmt ∈ block.before, stmt.Canonical :=
    fun block found => valid.enclosing block (by simp [found])
  have bodyCanonical : Stmt.CanonicalAll statements.reverse := by
    rw [Stmt.canonicalAll_iff]
    intro stmt found
    exact valid.statements stmt (List.mem_reverse.mp found)
  have dedent := Token.lexeme_eq_bare isDedent (by decide)
  have completed {stmt : Stmt} (canonical : stmt.Canonical)
      (added : stmt.lexemes = header.lexemes ++ Stmt.blockLexemes (Stmt.lexemesOfAll statements.reverse)) :
      Accounts ⟨.start, ⟨header, before⟩ :: outer, statements⟩ token
        (append ⟨.start, outer, before⟩ stmt) := by
    refine ⟨⟨trivial, ?_, outerValid⟩, by rw [isDedent]; rfl, ?_⟩
    · intro other found
      rcases List.mem_cons.mp found with rfl | earlier
      · exact canonical
      · exact beforeValid other earlier
    · simp [lexemes, append, enclosingLexemes, Mode.lexemes, isDedent, dedent, added, Stmt.lexemesOfAll,
        Stmt.blockLexemes]
  cases header with
  | arm place earlier guard =>
    obtain ⟨earlierValid, guardCanonical⟩ := headerValid
    refine ⟨⟨⟨by simp, ?_⟩, beforeValid, outerValid⟩, by rw [isDedent]; rfl, ?_⟩
    · intro arm found
      rcases List.mem_cons.mp found with rfl | previous
      · exact ⟨guardCanonical, bodyCanonical⟩
      · exact earlierValid arm previous
    · simp [lexemes, leaveBlock, enclosingLexemes, Mode.lexemes, Header.lexemes, Goal.lexemes,
        lexemes_cons, isDedent, dedent, Stmt.blockLexemes]
  | otherwise place arms =>
    obtain ⟨some, armsValid⟩ := headerValid
    apply completed
    · have ended : Stmt.CanonicalArms (.otherwise statements.reverse) := bodyCanonical
      exact chain_canonical some armsValid ended place
    · rw [Stmt.lexemes, lexemesOfArms_chain]
      simp only [Stmt.lexemesOfArms, Header.lexemes, List.append_assoc, List.singleton_append]
  | loop place condition =>
    apply completed
    · exact ⟨headerValid, bodyCanonical⟩
    · simp only [Stmt.lexemes, Header.lexemes, Goal.lexemes, List.singleton_append]
  | stray => cases headerValid

theorem accounts_begin {enclosing : List Enclosing} {statements : List Stmt} {token : Token}
    (valid : Valid ⟨.start, enclosing, statements⟩) (notEnd : token.kind ≠ .endOfInput)
    (clean : Clean ((begin ⟨.start, enclosing, statements⟩ token).now ++
      (begin ⟨.start, enclosing, statements⟩ token).later)) :
    Accounts ⟨.start, enclosing, statements⟩ token
      (begin ⟨.start, enclosing, statements⟩ token).machine := by
  unfold begin at clean ⊢
  split at clean
  next kind =>
    exact accounts_turn valid kind (by rw [kind]; rfl) (by rw [kind]; rfl) rfl
  next kind =>
    refine accounts_turn_bare valid kind (by decide) ⟨?_, trivial⟩ rfl rfl rfl
    intro arm found
    cases found
  next kind =>
    exact accounts_turn_bare valid kind (by decide) ⟨trivial, trivial⟩ rfl rfl rfl
  next kind =>
    exact accounts_turn_bare valid kind (by decide) trivial rfl rfl rfl
  next kind => cases clean (.rejected .strayIndent token) (by simp)
  next kind =>
    refine ⟨valid, by rw [kind]; rfl, ?_⟩
    simp only [turn, kind, Mode.isFresh, decide_true, Bool.and_self, ↓reduceIte, List.append_nil]
  next kind =>
    cases enclosing with
    | nil => exact absurd clean (not_clean_unexpected (List.mem_singleton_self _))
    | cons block outer => exact accounts_leaveBlock valid kind
  next kind => exact absurd kind notEnd
  next => exact absurd clean.left (not_clean_refuse _ token "statement")

theorem accounts_conclude {goal : Goal} {reading : Reading} {enclosing : List Enclosing}
    {statements : List Stmt} {expr : Expr} {token : Token}
    (valid : Valid ⟨.expression goal reading, enclosing, statements⟩) (canonical : expr.Canonical)
    (same : expr.lexemes = reading.lexemes)
    (clean : Clean
      (conclude ⟨.expression goal reading, enclosing, statements⟩ expr token goal).now) :
    Accounts ⟨.expression goal reading, enclosing, statements⟩ token
      (conclude ⟨.expression goal reading, enclosing, statements⟩ expr token goal).machine := by
  have goalValid := valid.mode.1
  cases goal with
  | value target =>
    simp only [conclude] at clean ⊢
    split at clean
    next kind =>
      rw [if_pos kind]
      refine accounts_append valid canonical (by rw [kind]; rfl) rfl ?_
      rw [Token.lexeme_eq_bare kind (by decide)]
      simp only [Stmt.lexemes, Mode.lexemes, Goal.lexemes, Token.lexeme_of_name goalValid, same,
        List.cons_append, List.nil_append]
    next => exact absurd clean (not_clean_refuse _ token _)
  | guard place earlier =>
    simp only [conclude] at clean ⊢
    split at clean
    next kind =>
      rw [if_pos kind]
      refine accounts_turn_bare valid kind (by decide) ⟨goalValid, canonical⟩ rfl rfl ?_
      simp only [Mode.lexemes, Header.lexemes, same]
    next => exact absurd clean (not_clean_refuse _ token _)
  | condition place =>
    simp only [conclude] at clean ⊢
    split at clean
    next kind =>
      rw [if_pos kind]
      refine accounts_turn_bare valid kind (by decide) canonical rfl rfl ?_
      simp only [Mode.lexemes, Header.lexemes, same]
    next => exact absurd clean (not_clean_refuse _ token _)

theorem accounts_readExpression {goal : Goal} {reading : Reading} {enclosing : List Enclosing}
    {statements : List Stmt} {token : Token}
    (valid : Valid ⟨.expression goal reading, enclosing, statements⟩)
    (clean : Clean
      ((readExpression ⟨.expression goal reading, enclosing, statements⟩ goal reading token).now ++
        (readExpression ⟨.expression goal reading, enclosing, statements⟩ goal reading token).later)) :
    Accounts ⟨.expression goal reading, enclosing, statements⟩ token
      (readExpression ⟨.expression goal reading, enclosing, statements⟩ goal reading token).machine := by
  obtain ⟨goalValid, readingValid⟩ := valid.mode
  simp only [readExpression] at clean ⊢
  cases fed : reading.feed token with
  | more next =>
    obtain ⟨nextValid, added⟩ := Reading.feed_more readingValid fed
    refine accounts_turn valid ⟨goalValid, nextValid⟩ ?_ rfl ?_
    · cases structural : token.kind.isStructural with
      | false => rfl
      | true =>
        rcases reading.feed_of_structural structural with ⟨expr, fed'⟩ | ⟨expected, fed'⟩
        · rw [fed] at fed'; cases fed'
        · rw [fed] at fed'; cases fed'
    · simp only [Mode.lexemes, added, List.append_assoc]
  | complete expr =>
    obtain ⟨canonical, same⟩ := Reading.feed_complete readingValid fed
    rw [fed] at clean
    exact accounts_conclude valid canonical same clean.left
  | refused expected =>
    rw [fed] at clean
    exact absurd clean.left (not_clean_refuse _ token expected)
  | tooDeep =>
    rw [fed] at clean
    cases clean (.rejected (.expressionTooDeep deepestNesting) token) (by simp)

theorem valid_append_chain {place : Location} {arms : ArmsSoFar} {enclosing : List Enclosing}
    {statements : List Stmt} (valid : Valid ⟨.afterArm place arms, enclosing, statements⟩) :
    Valid (append ⟨.afterArm place arms, enclosing, statements⟩ (.choose (chain .done arms) place)) ∧
      lexemes (append ⟨.afterArm place arms, enclosing, statements⟩ (.choose (chain .done arms) place)) =
        lexemes ⟨.afterArm place arms, enclosing, statements⟩ := by
  obtain ⟨some, armsValid⟩ := valid.mode
  have ended : Stmt.CanonicalArms .done := trivial
  refine ⟨⟨trivial, ?_, valid.enclosing⟩, ?_⟩
  · intro stmt found
    rcases List.mem_cons.mp found with rfl | before
    · exact chain_canonical some armsValid ended place
    · exact valid.statements stmt before
  · simp only [lexemes, append, List.reverse_cons, Stmt.lexemesOfAll_append, Stmt.lexemesOfAll,
      Stmt.lexemes, Mode.lexemes, ArmsSoFar.lexemes, List.append_nil, List.append_assoc]

theorem accounts_afterArm {place : Location} {arms : ArmsSoFar} {enclosing : List Enclosing}
    {statements : List Stmt} {token : Token}
    (valid : Valid ⟨.afterArm place arms, enclosing, statements⟩) (notEnd : token.kind ≠ .endOfInput)
    (clean : Clean ((react ⟨.afterArm place arms, enclosing, statements⟩ token).now ++
      (react ⟨.afterArm place arms, enclosing, statements⟩ token).later)) :
    Accounts ⟨.afterArm place arms, enclosing, statements⟩ token
      (react ⟨.afterArm place arms, enclosing, statements⟩ token).machine := by
  obtain ⟨some, armsValid⟩ := valid.mode
  have laterWord : arms.word = .elifWord := by
    cases arms with
    | nil => exact absurd rfl some
    | cons first rest => rfl
  simp only [react] at clean ⊢
  split at clean
  next kind =>
    refine accounts_turn_bare valid kind (by decide) ⟨armsValid, trivial⟩ rfl rfl ?_
    simp only [Mode.lexemes, Goal.lexemes, laterWord, Reading.lexemes, Reading.start,
      Reading.openLexemes, List.append_nil]
  next kind =>
    exact accounts_turn_bare valid kind (by decide) ⟨some, armsValid⟩ rfl rfl rfl
  next =>
    obtain ⟨overValid, same⟩ := valid_append_chain valid
    have accounts := accounts_begin overValid notEnd clean
    refine ⟨accounts.valid, accounts.fresh, ?_⟩
    rw [← same]
    exact accounts.lexemes

/-- A token that does not end the input, and brings no fault, is accounted for. -/
theorem accounts_react {machine : Machine} {token : Token} (valid : machine.Valid)
    (notEnd : token.kind ≠ .endOfInput)
    (clean : Clean ((machine.react token).now ++ (machine.react token).later)) :
    Accounts machine token (machine.react token).machine := by
  obtain ⟨mode, enclosing, statements⟩ := machine
  cases mode with
  | start => exact accounts_begin valid notEnd clean
  | target name =>
    simp only [react] at clean ⊢
    split at clean
    next kind =>
      rw [if_pos kind]
      exact accounts_turn_bare valid kind (by decide) ⟨valid.mode, trivial⟩ rfl rfl rfl
    next => exact absurd clean.left (not_clean_refuse _ token _)
  | expression goal reading => exact accounts_readExpression valid clean
  | colon header =>
    simp only [react] at clean ⊢
    split at clean
    next kind =>
      rw [if_pos kind]
      exact accounts_turn_bare valid kind (by decide) valid.mode rfl rfl rfl
    next => exact absurd clean.left (not_clean_refuse _ token _)
  | lineEnd header =>
    simp only [react] at clean ⊢
    split at clean
    next kind =>
      rw [if_pos kind]
      refine accounts_turn_bare valid kind (by decide) valid.mode rfl rfl ?_
      simp only [Mode.lexemes, List.append_assoc, List.singleton_append]
    next => exact absurd clean.left (not_clean_refuse _ token _)
  | opening header =>
    simp only [react] at clean ⊢
    split at clean
    next kind =>
      rw [if_pos kind]
      exact accounts_openBlock valid kind
    next => exact absurd clean.left (not_clean_refuse _ token _)
  | afterArm place arms => exact accounts_afterArm valid notEnd clean
  | leaving place =>
    simp only [react] at clean ⊢
    split at clean
    next kind =>
      rw [if_pos kind]
      refine accounts_append valid trivial (by rw [kind]; rfl) rfl ?_
      rw [Token.lexeme_eq_bare kind (by decide)]
      rfl
    next => exact absurd clean.left (not_clean_refuse _ token _)
  | skipping depth skipped => exact valid.mode.elim

theorem drive_lexemes {machine : Machine} {tokens : List Token} (valid : machine.Valid)
    (inside : ∀ token ∈ tokens, token.kind ≠ .endOfInput) (clean : Clean (machine.drive tokens).2) :
    (machine.drive tokens).1.Valid ∧
      (machine.drive tokens).1.lexemes = machine.lexemes ++
        (Token.withoutEmptyLines machine.mode.isFresh tokens).map Token.lexeme := by
  induction tokens generalizing machine with
  | nil =>
    refine ⟨valid, ?_⟩
    simp only [drive, Token.withoutEmptyLines, List.map_nil, List.append_nil]
  | cons token rest ih =>
    simp only [drive] at clean ⊢
    have accounts := accounts_react valid (inside token (by simp)) clean.left
    obtain ⟨lastValid, same⟩ :=
      ih accounts.valid (fun other found => inside other (by simp [found])) clean.right
    refine ⟨lastValid, ?_⟩
    rw [same, accounts.lexemes, accounts.fresh]
    simp only [Token.withoutEmptyLines]
    split
    next empty =>
      have kind : token.kind = .endOfLine := by
        simp only [Bool.and_eq_true, decide_eq_true_eq] at empty
        exact empty.2
      rw [kind, List.append_nil]
      rfl
    next => simp only [List.append_assoc, List.singleton_append, List.map_cons]

/-- The end of the input brings a fault, unless it comes outside all blocks and after a statement. -/
theorem react_end_cases {machine : Machine} {token : Token} (valid : machine.Valid)
    (ends : token.kind = .endOfInput) (clean : Clean (machine.react token).now) :
    (∃ statements, machine = ⟨.start, [], statements⟩) ∨
      ∃ place arms statements, machine = ⟨.afterArm place arms, [], statements⟩ := by
  have started {enclosing : List Enclosing} {statements : List Stmt}
      (clean : Clean (begin ⟨.start, enclosing, statements⟩ token).now) : enclosing = [] := by
    simp only [begin, ends, closeAll] at clean
    cases enclosing with
    | nil => rfl
    | cons block outer => exact absurd clean (not_clean_unexpected (List.mem_cons_self ..))
  obtain ⟨mode, enclosing, statements⟩ := machine
  cases mode with
  | start =>
    rw [started clean]
    exact .inl ⟨statements, rfl⟩
  | afterArm place arms =>
    simp only [react, ends, append] at clean
    rw [started clean]
    exact .inr ⟨place, arms, statements, rfl⟩
  | expression goal reading =>
    have structural : token.kind.isStructural = true := by rw [ends]; rfl
    rcases reading.feed_of_structural structural with ⟨expr, fed⟩ | ⟨expected, fed⟩
    · simp only [react, readExpression, fed] at clean
      cases goal <;> simp only [conclude, ends, reduceCtorEq, ↓reduceIte] at clean <;>
        exact absurd clean (not_clean_refuse _ token _)
    · simp only [react, readExpression, fed] at clean
      exact absurd clean (not_clean_refuse _ token _)
  | skipping depth skipped => exact valid.mode.elim
  | _ =>
    simp only [react, ends, reduceCtorEq, ↓reduceIte] at clean
    exact absurd clean (not_clean_refuse _ token _)

theorem begin_end (statements : List Stmt) {token : Token} (ends : token.kind = .endOfInput) :
    begin ⟨.start, [], statements⟩ token = ⟨⟨.start, [], statements⟩, [], []⟩ := by
  simp only [begin, ends, closeAll, outermost, List.getLast?_nil, List.flatMap_nil]

theorem react_end {machine : Machine} {token : Token} (valid : machine.Valid)
    (ends : token.kind = .endOfInput) (clean : Clean (machine.react token).now) :
    Stmt.CanonicalAll (machine.react token).machine.statements.reverse ∧
      Stmt.lexemesOfAll (machine.react token).machine.statements.reverse = machine.lexemes := by
  have started {statements : List Stmt} (valid : Valid ⟨.start, [], statements⟩) :
      Stmt.CanonicalAll (begin ⟨.start, [], statements⟩ token).machine.statements.reverse ∧
        Stmt.lexemesOfAll (begin ⟨.start, [], statements⟩ token).machine.statements.reverse =
          lexemes ⟨.start, [], statements⟩ := by
    rw [begin_end statements ends]
    constructor
    · rw [Stmt.canonicalAll_iff]
      intro stmt found
      exact valid.statements stmt (List.mem_reverse.mp found)
    · simp only [lexemes, enclosingLexemes, Mode.lexemes, List.nil_append, List.append_nil]
  rcases react_end_cases valid ends clean with ⟨statements, rfl⟩ | ⟨place, arms, statements, rfl⟩
  · exact started valid
  · obtain ⟨overValid, same⟩ := valid_append_chain valid
    simp only [react, ends]
    rw [← same]
    exact started overValid

end Machine

end Offside
