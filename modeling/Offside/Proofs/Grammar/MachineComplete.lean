import Offside.Proofs.Grammar.Drive
import Offside.Proofs.Grammar.ReadingComplete

/-!
The tokens of a canonical program are parsed to that program, and the names in it are all that is
left to look up. After a guarded body the machine waits for more of the chain; the statements are
therefore compared once the chain is taken to be over.
-/

namespace Offside

namespace Machine

/-- The machine with a chain that waits for more taken to be over. -/
def settled (machine : Machine) : Machine :=
  match machine.mode with
  | .afterArm place arms => machine.append (.choose (chain .done arms) place)
  | _ => machine

theorem react_of_settled {machine : Machine} {enclosing : List Enclosing} {statements : List Stmt}
    {token : Token} (ready : machine.settled = ⟨.start, enclosing, statements⟩)
    (noElif : token.kind ≠ .elifWord) (noElse : token.kind ≠ .elseWord) :
    machine.react token = begin ⟨.start, enclosing, statements⟩ token := by
  obtain ⟨mode, outer, before⟩ := machine
  cases mode with
  | afterArm place arms =>
    simp only [settled] at ready
    rw [← ready]
    simp only [react]
  | start => rw [← ready]; rfl
  | _ => exact absurd (congrArg Machine.mode ready) (by simp [settled])

def Goes (machine : Machine) (tokens : List Token) (last : Machine) : Prop :=
  (machine.drive tokens).1 = last ∧ ∀ event ∈ (machine.drive tokens).2, event.isQuiet = true

theorem Goes.refl (machine : Machine) : Goes machine [] machine := by
  refine ⟨rfl, ?_⟩
  intro event found
  cases found

theorem Goes.append {machine middle last : Machine} {front back : List Token}
    (first : Goes machine front middle) (second : Goes middle back last) :
    Goes machine (front ++ back) last := by
  obtain ⟨rfl, quietFirst⟩ := first
  obtain ⟨reached, quietSecond⟩ := second
  rw [Goes, drive_append]
  refine ⟨reached, ?_⟩
  intro event found
  rcases List.mem_append.mp found with early | late
  · exact quietFirst event early
  · exact quietSecond event late

theorem Goes.step {machine middle last : Machine} {token : Token} {later : List Event}
    {rest : List Token} (reacts : machine.react token = ⟨middle, [], later⟩)
    (quiet : ∀ event ∈ later, event.isQuiet = true) (second : Goes middle rest last) :
    Goes machine (token :: rest) last := by
  obtain ⟨reached, quietSecond⟩ := second
  simp only [Goes, drive, reacts, List.nil_append]
  refine ⟨reached, ?_⟩
  intro event found
  rcases List.mem_append.mp found with now | late
  · exact quiet event now
  · exact quietSecond event late

theorem Goes.turn {machine middle last : Machine} {token : Token} {rest : List Token}
    (reacts : machine.react token = ⟨middle, [], []⟩) (second : Goes middle rest last) :
    Goes machine (token :: rest) last :=
  Goes.step reacts (by intro event found; cases found) second

theorem goes_feedAll {reading last : Reading} {tokens : List Token}
    (fed : reading.feedAll tokens = some last) (goal : Goal) (enclosing : List Enclosing)
    (statements : List Stmt) :
    Goes ⟨.expression goal reading, enclosing, statements⟩ tokens
      ⟨.expression goal last, enclosing, statements⟩ := by
  induction tokens generalizing reading with
  | nil => cases fed; exact Goes.refl _
  | cons token rest ih =>
    simp only [Reading.feedAll] at fed
    split at fed
    next next belongs =>
      have reacts : react ⟨.expression goal reading, enclosing, statements⟩ token =
          ⟨⟨.expression goal next, enclosing, statements⟩, [],
            if token.kind = .name then [.used token] else []⟩ := by
        simp only [react, readExpression, belongs]
      refine Goes.step reacts ?_ (ih fed)
      intro event found
      split at found
      · cases List.mem_singleton.mp found; rfl
      · cases found
    next => cases fed

theorem goes_expression {tokens : List Token} {expr result : Expr}
    (reads : Reading.Reads tokens expr result) (nested : expr.nesting ≤ deepestNesting) {goal : Goal}
    {enclosing : List Enclosing} {statements : List Stmt} {token : Token}
    (noOperator : token.kind.binaryOp? = none) {next : Machine} {later : List Event}
    (concludes : ∀ mode, conclude ⟨mode, enclosing, statements⟩ result token goal = ⟨next, [], later⟩)
    (quiet : ∀ event ∈ later, event.isQuiet = true) :
    Goes ⟨.expression goal .start, enclosing, statements⟩ (tokens ++ [token]) next := by
  obtain ⟨reading, fed, completes⟩ := reads.completes nested
  refine (goes_feedAll fed goal enclosing statements).append (Goes.step ?_ quiet (Goes.refl next))
  simp only [react, readExpression, completes token noOperator]
  exact concludes _

/-- The tokens of statements add these statements to the current block. -/
def Runs (tokens : List Token) (body : List Stmt) : Prop :=
  ∀ machine enclosing statements, machine.settled = ⟨.start, enclosing, statements⟩ →
    ∃ last, Goes machine tokens last ∧ last.settled = ⟨.start, enclosing, body.reverse ++ statements⟩

/-- The tokens that continue a chain complete it. -/
def Continues (tokens : List Token) (rest : Arms Expr Stmt) : Prop :=
  ∀ place arms enclosing statements,
    ∃ last, Goes ⟨.afterArm place arms, enclosing, statements⟩ tokens last ∧
      last.settled = ⟨.start, enclosing, .choose (chain rest arms) place :: statements⟩

theorem Runs.append {front back : List Token} {first second : List Stmt} (runsFirst : Runs front first)
    (runsSecond : Runs back second) : Runs (front ++ back) (first ++ second) := by
  intro machine enclosing statements ready
  obtain ⟨middle, goesFirst, readyMiddle⟩ := runsFirst machine enclosing statements ready
  obtain ⟨last, goesSecond, readyLast⟩ := runsSecond middle enclosing _ readyMiddle
  refine ⟨last, goesFirst.append goesSecond, ?_⟩
  rw [readyLast, List.reverse_append, List.append_assoc]

inductive IsBlock : List Token → List Token → Prop where
  | block {colon newline indent dedent : Token} (inside : List Token) (isColon : colon.kind = .colon)
      (isNewline : newline.kind = .endOfLine) (isIndent : indent.kind = .indent)
      (isDedent : dedent.kind = .dedent) :
      IsBlock (colon :: newline :: indent :: inside ++ [dedent]) inside

theorem exists_isBlock {tokens : List Token} {body : List Lexeme}
    (written : tokens.map Token.lexeme = Stmt.blockLexemes body) :
    ∃ inside, IsBlock tokens inside ∧ inside.map Token.lexeme = body := by
  obtain ⟨front, last, rfl, spelledFront, spelledLast⟩ := List.map_eq_append_iff.mp written
  obtain ⟨colon, afterColon, rfl, isColon, spelledLine⟩ := List.map_eq_cons_iff.mp spelledFront
  obtain ⟨newline, afterLine, rfl, isNewline, spelledIndent⟩ := List.map_eq_cons_iff.mp spelledLine
  obtain ⟨indent, inside, rfl, isIndent, spelledBody⟩ := List.map_eq_cons_iff.mp spelledIndent
  obtain ⟨dedent, rfl, isDedent⟩ := List.map_eq_singleton_iff.mp spelledLast
  exact ⟨inside, .block inside (Token.kind_of_lexeme isColon) (Token.kind_of_lexeme isNewline)
    (Token.kind_of_lexeme isIndent) (Token.kind_of_lexeme isDedent), spelledBody⟩

theorem exists_guarded {tokens : List Token} {kind : Kind} {guard : Expr} {body : List Lexeme}
    (ordered : guard.Ordered)
    (written : tokens.map Token.lexeme = kind.bare :: guard.lexemes ++ Stmt.blockLexemes body) :
    ∃ word front block inside result, tokens = word :: front ++ block ∧ word.kind = kind ∧
      result.agrees guard = true ∧ Reading.Reads front guard result ∧ IsBlock block inside ∧
      inside.map Token.lexeme = body := by
  obtain ⟨guarded, block, rfl, spelledGuarded, spelledBlock⟩ := List.map_eq_append_iff.mp written
  obtain ⟨word, front, rfl, isWord, spelledGuard⟩ := List.map_eq_cons_iff.mp spelledGuarded
  obtain ⟨result, same, reads⟩ := Reading.exists_reads guard ordered front spelledGuard
  obtain ⟨inside, isBlock, spelledBody⟩ := exists_isBlock spelledBlock
  exact ⟨word, front, block, inside, result, rfl, Token.kind_of_lexeme isWord, same, reads, isBlock,
    spelledBody⟩

theorem goes_body {newline indent dedent : Token} {inside : List Token} {body : List Stmt}
    (isNewline : newline.kind = .endOfLine) (isIndent : indent.kind = .indent)
    (isDedent : dedent.kind = .dedent) (runs : Runs inside body) (header : Header)
    (enclosing : List Enclosing) (statements : List Stmt) :
    Goes ⟨.lineEnd header, enclosing, statements⟩ (newline :: indent :: inside ++ [dedent])
      (leaveBlock ⟨.start, enclosing, statements⟩ body header) := by
  have atLineEnd : react ⟨.lineEnd header, enclosing, statements⟩ newline =
      ⟨⟨.opening header, enclosing, statements⟩, [], []⟩ := by
    simp only [react, isNewline, ↓reduceIte, turn]
  have atIndent : react ⟨.opening header, enclosing, statements⟩ indent =
      ⟨⟨.start, ⟨header, statements⟩ :: enclosing, []⟩, [], []⟩ := by
    simp only [react, isIndent, ↓reduceIte, openBlock]
  obtain ⟨last, goesInside, ready⟩ := runs ⟨.start, ⟨header, statements⟩ :: enclosing, []⟩ _ _ rfl
  rw [List.append_nil] at ready
  have atDedent : last.react dedent =
      ⟨leaveBlock ⟨.start, enclosing, statements⟩ body header, [], []⟩ := by
    rw [react_of_settled ready (by rw [isDedent]; decide) (by rw [isDedent]; decide)]
    simp only [begin, isDedent, closeBlock, List.reverse_reverse]
  exact Goes.turn atLineEnd
    (Goes.turn atIndent (goesInside.append (Goes.turn atDedent (Goes.refl _))))

theorem goes_block {tokens inside : List Token} {body : List Stmt} (block : IsBlock tokens inside)
    (runs : Runs inside body) (header : Header) (enclosing : List Enclosing)
    (statements : List Stmt) :
    Goes ⟨.colon header, enclosing, statements⟩ tokens
      (leaveBlock ⟨.start, enclosing, statements⟩ body header) := by
  obtain ⟨inside, isColon, isNewline, isIndent, isDedent⟩ := block
  refine Goes.turn ?_ (goes_body isNewline isIndent isDedent runs header enclosing statements)
  simp only [react, isColon, ↓reduceIte, turn]

theorem goes_guarded {front tokens inside : List Token} {guard result : Expr} {body : List Stmt}
    (reads : Reading.Reads front guard result) (nested : guard.nesting ≤ deepestNesting)
    (block : IsBlock tokens inside) (runs : Runs inside body) {goal : Goal} {header : Header}
    {enclosing : List Enclosing} {statements : List Stmt}
    (concludes : ∀ mode colon, colon.kind = .colon →
      conclude ⟨mode, enclosing, statements⟩ result colon goal =
        ⟨⟨.lineEnd header, enclosing, statements⟩, [], []⟩) :
    Goes ⟨.expression goal .start, enclosing, statements⟩ (front ++ tokens)
      (leaveBlock ⟨.start, enclosing, statements⟩ body header) := by
  obtain ⟨inside, isColon, isNewline, isIndent, isDedent⟩ := block
  have noOperator : Kind.colon.binaryOp? = none := rfl
  rw [← isColon] at noOperator
  have first := goes_expression reads nested noOperator (fun mode => concludes mode _ isColon)
    (by intro event found; cases found)
  have second := goes_body isNewline isIndent isDedent runs header enclosing statements
  simpa only [List.append_assoc, List.cons_append, List.nil_append] using first.append second

theorem exists_goes_arm {front tokens inside back : List Token} {guard result : Expr}
    {body : List Stmt} {rest : Arms Expr Stmt} (reads : Reading.Reads front guard result)
    (nested : guard.nesting ≤ deepestNesting) (block : IsBlock tokens inside) (runs : Runs inside body)
    (continues : Continues back rest) (place : Location) (arms : ArmsSoFar)
    (enclosing : List Enclosing) (statements : List Stmt) :
    ∃ last, Goes ⟨.expression (.guard place arms) .start, enclosing, statements⟩
        (front ++ tokens ++ back) last ∧
      last.settled =
        ⟨.start, enclosing, .choose (chain (.arm result body rest) arms) place :: statements⟩ := by
  have concludes (mode : Mode) (colon : Token) (isColon : colon.kind = .colon) :
      conclude ⟨mode, enclosing, statements⟩ result colon (.guard place arms) =
        ⟨⟨.lineEnd (.arm place arms result), enclosing, statements⟩, [], []⟩ := by
    simp only [conclude, isColon, ↓reduceIte, turn]
  have first := goes_guarded reads nested block runs concludes
  obtain ⟨last, second, reached⟩ := continues place ((result, body) :: arms) enclosing statements
  refine ⟨last, first.append second, ?_⟩
  rw [reached, ← chain_arm]

theorem runs_assign {name assign newline : Token} {tokens : List Token} {target : String}
    {value result : Expr} (isName : name.lexeme = (.name, .text target))
    (isAssign : assign.kind = .assign) (isNewline : newline.kind = .endOfLine)
    (reads : Reading.Reads tokens value result) (nested : value.nesting ≤ deepestNesting) :
    Runs (name :: assign :: tokens ++ [newline]) [.assign target result name.place] := by
  intro machine enclosing statements ready
  have kind := Token.kind_of_lexeme isName
  rw [Token.lexeme_of_name kind] at isName
  simp only [Prod.mk.injEq, Payload.text.injEq, true_and] at isName
  have atName : machine.react name = ⟨⟨.target name, enclosing, statements⟩, [], []⟩ := by
    rw [react_of_settled ready (by rw [kind]; decide) (by rw [kind]; decide)]
    simp only [begin, kind, turn]
  have atAssign : react ⟨.target name, enclosing, statements⟩ assign =
      ⟨⟨.expression (.value name) .start, enclosing, statements⟩, [], []⟩ := by
    simp only [react, isAssign, ↓reduceIte, turn]
  have atNewline (mode : Mode) : conclude ⟨mode, enclosing, statements⟩ result newline (.value name) =
      ⟨⟨.start, enclosing, .assign target result name.place :: statements⟩, [], [.assigned name]⟩ := by
    simp only [conclude, isNewline, ↓reduceIte, append, isName]
  have quiet : ∀ event ∈ [Event.assigned name], event.isQuiet = true := by
    intro event found
    cases List.mem_singleton.mp found
    rfl
  have noOperator : newline.kind.binaryOp? = none := by rw [isNewline]; rfl
  have reached := goes_expression reads nested noOperator atNewline quiet
  exact ⟨_, Goes.turn atName (Goes.turn atAssign reached), rfl⟩

theorem runs_leave {word newline : Token} (isBreak : word.kind = .breakWord)
    (isNewline : newline.kind = .endOfLine) : Runs [word, newline] [.leave word.place] := by
  intro machine enclosing statements ready
  have atWord : machine.react word = ⟨⟨.leaving word.place, enclosing, statements⟩, [], []⟩ := by
    rw [react_of_settled ready (by rw [isBreak]; decide) (by rw [isBreak]; decide)]
    simp only [begin, isBreak, turn]
  have atNewline : react ⟨.leaving word.place, enclosing, statements⟩ newline =
      ⟨⟨.start, enclosing, .leave word.place :: statements⟩, [], []⟩ := by
    simp only [react, isNewline, ↓reduceIte, append]
  exact ⟨_, Goes.turn atWord (Goes.turn atNewline (Goes.refl _)), rfl⟩

theorem runs_loop {word : Token} {front tokens inside : List Token} {condition result : Expr}
    {body : List Stmt} (isWhile : word.kind = .whileWord)
    (reads : Reading.Reads front condition result) (nested : condition.nesting ≤ deepestNesting)
    (block : IsBlock tokens inside) (runs : Runs inside body) :
    Runs (word :: front ++ tokens) [.loop result body word.place] := by
  intro machine enclosing statements ready
  have atWord : machine.react word =
      ⟨⟨.expression (.condition word.place) .start, enclosing, statements⟩, [], []⟩ := by
    rw [react_of_settled ready (by rw [isWhile]; decide) (by rw [isWhile]; decide)]
    simp only [begin, isWhile, turn]
  have concludes (mode : Mode) (colon : Token) (isColon : colon.kind = .colon) :
      conclude ⟨mode, enclosing, statements⟩ result colon (.condition word.place) =
        ⟨⟨.lineEnd (.loop word.place result), enclosing, statements⟩, [], []⟩ := by
    simp only [conclude, isColon, ↓reduceIte, turn]
  exact ⟨_, Goes.turn atWord (goes_guarded reads nested block runs concludes), rfl⟩

mutual

/-- The tokens of a canonical statement add that statement, places aside. -/
theorem exists_runs : (stmt : Stmt) → stmt.Canonical → (tokens : List Token) →
    tokens.map Token.lexeme = stmt.lexemes →
    ∃ result : Stmt, result.agrees stmt = true ∧ Runs tokens [result]
  | .assign target value place, canonical, tokens, written => by
    obtain ⟨front, last, rfl, spelledFront, spelledLast⟩ := List.map_eq_append_iff.mp written
    obtain ⟨name, afterName, rfl, isName, spelledAssign⟩ := List.map_eq_cons_iff.mp spelledFront
    obtain ⟨assign, middle, rfl, isAssign, spelledValue⟩ := List.map_eq_cons_iff.mp spelledAssign
    obtain ⟨newline, rfl, isNewline⟩ := List.map_eq_singleton_iff.mp spelledLast
    obtain ⟨result, same, reads⟩ := Reading.exists_reads value canonical.1 middle spelledValue
    refine ⟨.assign target result name.place, ?_, runs_assign isName (Token.kind_of_lexeme isAssign)
      (Token.kind_of_lexeme isNewline) reads canonical.2⟩
    simp only [Stmt.agrees, same, decide_true, Bool.and_self]
  | .choose (.arm guard body rest) place, canonical, tokens, written => by
    obtain ⟨-, guardCanonical, bodyCanonical, restCanonical⟩ := canonical
    obtain ⟨front, back, rfl, spelledFront, spelledRest⟩ := List.map_eq_append_iff.mp written
    obtain ⟨word, middle, tokens, inside, guard', rfl, kind, sameGuard, reads, block, spelledBody⟩ :=
      exists_guarded guardCanonical.1 spelledFront
    obtain ⟨body', sameBody, runs⟩ := exists_runsAll body bodyCanonical inside spelledBody
    obtain ⟨rest', sameRest, continues⟩ := exists_continues rest restCanonical back spelledRest
    refine ⟨.choose (.arm guard' body' rest') word.place, ?_, ?_⟩
    · simp only [Stmt.agrees, Stmt.armsAgree, sameGuard, sameBody, sameRest, Bool.and_self]
    · intro machine enclosing statements ready
      have atWord : machine.react word =
          ⟨⟨.expression (.guard word.place []) .start, enclosing, statements⟩, [], []⟩ := by
        rw [react_of_settled ready (by rw [kind]; decide) (by rw [kind]; decide)]
        simp only [begin, kind, turn]
      obtain ⟨last, goes, reached⟩ := exists_goes_arm reads guardCanonical.2 block runs continues
        word.place [] enclosing statements
      exact ⟨last, Goes.turn atWord goes, reached⟩
  | .choose .done _, canonical, _, _ => by cases canonical.1
  | .choose (.otherwise _) _, canonical, _, _ => by cases canonical.1
  | .loop condition body place, canonical, tokens, written => by
    obtain ⟨word, middle, tokens, inside, condition', rfl, isWhile, sameCondition, reads, block,
      spelledBody⟩ := exists_guarded canonical.1.1 written
    obtain ⟨body', sameBody, runs⟩ := exists_runsAll body canonical.2 inside spelledBody
    refine ⟨.loop condition' body' word.place, ?_,
      runs_loop isWhile reads canonical.1.2 block runs⟩
    simp only [Stmt.agrees, sameCondition, sameBody, Bool.and_self]
  | .leave place, _, tokens, written => by
    obtain ⟨word, after, rfl, isBreak, spelledLast⟩ := List.map_eq_cons_iff.mp written
    obtain ⟨newline, rfl, isNewline⟩ := List.map_eq_singleton_iff.mp spelledLast
    exact ⟨.leave word.place, rfl,
      runs_leave (Token.kind_of_lexeme isBreak) (Token.kind_of_lexeme isNewline)⟩

theorem exists_runsAll : (body : List Stmt) → Stmt.CanonicalAll body → (tokens : List Token) →
    tokens.map Token.lexeme = Stmt.lexemesOfAll body →
    ∃ result : List Stmt, Stmt.allAgree result body = true ∧ Runs tokens result
  | [], _, tokens, written => by
    obtain rfl := List.map_eq_nil_iff.mp written
    exact ⟨[], rfl, fun machine _ _ ready => ⟨machine, Goes.refl machine, ready⟩⟩
  | first :: rest, canonical, tokens, written => by
    obtain ⟨front, back, rfl, spelledFirst, spelledRest⟩ := List.map_eq_append_iff.mp written
    obtain ⟨first', sameFirst, runsFirst⟩ := exists_runs first canonical.1 front spelledFirst
    obtain ⟨rest', sameRest, runsRest⟩ := exists_runsAll rest canonical.2 back spelledRest
    refine ⟨first' :: rest', ?_, runsFirst.append runsRest⟩
    simp only [Stmt.allAgree, sameFirst, sameRest, Bool.and_self]

theorem exists_continues : (rest : Arms Expr Stmt) → Stmt.CanonicalArms rest →
    (tokens : List Token) → tokens.map Token.lexeme = Stmt.lexemesOfArms .elifWord rest →
    ∃ result : Arms Expr Stmt, Stmt.armsAgree result rest = true ∧ Continues tokens result
  | .done, _, tokens, written => by
    obtain rfl := List.map_eq_nil_iff.mp written
    exact ⟨.done, rfl, fun place arms enclosing statements => ⟨_, Goes.refl _, rfl⟩⟩
  | .otherwise body, canonical, tokens, written => by
    obtain ⟨word, tokens, rfl, isElse, spelledBlock⟩ := List.map_eq_cons_iff.mp written
    obtain ⟨inside, block, spelledBody⟩ := exists_isBlock spelledBlock
    obtain ⟨body', sameBody, runs⟩ := exists_runsAll body canonical inside spelledBody
    refine ⟨.otherwise body', sameBody, ?_⟩
    intro place arms enclosing statements
    have kind := Token.kind_of_lexeme isElse
    have atWord : react ⟨.afterArm place arms, enclosing, statements⟩ word =
        ⟨⟨.colon (.otherwise place arms), enclosing, statements⟩, [], []⟩ := by
      simp only [react, kind, turn]
    exact ⟨_, Goes.turn atWord (goes_block block runs _ enclosing statements), rfl⟩
  | .arm guard body rest, canonical, tokens, written => by
    obtain ⟨guardCanonical, bodyCanonical, restCanonical⟩ := canonical
    obtain ⟨front, back, rfl, spelledFront, spelledRest⟩ := List.map_eq_append_iff.mp written
    obtain ⟨word, middle, tokens, inside, guard', rfl, kind, sameGuard, reads, block, spelledBody⟩ :=
      exists_guarded guardCanonical.1 spelledFront
    obtain ⟨body', sameBody, runs⟩ := exists_runsAll body bodyCanonical inside spelledBody
    obtain ⟨rest', sameRest, continues⟩ := exists_continues rest restCanonical back spelledRest
    refine ⟨.arm guard' body' rest', ?_, ?_⟩
    · simp only [Stmt.armsAgree, sameGuard, sameBody, sameRest, Bool.and_self]
    · intro place arms enclosing statements
      have atWord : react ⟨.afterArm place arms, enclosing, statements⟩ word =
          ⟨⟨.expression (.guard place arms) .start, enclosing, statements⟩, [], []⟩ := by
        simp only [react, kind, turn]
      obtain ⟨last, goes, reached⟩ := exists_goes_arm reads guardCanonical.2 block runs continues
        place arms enclosing statements
      exact ⟨last, Goes.turn atWord goes, reached⟩

end

theorem goes_end {machine : Machine} {statements : List Stmt} {last : Token}
    (ready : machine.settled = ⟨.start, [], statements⟩) (ends : last.kind = .endOfInput) :
    Goes machine [last] ⟨.start, [], statements⟩ := by
  refine Goes.turn ?_ (Goes.refl _)
  rw [react_of_settled ready (by rw [ends]; decide) (by rw [ends]; decide)]
  simp only [begin, ends, closeAll, outermost, List.getLast?_nil, List.flatMap_nil]

end Machine

namespace Parsed

theorem omits_ofToken (keep : Event → Bool) (tokens : List Token) :
    Pull.Omits keep (tokens.map Pull.ofToken) := by
  intro pull member entry found
  obtain ⟨token, -, rfl⟩ := List.mem_map.mp member
  cases found

/-- Whatever is declared at first, the tokens of a canonical program are parsed to that program, and
at most undefined variables are recorded. -/
theorem ofTokens_agrees (program : List Stmt) (canonical : Stmt.CanonicalAll program)
    (tokens : List Token)
    (written : tokens.map Token.lexeme = Stmt.lexemesOfAll program ++ [Kind.endOfInput.bare])
    (file : String) (lines : List String) (scope : Scope) :
    Stmt.allAgree (ofTokens file tokens).statements program = true ∧
      ∀ problem ∈ problems (Event.resolveAll lines scope (ofTokens file tokens).events).1,
        ∃ name similar, problem.cause = .undefinedVariable name similar := by
  obtain ⟨front, end', rfl, spelled, spelledEnd⟩ := List.map_eq_append_iff.mp written
  obtain ⟨last, rfl, isEnd⟩ := List.map_eq_singleton_iff.mp spelledEnd
  have inside : ∀ token ∈ front, token.kind ≠ .endOfInput := by
    intro token member
    rw [← token.lexeme_kind]
    exact Stmt.lexemesOfAll_ne_end program _ (spelled ▸ List.mem_map_of_mem member)
  obtain ⟨final, ends, sameStatements, sameEvents⟩ :=
    ofPulls_eq_drive file ((front ++ [last]).map Pull.ofToken)
  have unpulled : ((front ++ [last]).map Pull.ofToken).map Pull.token = front ++ [last] := by
    rw [List.map_map]
    exact List.map_id _
  rw [unpulled, before_append inside (Token.kind_of_lexeme isEnd)] at sameStatements sameEvents
  obtain ⟨result, same, runs⟩ := Machine.exists_runsAll program canonical front spelled
  obtain ⟨machine, goes, ready⟩ := runs .initial [] [] rfl
  rw [List.append_nil] at ready
  obtain ⟨reached, quiet⟩ := goes.append (Machine.goes_end ready ends)
  constructor
  · rw [ofTokens, sameStatements, reached, List.reverse_reverse]
    exact same
  · apply Event.undefined_of_quiet
    have all := sameEvents (fun _ => true) (omits_ofToken _ _)
    rw [List.filter_eq_self.mpr (fun _ _ => rfl), List.filter_eq_self.mpr (fun _ _ => rfl)] at all
    rw [ofTokens, all]
    exact quiet

/-- The program of `if a * not b + 1 == (x): y = -2` with `else: break`. -/
def guardedChoice : List Stmt :=
  let place := Location.top "sample"
  let sum := Expr.binary .add (.name "b" place) (.literal (.integer 1) place)
  let guard := Expr.binary .multiply (.name "a" place)
    (.unary .not (.binary .equal sum (.group (.name "x" place) place)) place)
  [.choose (.arm guard [.assign "y" (.unary .negate (.literal (.integer 2) place) place) place]
    (.otherwise [.leave place])) place]

def guardedChoiceTokens : List Token :=
  let place := Location.top "elsewhere"
  [⟨.ifWord, .text "if", place⟩, ⟨.name, .text "a", place⟩, ⟨.star, .text "*", place⟩,
    ⟨.notWord, .text "not", place⟩, ⟨.name, .text "b", place⟩, ⟨.plus, .text "+", place⟩,
    ⟨.integer, .integer 1, place⟩, ⟨.equal, .text "==", place⟩, ⟨.openParen, .text "(", place⟩,
    ⟨.name, .text "x", place⟩, ⟨.closeParen, .text ")", place⟩, ⟨.colon, .text ":", place⟩,
    ⟨.endOfLine, .none, place⟩, ⟨.indent, .none, place⟩, ⟨.name, .text "y", place⟩,
    ⟨.assign, .text "=", place⟩, ⟨.minus, .text "-", place⟩, ⟨.integer, .integer 2, place⟩,
    ⟨.endOfLine, .none, place⟩, ⟨.dedent, .none, place⟩, ⟨.elseWord, .text "else", place⟩,
    ⟨.colon, .text ":", place⟩, ⟨.endOfLine, .none, place⟩, ⟨.indent, .none, place⟩,
    ⟨.breakWord, .text "break", place⟩, ⟨.endOfLine, .none, place⟩, ⟨.dedent, .none, place⟩,
    ⟨.endOfInput, .none, place⟩]

theorem ofTokens_agrees_guardedChoice :
    Stmt.CanonicalAll guardedChoice ∧
      guardedChoiceTokens.map Token.lexeme =
        Stmt.lexemesOfAll guardedChoice ++ [Kind.endOfInput.bare] ∧
      Stmt.allAgree (ofTokens "elsewhere" guardedChoiceTokens).statements guardedChoice = true ∧
      ∀ problem ∈ problems
          (Event.resolveAll [] .empty (ofTokens "elsewhere" guardedChoiceTokens).events).1,
        ∃ name similar, problem.cause = .undefinedVariable name similar := by
  have canonical : Stmt.CanonicalAll guardedChoice := by
    simp only [guardedChoice, Stmt.CanonicalAll, Stmt.Canonical, Stmt.CanonicalArms]
    decide
  exact ⟨canonical, rfl,
    ofTokens_agrees guardedChoice canonical guardedChoiceTokens rfl "elsewhere" [] .empty⟩

end Parsed

end Offside
