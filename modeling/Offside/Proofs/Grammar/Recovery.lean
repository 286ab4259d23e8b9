import Offside.Proofs.Grammar.Orderly

/-!
Faults do not break the blocks of scanned tokens. A fault is found within a line, or at the first token
of a line where a block should have been opened; skipping ends with the line at the latest, and so
never meets an indent or a dedent. The blocks that the machine is in are therefore those that the
tokens opened and did not close, whatever is wrong between them.
-/

namespace Offside

/-- Tokens of one line: none opens or closes a block, and only the last may be the end of the line. -/
structure Token.OnOneLine (tokens : List Token) : Prop where
  inside : ∀ token ∈ tokens, token.kind ≠ .indent ∧ token.kind ≠ .dedent
  ending : ∀ token ∈ tokens.dropLast, token.kind ≠ .endOfLine
  number : ∃ number, ∀ token ∈ tokens, token.place.line = number

namespace Token

theorem onOneLine_nil : OnOneLine [] where
  inside := List.forall_mem_nil _
  ending := List.forall_mem_nil _
  number := ⟨1, List.forall_mem_nil _⟩

theorem OnOneLine.of_isInfix {line tokens : List Token} (whole : OnOneLine line)
    (part : tokens <:+: line) : OnOneLine tokens := by
  obtain ⟨inside, ending, number, placed⟩ := whole
  refine ⟨fun token found => inside token (part.subset found), ?_,
    number, fun token found => placed token (part.subset found)⟩
  intro token found
  obtain ⟨before, behind, rfl⟩ := part
  rcases List.eq_nil_or_concat tokens with rfl | ⟨front, last, rfl⟩
  · cases found
  · rw [List.concat_eq_append, List.dropLast_concat] at found
    have apart : before ++ (front ++ [last]) ++ behind = before ++ front ++ ([last] ++ behind) := by
      simp only [List.append_assoc]
    apply ending
    rw [List.concat_eq_append, apart, List.dropLast_append_of_ne_nil (by simp)]
    simp [found]

theorem OnOneLine.surplus_eq_zero {tokens : List Token} (line : OnOneLine tokens) :
    Kind.surplus (tokens.map Token.kind) = 0 := by
  have noIndent : (tokens.map Token.kind).count .indent = 0 := by
    rw [List.count_eq_zero]
    intro found
    obtain ⟨token, member, kind⟩ := List.mem_map.mp found
    exact (line.inside token member).1 kind
  have noDedent : (tokens.map Token.kind).count .dedent = 0 := by
    rw [List.count_eq_zero]
    intro found
    obtain ⟨token, member, kind⟩ := List.mem_map.mp found
    exact (line.inside token member).2 kind
  unfold Kind.surplus
  omega

theorem onOneLine_concat {body : List Token} {last : Token} {number : Int}
    (plain : ∀ token ∈ body, token.kind.isStructural = false) (ends : last.kind = .endOfLine)
    (placed : ∀ token ∈ body ++ [last], token.place.line = number) : OnOneLine (body ++ [last]) where
  inside := by
    intro token found
    rcases List.mem_append.mp found with found | found
    · have lexeme := plain token found
      constructor <;> intro kind <;> rw [kind] at lexeme <;> cases lexeme
    · rw [List.mem_singleton.mp found, ends]
      decide
  ending := by
    rw [List.dropLast_concat]
    intro token found kind
    have lexeme := plain token found
    rw [kind] at lexeme
    cases lexeme
  number := ⟨number, placed⟩

end Token

namespace Machine

/-- A run that keeps the blocks: after each token the machine is in the blocks that were opened and not
closed, no fault is one of blocks, and what is skipped are tokens that stand together on a line. -/
structure Keeps (machine : Machine) (tokens : List Token) : Prop where
  depth : ∀ early late, tokens = early ++ late →
    ((machine.drive early).1.enclosing.length : Int) =
      machine.enclosing.length + Kind.surplus (early.map Token.kind)
  events : ∀ event ∈ (machine.drive tokens).2,
    event.IsOrderly fun skipped => Token.OnOneLine skipped ∧ skipped <:+: tokens

theorem Keeps.nil (machine : Machine) : Keeps machine [] where
  depth := by
    intro early late split
    rw [(List.append_eq_nil_iff.mp split.symm).1]
    exact (Int.add_zero _).symm
  events := List.forall_mem_nil _

theorem Keeps.append {machine : Machine} {front back : List Token} (first : Keeps machine front)
    (second : Keeps (machine.drive front).1 back) : Keeps machine (front ++ back) where
  depth := by
    intro early late split
    rcases List.append_eq_append_iff.mp split with ⟨more, rfl, _⟩ | ⟨rest, same, _⟩
    · have middle := first.depth front [] (List.append_nil _).symm
      have reached := second.depth more late (by simpa using split)
      rw [drive_append, List.map_append, Kind.surplus_append, reached, middle]
      omega
    · exact first.depth early rest same
  events := by
    intro event found
    rw [drive_append] at found
    rcases List.mem_append.mp found with early | late
    · refine (first.events event early).mono fun skipped holds => ⟨holds.1, ?_⟩
      exact holds.2.trans (List.prefix_append front back).isInfix
    · refine (second.events event late).mono fun skipped holds => ⟨holds.1, ?_⟩
      exact holds.2.trans (List.suffix_append front back).isInfix

theorem AtMargin.keeps {machine : Machine} {token : Token}
    (margin : AtMargin machine token (machine.react token)) : Keeps machine [token] where
  depth := by
    intro early late split
    cases early with
    | nil => exact (Int.add_zero _).symm
    | cons first rest =>
      rw [List.cons_append, List.cons.injEq] at split
      obtain ⟨rfl, empty⟩ := split
      rw [(List.append_eq_nil_iff.mp empty.symm).1]
      exact margin.depth
  events := by
    intro event found
    simp only [drive, List.append_nil] at found
    refine (margin.events event found).mono ?_
    rintro skipped rfl
    exact ⟨Token.onOneLine_nil, List.nil_infix⟩

/-- The tokens of a line, `read` being those before them, leave the blocks as they are. The induction is
on the lexemes; what is skipped at the end of the line may have been read since its start. -/
theorem drive_line {machine : Machine} {read body : List Token} {last : Token}
    (mode : machine.mode.InLine read) (plain : ∀ token ∈ body, token.kind.isStructural = false)
    (ends : last.kind = .endOfLine) :
    (∀ early late, body ++ [last] = early ++ late →
      (machine.drive early).1.enclosing = machine.enclosing) ∧
    (machine.drive (body ++ [last])).1.mode.isFresh = true ∧
    ∀ event ∈ (machine.drive (body ++ [last])).2, event.IsOrderly (· <:+: read ++ (body ++ [last])) := by
  induction body generalizing machine read with
  | nil =>
    have reacts : (machine.react last).Within machine.enclosing (read ++ [last]) :=
      within_react (by rw [ends]; rfl) mode
    refine ⟨?_, isFresh_of_endOfLine ends mode, by simpa [drive] using reacts.events⟩
    intro early late split
    cases early with
    | nil => rfl
    | cons first rest =>
      rw [List.nil_append, List.cons_append, List.cons.injEq] at split
      obtain ⟨rfl, empty⟩ := split
      rw [(List.append_eq_nil_iff.mp empty.symm).1]
      exact reacts.enclosing
  | cons token rest ih =>
    rw [List.forall_mem_cons] at plain
    have reacts : (machine.react token).Within machine.enclosing (read ++ [token]) :=
      within_react (Kind.isInLine_of_plain plain.1) mode
    obtain ⟨blocks, fresh, events⟩ := ih reacts.mode plain.2
    rw [List.append_assoc, List.singleton_append] at events
    refine ⟨?_, fresh, ?_⟩
    · intro early late split
      cases early with
      | nil => rfl
      | cons first others =>
        rw [List.cons_append, List.cons_append, List.cons.injEq] at split
        obtain ⟨rfl, later⟩ := split
        exact (blocks others late later).trans reacts.enclosing
    · intro event found
      simp only [List.cons_append, drive] at found
      rcases List.mem_append.mp found with now | later
      · refine (reacts.events event now).mono fun skipped part => part.trans ?_
        exact ⟨[], rest ++ [last], by simp⟩
      · exact events event later

theorem keeps_line {machine : Machine} {body : List Token} {last : Token}
    (fresh : machine.mode.isFresh = true) (plain : ∀ token ∈ body, token.kind.isStructural = false)
    (ends : last.kind = .endOfLine) (line : Token.OnOneLine (body ++ [last])) :
    Keeps machine (body ++ [last]) ∧ (machine.drive (body ++ [last])).1.mode.isFresh = true := by
  obtain ⟨blocks, still, events⟩ := drive_line (Mode.inLine_of_isFresh fresh []) plain ends
  refine ⟨⟨?_, ?_⟩, still⟩
  · intro early late split
    have part : early <:+: body ++ [last] := by
      rw [split]
      exact (List.prefix_append early late).isInfix
    rw [blocks early late split, (line.of_isInfix part).surplus_eq_zero, Int.add_zero]
  · intro event found
    refine (events event found).mono fun skipped part => ?_
    rw [List.nil_append] at part
    exact ⟨line.of_isInfix part, part⟩

theorem keeps_dedents {machine : Machine} {tokens : List Token} (fresh : machine.mode.isFresh = true)
    (closing : ∀ token ∈ tokens, token.kind = .dedent)
    (enough : tokens.length ≤ machine.enclosing.length) :
    Keeps machine tokens ∧ (machine.drive tokens).1.mode.isFresh = true := by
  induction tokens generalizing machine with
  | nil => exact ⟨Keeps.nil machine, fresh⟩
  | cons token rest ih =>
    rw [List.forall_mem_cons] at closing
    rw [List.length_cons] at enough
    have inside : machine.enclosing ≠ [] := by
      intro outside
      rw [outside] at enough
      simp at enough
    have margin := atMargin_dedent fresh closing.1 inside
    have depth : ((machine.react token).machine.enclosing.length : Int) =
        machine.enclosing.length + -1 := by
      have reached := margin.depth
      rwa [closing.1] at reached
    obtain ⟨keeps, still⟩ := ih margin.fresh closing.2 (by omega)
    exact ⟨margin.keeps.append keeps, still⟩

theorem keeps_margin {machine : Machine} {levels : Levels} (fresh : machine.mode.isFresh = true)
    (deep : machine.enclosing.length = levels.length) (place : Location) (width : Nat) :
    Keeps machine (Scanner.marginTokens place levels width) ∧
      (machine.drive (Scanner.marginTokens place levels width)).1.mode.isFresh = true := by
  unfold Scanner.marginTokens
  split
  · have margin := atMargin_indent fresh (rfl : (⟨.indent, .none, place⟩ : Token).kind = .indent)
    exact ⟨margin.keeps, margin.fresh⟩
  · apply keeps_dedents fresh
    · intro token found
      obtain ⟨_, _, rfl⟩ := List.mem_map.mp found
      rfl
    · rw [List.length_map, deep]
      exact (List.takeWhile_sublist _).length_le

end Machine

namespace Scanner

theorem line_bodyPulls (file : String) (line : Line) (levels : Levels) (column : Nat)
    (waiting : List Entry) (segments : List Segment) :
    ∀ pull ∈ bodyPulls file line levels column waiting segments,
      pull.token.place.line = line.number := by
  induction segments generalizing column waiting with
  | nil =>
    intro pull member
    rw [List.mem_singleton.mp member]
    rfl
  | cons segment rest ih =>
    rw [bodyPulls_segment]
    split
    · rw [List.forall_mem_cons]
      exact ⟨rfl, ih _ _⟩
    · exact ih _ _

theorem exists_onOneLine_linePulls (file : String) (levels : Levels) {line : Line}
    (busy : line.isIdle = false) :
    ∃ body last, (linePulls file levels line).map Pull.token =
        marginTokens (placeIn file line (line.column + line.width)) levels line.width ++
          (body ++ [last]) ∧
      last.kind = .endOfLine ∧ (∀ token ∈ body, token.kind.isStructural = false) ∧
      Token.OnOneLine (body ++ [last]) := by
  obtain ⟨body, last, tokens, ends, plain, _⟩ := exists_tokens_linePulls file levels busy
  refine ⟨body, last, tokens, ends, plain, ?_⟩
  have same : (bodyPulls file line (levels.after line.width) line.afterMargin.column []
      (Segment.all line.afterMargin.content)).map Pull.token = body ++ [last] := by
    rw [linePulls, List.map_append, marginPulls, tokens_handOut] at tokens
    exact List.append_cancel_left tokens
  apply Token.onOneLine_concat plain ends
  intro token found
  rw [← same] at found
  obtain ⟨pull, member, rfl⟩ := List.mem_map.mp found
  exact line_bodyPulls _ _ _ _ _ _ pull member

theorem keeps_runLines {scanner : Scanner} {levels : Levels} {lines : List Line}
    (done : (runLines scanner levels lines).ending = .finished) {machine : Machine}
    (fresh : machine.mode.isFresh = true) (deep : machine.enclosing.length = levels.length) :
    machine.Keeps (runLines scanner levels lines).tokens := by
  fun_induction runLines scanner levels lines generalizing machine with
  | case1 levels =>
    obtain ⟨closing, last, tokens, length, dedents, ends⟩ :=
      exists_tokens_finalPulls scanner.final levels
    change Machine.Keeps machine ((finalPulls scanner.final levels).map Pull.token)
    obtain ⟨keeps, still⟩ := Machine.keeps_dedents fresh dedents (by omega)
    have outside : (machine.drive closing).1.enclosing = [] := by
      have depth := keeps.depth closing [] (List.append_nil _).symm
      rw [List.map_congr_left dedents, List.map_const', Kind.surplus_replicate_dedent] at depth
      exact List.length_eq_zero_iff.mp (by omega)
    rw [tokens]
    exact keeps.append (Machine.atMargin_end still ends outside).keeps
  | case2 levels line rest idle ih => exact ih done fresh deep
  | case3 levels line rest busy deep problem => cases done
  | case4 levels line rest busy fits later ih =>
    rw [Bool.not_eq_true] at busy
    obtain ⟨body, last, tokens, ends, plain, oneLine⟩ :=
      exists_onOneLine_linePulls scanner.file levels busy
    obtain ⟨keepsMargin, freshMargin⟩ := Machine.keeps_margin fresh deep
      (placeIn scanner.file line (line.column + line.width)) line.width
    obtain ⟨keepsLine, freshLine⟩ := Machine.keeps_line freshMargin plain ends oneLine
    have keeps := keepsMargin.append keepsLine
    have depth := keeps.depth _ [] (List.append_nil _).symm
    have level := surplus_linePulls scanner.file levels busy
    rw [← tokens, ← Pull.kinds_eq_map, deep, level] at depth
    have freshNext : (machine.drive ((linePulls scanner.file levels line).map Pull.token)).1.mode.isFresh =
        true := by
      rw [tokens, Machine.drive_append]
      exact freshLine
    rw [← tokens] at keeps
    have whole := keeps.append (ih done freshNext (Int.ofNat.inj depth))
    change Machine.Keeps machine ((linePulls scanner.file levels line ++ later.pulls).map Pull.token)
    rw [List.map_append]
    exact whole

end Scanner

/-- Whatever is wrong with a source, its blocks are kept. While its tokens are parsed, the machine is in
as many blocks as were opened and not closed; no fault is that of a dedent without a block, or of a block
without its end; and each time tokens are skipped, they stand together on one line. -/
theorem recovery_keeps_blocks {file : String} {limit : Int} {source : String}
    (done : (Scanner.ofSource file limit source).run.ending = .finished) (scope : Scope) :
    let scan := (Scanner.ofSource file limit source).run
    (∀ early late, scan.pulls = early ++ late →
      ((Parse.initial.run early).1.machine.enclosing.length : Int) =
        (Pull.kinds early).count .indent - (Pull.kinds early).count .dedent) ∧
    (∀ problem ∈ problems (Parsing.ofSource file limit scope source).journal,
      problem.cause.hint ≠ some "expected end of block" ∧
        ∀ found, problem.cause ≠ .unexpectedToken found none) ∧
    ∀ skipped, .recovered skipped ∈ (Parsed.ofPulls file scan.pulls).events →
      Token.OnOneLine skipped ∧ skipped <:+: scan.tokens := by
  intro scan
  have keeps : Machine.initial.Keeps scan.tokens := Scanner.keeps_runLines done rfl rfl
  have orderly : ∀ event ∈ (Parsed.ofPulls file scan.pulls).events,
      event.IsOrderly fun skipped => Token.OnOneLine skipped ∧ skipped <:+: scan.tokens := by
    obtain ⟨inner, last, tokens, ends, inside, _⟩ := Scanner.exists_tokens_run done
    rw [Parsed.ofPulls_eq_run file tokens inside ends]
    intro event found
    cases event with
    | noted entry => trivial
    | _ => exact keeps.events _ (Parse.mem_drive_of_isSpoken found rfl)
  refine ⟨?_, ?_, fun skipped member => orderly _ member⟩
  · intro early late split
    have depth := keeps.depth (early.map Pull.token) (late.map Pull.token)
      (by rw [Scan.tokens, split, List.map_append])
    rw [Parse.run_machine, Pull.kinds_eq_map]
    exact depth.trans (Int.zero_add _)
  · intro problem recorded
    rw [Parsing.ofSource_of_finished done] at recorded
    dsimp only at recorded
    obtain ⟨event, member, reached, found⟩ := Event.exists_event_of_problem recorded
    exact Event.sparesBlocks_of_recorded (Parsed.staged_events done file event member)
      (orderly event member) found

/-- A source with a body that is missing, a stray block, a line without a lexeme, a dedent to no open
block and an `else` without its colon. -/
def garbledSource : String := "if x:\n$\n    y = (1 2\n  z 3\nelse\n"

theorem recovery_keeps_blocks_garbled :
    let scan := (Scanner.ofSource "garbled" 100 garbledSource).run
    let journal := (Parsing.ofSource "garbled" 100 .empty garbledSource).journal
    scan.ending = .finished ∧ (problems journal).length = 8 ∧
      (∀ problem ∈ problems journal, problem.cause.hint ≠ some "expected end of block") ∧
      ∀ skipped, .recovered skipped ∈ (Parsed.ofPulls "garbled" scan.pulls).events →
        Token.OnOneLine skipped := by
  have done : (Scanner.ofSource "garbled" 100 garbledSource).run.ending = .finished := by
    decide +kernel
  have faults : (problems (Parsing.ofSource "garbled" 100 .empty garbledSource).journal).length = 8 := by
    decide +kernel
  obtain ⟨_, spared, skips⟩ := recovery_keeps_blocks done .empty
  exact ⟨done, faults, fun problem recorded => (spared problem recorded).1,
    fun skipped member => (skips skipped member).1⟩

end Offside
