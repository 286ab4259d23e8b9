import Offside.Proofs.Grammar.Framing
import Offside.Proofs.Grammar.Locality
import Offside.Proofs.Scanner.Seam

/-!
Parsing a program in two pieces. Where a first piece is parsed without a fault, its blocks may be closed
by the end of the input or by the dedents before what follows: the machine comes to the same statements,
and reads the rest as if it had read nothing before.
-/

namespace Offside

namespace Event

/-- Events that come to the same: whatever is declared before, they record the same faults and declare the
same variables. -/
def Alike (events others : List Event) : Prop :=
  ∀ lines scope,
    problems (resolveAll lines scope events).1 = problems (resolveAll lines scope others).1 ∧
      (resolveAll lines scope events).2 = (resolveAll lines scope others).2

namespace Alike

theorem refl (events : List Event) : Alike events events := fun _ _ => ⟨rfl, rfl⟩

theorem symm {events others : List Event} (alike : Alike events others) : Alike others events :=
  fun lines scope => ⟨(alike lines scope).1.symm, (alike lines scope).2.symm⟩

theorem trans {first second third : List Event} (alike : Alike first second)
    (other : Alike second third) : Alike first third :=
  fun lines scope => ⟨(alike lines scope).1.trans (other lines scope).1,
    (alike lines scope).2.trans (other lines scope).2⟩

theorem append {front front' back back' : List Event} (first : Alike front front')
    (second : Alike back back') : Alike (front ++ back) (front' ++ back') := by
  intro lines scope
  obtain ⟨faults, reached⟩ := first lines scope
  obtain ⟨others, final⟩ := second lines (resolveAll lines scope front').2
  rw [resolveAll_append, resolveAll_append, problems_append, problems_append, faults, reached, others,
    final]
  exact ⟨rfl, rfl⟩

end Alike

theorem alike_noted {journal : List Entry} (silent : problems journal = []) :
    Alike (journal.map noted) [] := by
  intro lines scope
  rw [resolveAll_noted, silent]
  exact ⟨rfl, rfl⟩

/-- Assignments record no fault, so it does not matter what is noted before or after them. -/
theorem alike_swap (journal : List Entry) {events : List Event}
    (assignments : ∀ event ∈ events, ∃ target, event = assigned target) :
    Alike (journal.map noted ++ events) (events ++ journal.map noted) := by
  have silent (lines : List String) (scope : Scope) :
      problems (resolveAll lines scope events).1 = [] := by
    induction events generalizing scope with
    | nil => rfl
    | cons event rest ih =>
      rw [List.forall_mem_cons] at assignments
      obtain ⟨⟨target, rfl⟩, later⟩ := assignments
      rw [resolveAll, problems_append, ih later, List.append_nil]
      simp only [resolve]
      split <;> rfl
  intro lines scope
  simp only [resolveAll_append, resolveAll_noted, problems_append, silent, List.append_nil,
    List.nil_append, and_self]

end Event

namespace Machine

theorem exists_react_dedent {machine : Machine} {token : Token} (valid : machine.Valid)
    (isDedent : token.kind = .dedent)
    (clean : Clean ((machine.react token).now ++ (machine.react token).later)) :
    ∃ next, ∀ other : Token, other.kind = .dedent → machine.react other = ⟨next, [], []⟩ := by
  have started {enclosing : List Enclosing} {statements : List Stmt}
      (clean : Clean ((begin ⟨.start, enclosing, statements⟩ token).now ++
        (begin ⟨.start, enclosing, statements⟩ token).later)) :
      ∃ next, ∀ other : Token, other.kind = .dedent →
        begin ⟨.start, enclosing, statements⟩ other = ⟨next, [], []⟩ := by
    cases enclosing with
    | nil =>
      simp only [begin, isDedent, closeBlock] at clean
      exact absurd clean (not_clean_unexpected (List.mem_singleton_self _))
    | cons block outer =>
      exact ⟨_, fun other isDedent => by simp only [begin, isDedent, closeBlock]; rfl⟩
  obtain ⟨mode, enclosing, statements⟩ := machine
  cases mode with
  | start => exact started clean
  | afterArm place arms =>
    simp only [react, isDedent] at clean
    obtain ⟨next, closes⟩ := started clean
    exact ⟨next, fun other isDedent => by simp only [react, isDedent]; exact closes other isDedent⟩
  | expression goal reading =>
    have structural : token.kind.isStructural = true := by rw [isDedent]; rfl
    rcases reading.feed_of_structural structural with ⟨expr, fed⟩ | ⟨expected, fed⟩
    · simp only [react, readExpression, fed] at clean
      cases goal <;> simp only [conclude, isDedent, reduceCtorEq, ↓reduceIte] at clean <;>
        exact absurd clean.left (not_clean_refuse _ token _)
    · simp only [react, readExpression, fed] at clean
      exact absurd clean.left (not_clean_refuse _ token _)
  | skipping depth skipped => exact valid.mode.elim
  | _ =>
    simp only [react, isDedent, reduceCtorEq, ↓reduceIte] at clean
    exact absurd clean.left (not_clean_refuse _ token _)

theorem assigned_of_endOfLine {machine : Machine} {token : Token} (valid : machine.Valid)
    (isLineEnd : token.kind = .endOfLine)
    (clean : Clean ((machine.react token).now ++ (machine.react token).later)) :
    ∀ event ∈ (machine.react token).later, ∃ target, event = .assigned target := by
  obtain ⟨mode, enclosing, statements⟩ := machine
  cases mode with
  | expression goal reading =>
    have structural : token.kind.isStructural = true := by rw [isLineEnd]; rfl
    rcases reading.feed_of_structural structural with ⟨expr, fed⟩ | ⟨expected, fed⟩
    · simp only [react, readExpression, fed] at clean ⊢
      cases goal with
      | value target =>
        simp only [conclude, isLineEnd, ↓reduceIte]
        exact fun event found => ⟨target, List.mem_singleton.mp found⟩
      | guard | condition =>
        simp only [conclude, isLineEnd, reduceCtorEq, ↓reduceIte] at clean
        exact absurd clean.left (not_clean_refuse _ token _)
    · simp only [react, readExpression, fed] at clean
      exact absurd clean.left (not_clean_refuse _ token _)
  | skipping depth skipped => exact valid.mode.elim
  | start | afterArm =>
    simp only [react, isLineEnd, begin, turn]
    exact List.forall_mem_nil _
  | lineEnd | leaving =>
    simp only [react, isLineEnd, ↓reduceIte, turn]
    exact List.forall_mem_nil _
  | _ =>
    simp only [react, isLineEnd, reduceCtorEq, ↓reduceIte] at clean
    exact absurd clean.left (not_clean_refuse _ token _)

theorem exists_settled_of_end {machine : Machine} {token : Token} (valid : machine.Valid)
    (ends : token.kind = .endOfInput) (clean : Clean (machine.react token).now) :
    ∃ base, machine.settled = ⟨.start, [], base⟩ ∧
      machine.react token = ⟨⟨.start, [], base⟩, [], []⟩ := by
  obtain ⟨base, ready⟩ : ∃ base, machine.settled = ⟨.start, [], base⟩ := by
    rcases react_end_cases valid ends clean with ⟨statements, rfl⟩ | ⟨place, arms, statements, rfl⟩
    · exact ⟨statements, rfl⟩
    · exact ⟨_, rfl⟩
  refine ⟨base, ready, ?_⟩
  rw [react_of_settled ready (by rw [ends]; decide) (by rw [ends]; decide), begin_end base ends]

end Machine

namespace Parse

theorem run_append (parse : Parse) (front back : List Pull) :
    parse.run (front ++ back) = (((parse.run front).1.run back).1,
      (parse.run front).2 ++ ((parse.run front).1.run back).2) := by
  induction front generalizing parse with
  | nil => rfl
  | cons pull rest ih => simp only [List.cons_append, run, ih, List.append_assoc]

/-- Dedents after which nothing is wrong: others in their place come to the same, and tell no more than
what was left to be told. -/
theorem run_closes (parse : Parse) (valid : parse.machine.Valid) {blocks : Nat} {tokens : List Token}
    (dedents : tokens.map Token.kind = List.replicate blocks .dedent)
    (clean : Machine.Clean (parse.machine.drive tokens).2) {pulls : List Pull}
    (closes : Scanner.Closes blocks pulls) :
    (parse.run pulls).1.machine = (parse.machine.drive tokens).1 ∧
      Event.Alike ((parse.run pulls).2 ++ (parse.run pulls).1.deferred) parse.deferred ∧
      ∀ event ∈ (parse.run pulls).1.deferred, event ∈ parse.deferred := by
  induction tokens generalizing parse blocks pulls with
  | nil =>
    have none : blocks = 0 := by simpa using (congrArg List.length dedents).symm
    have empty : pulls = [] := by simpa [none] using closes.kinds
    rw [empty]
    exact ⟨rfl, .refl _, fun _ found => found⟩
  | cons token rest ih =>
    obtain ⟨kinds, silent⟩ := closes
    cases blocks with
    | zero => cases dedents
    | succ blocks =>
      rw [List.replicate_succ] at kinds
      obtain ⟨pull, later, rfl, isDedent, kinds⟩ := List.map_eq_cons_iff.mp kinds
      rw [List.map_cons, List.replicate_succ, List.cons.injEq] at dedents
      rw [List.forall_mem_cons] at silent
      have accounts := Machine.accounts_react valid (by rw [dedents.1]; decide) clean.left
      obtain ⟨next, reacts⟩ := Machine.exists_react_dedent valid dedents.1 clean.left
      have same : (parse.machine.react pull.token).machine = (parse.machine.react token).machine := by
        rw [reacts _ isDedent, reacts _ dedents.1]
      have quiet : (parse.machine.react pull.token).now = [] ∧
          (parse.machine.react pull.token).later = [] := by
        rw [reacts _ isDedent]
        exact ⟨rfl, rfl⟩
      have stepped : parse.step pull.token = (⟨(parse.machine.react token).machine, []⟩,
          parse.deferred) := by
        simp only [step, same, quiet, List.append_nil]
      obtain ⟨reached, alike, deferred⟩ := ih ⟨(parse.machine.react token).machine, []⟩
        accounts.valid dedents.2 clean.right ⟨kinds, silent.2⟩
      simp only [run, stepped, List.append_assoc]
      refine ⟨reached, ?_, fun event found => absurd (deferred event found) List.not_mem_nil⟩
      have told := (Event.alike_noted silent.1).append ((Event.Alike.refl parse.deferred).append alike)
      rwa [List.nil_append, List.append_nil] at told

theorem run_deferred (parse : Parse) (pull : Pull) (rest : List Pull) :
    ∃ told, (run ⟨parse.machine, []⟩ (pull :: rest)).2 = pull.journal.map .noted ++ told ∧
      parse.run (pull :: rest) = ((run ⟨parse.machine, []⟩ (pull :: rest)).1,
        pull.journal.map .noted ++ parse.deferred ++ told) := by
  refine ⟨_, List.append_assoc _ _ _, ?_⟩
  simp only [run, step, List.nil_append, List.append_assoc]

/-- The pulled tokens of a first piece up to its last line end, and those that close its blocks: at the end
of the input, and before another piece. -/
structure Joins (front closing seam : List Pull) (last : Pull) : Prop where
  ends : front = [] ∨ ∃ early line, front = early ++ [line] ∧ line.token.kind = .endOfLine
  closes : ∃ blocks, Scanner.Closes blocks closing ∧ Scanner.Closes blocks seam
  last : last.token.kind = .endOfInput ∧ last.journal = []
  inside : ∀ pull ∈ front, pull.token.kind ≠ .endOfInput

theorem run_settled {machine : Machine} {base : List Stmt} (ready : machine.settled = ⟨.start, [], base⟩)
    {pull : Pull} (noElif : pull.token.kind ≠ .elifWord) (noElse : pull.token.kind ≠ .elseWord)
    (rest : List Pull) :
    run ⟨machine, []⟩ (pull :: rest) =
      ((initial.run (pull :: rest)).1.onto base, (initial.run (pull :: rest)).2) := by
  have same : machine.react pull.token = (Machine.initial.onto base).react pull.token :=
    Machine.react_of_settled ready noElif noElse
  rw [← onto_run]
  simp only [run, step, same]
  rfl

theorem valid_run {pulls : List Pull} (inside : ∀ pull ∈ pulls, pull.token.kind ≠ .endOfInput)
    (clean : Machine.Clean (Machine.initial.drive (pulls.map Pull.token)).2) :
    (initial.run pulls).1.machine.Valid := by
  rw [run_machine]
  exact (Machine.drive_lexemes Machine.valid_initial (by simpa using inside) clean).1

theorem assigned_run {pulls : List Pull} (inside : ∀ pull ∈ pulls, pull.token.kind ≠ .endOfInput)
    (ends : pulls = [] ∨ ∃ early line, pulls = early ++ [line] ∧ line.token.kind = .endOfLine)
    (clean : Machine.Clean (Machine.initial.drive (pulls.map Pull.token)).2) :
    ∀ event ∈ (initial.run pulls).1.deferred, ∃ target, event = .assigned target := by
  rcases ends with rfl | ⟨early, line, rfl, isLineEnd⟩
  · exact List.forall_mem_nil _
  · rw [List.forall_mem_append] at inside
    rw [List.map_append, Machine.drive_append] at clean
    have reached : (initial.run early).1.machine = (Machine.initial.drive (early.map Pull.token)).1 :=
      run_machine initial early
    have reacts := clean.right
    rw [← reached] at reacts
    rw [run_concat]
    exact Machine.assigned_of_endOfLine (valid_run inside.1 clean.left) isLineEnd reacts.left

/-- Two pieces of a program parsed as one. The second piece is read onto the statements of the first one,
and what is told comes to the same as what is told of the pieces one after the other. -/
theorem run_joined {front closing seam : List Pull} {last : Pull}
    (joins : Joins front closing seam last)
    (clean : Machine.Clean (Machine.initial.drive ((front ++ (closing ++ [last])).map Pull.token)).2)
    (next : Pull) (noElif : next.token.kind ≠ .elifWord) (noElse : next.token.kind ≠ .elseWord)
    (rest : List Pull) :
    let alone := initial.run (front ++ (closing ++ [last]))
    let joint := initial.run (front ++ (seam ++ next :: rest))
    joint.1 = (initial.run (next :: rest)).1.onto alone.1.machine.statements ∧
      Event.Alike joint.2 (alone.2 ++ (initial.run (next :: rest)).2) := by
  obtain ⟨blocks, closed, sewn⟩ := joins.closes
  simp only [List.map_append, Machine.drive_append] at clean
  have valid := valid_run joins.inside clean.left
  have assigned := assigned_run joins.inside joins.ends clean.left
  have reached : (initial.run front).1.machine = (Machine.initial.drive (front.map Pull.token)).1 :=
    run_machine initial front
  have later := clean.right
  rw [← reached] at later
  simp only [run_append]
  generalize initial.run front = begun at valid assigned later ⊢
  have dedents : (closing.map Pull.token).map Token.kind = List.replicate blocks .dedent := by
    rw [List.map_map]
    exact closed.kinds
  obtain ⟨same, alike, -⟩ := run_closes begun.1 valid dedents later.left closed
  obtain ⟨same', alike', kept⟩ := run_closes begun.1 valid dedents later.left sewn
  have notEnd : ∀ token ∈ closing.map Pull.token, token.kind ≠ .endOfInput := by
    intro token member
    obtain ⟨pull, found, rfl⟩ := List.mem_map.mp member
    rw [closed.isDedent found]
    decide
  have valid' := (Machine.drive_lexemes valid notEnd later.left).1
  obtain ⟨base, ready, atEnd⟩ :=
    Machine.exists_settled_of_end valid' joins.last.1 later.right.left.left
  have ended : (begun.1.run closing).1.run [last] =
      (⟨⟨.start, [], base⟩, []⟩, (begun.1.run closing).1.deferred) := by
    simp only [run, step, same, atEnd, joins.last.2, List.map_nil, List.nil_append, List.append_nil]
  obtain ⟨told, alone, joint⟩ := run_deferred (begun.1.run seam).1 next rest
  rw [same', run_settled ready noElif noElse] at alone joint
  rw [ended, joint]
  refine ⟨rfl, ?_⟩
  -- What is left from the first piece can be told before what is noted with the second one.
  have swapped := (Event.alike_swap next.journal fun event found => assigned event (kept event found)).append
    (.refl told)
  have first := alike'.trans alike.symm
  dsimp only at alone ⊢
  rw [alone]
  have parts := (Event.Alike.refl begun.2).append ((Event.Alike.refl (begun.1.run seam).2).append swapped)
  have whole := (Event.Alike.refl begun.2).append (first.append (.refl (next.journal.map .noted ++ told)))
  simp only [List.append_assoc] at parts whole ⊢
  exact parts.trans whole

end Parse

end Offside
