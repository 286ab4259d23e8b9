import Offside.Proofs.Scanner.Layout

/-!
The blocks that a scan opens and closes. After each token the widths of the open blocks increase from
the base, they are as many as the limit allows, and the tokens handed out account for them. A scanner
that stopped at a line too deep is in such a state too, and running it on to the end closes every
block that it opened.
-/

namespace Offside

def Kind.surplus (kinds : List Kind) : Int := kinds.count .indent - kinds.count .dedent

structure Kind.IsBalanced (kinds : List Kind) : Prop where
  opened : ∀ early late, kinds = early ++ late → early.count .dedent ≤ early.count .indent
  closed : kinds.count .indent = kinds.count .dedent

namespace Kind

@[simp]
theorem surplus_nil : surplus [] = 0 := rfl

@[simp]
theorem surplus_append (early late : List Kind) : surplus (early ++ late) = surplus early + surplus late := by
  simp only [surplus, List.count_append]
  omega

theorem surplus_cons (kind : Kind) (rest : List Kind) :
    surplus (kind :: rest) = surplus [kind] + surplus rest :=
  surplus_append [kind] rest

theorem surplus_replicate_dedent (count : Nat) : surplus (List.replicate count .dedent) = -count := by
  simp [surplus, List.count_replicate]

theorem surplus_singleton_of_plain {kind : Kind} (plain : kind.isStructural = false) :
    surplus [kind] = 0 := by
  revert plain
  cases kind <;> decide

theorem surplus_of_plain {kinds : List Kind} (plain : ∀ kind ∈ kinds, kind.isStructural = false) :
    surplus kinds = 0 := by
  induction kinds with
  | nil => rfl
  | cons kind rest ih =>
    rw [List.forall_mem_cons] at plain
    rw [surplus_cons, surplus_singleton_of_plain plain.1, ih plain.2]
    rfl

end Kind

namespace Levels

def stack (levels : Levels) : List Nat := 0 :: levels.reverse

structure Within (limit : Int) (levels : Levels) : Prop where
  increasing : levels.stack.Pairwise (· < ·)
  depth : (levels.length : Int) ≤ max limit 0

theorem stack_increasing_iff (levels : Levels) :
    levels.stack.Pairwise (· < ·) ↔ levels.Pairwise (· > ·) ∧ ∀ width ∈ levels, 0 < width := by
  simp only [stack, List.pairwise_cons, List.mem_reverse, List.pairwise_reverse]
  exact and_comm

theorem within_nil (limit : Int) : Within limit [] :=
  ⟨List.pairwise_singleton _ _, Int.le_max_right limit 0⟩

theorem Within.tail {limit : Int} {width : Nat} {outer : Levels} (within : Within limit (width :: outer)) :
    Within limit outer := by
  obtain ⟨increasing, depth⟩ := within
  rw [stack_increasing_iff, List.pairwise_cons] at increasing
  refine ⟨(stack_increasing_iff outer).mpr ⟨increasing.1.2, ?_⟩, ?_⟩
  · exact fun other found => increasing.2 other (by simp [found])
  · rw [List.length_cons] at depth
    omega

theorem Within.after {limit : Int} {levels : Levels} {width : Nat} (within : levels.Within limit)
    (fits : Scanner.overflows limit levels width = false) : (levels.after width).Within limit := by
  obtain ⟨increasing, depth⟩ := within
  rw [stack_increasing_iff] at increasing
  obtain ⟨ordered, positive⟩ := increasing
  unfold Levels.after
  split
  next wider =>
    have below : ∀ other ∈ levels, other < width := by
      cases levels with
      | nil => simp
      | cons innermost outer =>
        rw [List.pairwise_cons] at ordered
        have smaller : innermost < width := wider
        rw [List.forall_mem_cons]
        exact ⟨smaller, fun other found => Nat.lt_trans (ordered.1 other found) smaller⟩
    refine ⟨(stack_increasing_iff _).mpr ⟨List.pairwise_cons.mpr ⟨below, ordered⟩, ?_⟩, ?_⟩
    · rw [List.forall_mem_cons]
      exact ⟨by omega, positive⟩
    · simp only [Scanner.overflows, wider, decide_true, Bool.true_and, decide_eq_false_iff_not] at fits
      rw [List.length_cons]
      omega
  next =>
    have kept : (levels.dropWhile (width < ·)).Sublist levels := List.dropWhile_sublist _
    refine ⟨(stack_increasing_iff _).mpr ⟨ordered.sublist kept, ?_⟩, ?_⟩
    · exact fun other found => positive other (kept.subset found)
    · have := kept.length_le
      omega

theorem length_after (place : Location) (levels : Levels) (width : Nat) :
    ((levels.after width).length : Int) =
      levels.length + Kind.surplus ((Scanner.marginTokens place levels width).map Token.kind) := by
  rw [Scanner.kinds_marginTokens, Levels.after]
  split
  next => simp [Kind.surplus]
  next =>
    rw [Kind.surplus_replicate_dedent, closedBy]
    have parts := congrArg List.length (List.takeWhile_append_dropWhile (p := (width < ·)) (l := levels))
    rw [List.length_append] at parts
    omega

end Levels

namespace Pull

/-- The state after a token, `handed` being the blocks opened less those closed so far. -/
structure Accounts (limit : Int) (handed : Int) (pull : Pull) : Prop where
  within : pull.levels.Within limit
  balance : handed = pull.depth - Kind.surplus (pull.owed.map Token.kind)
  closing : ∀ token ∈ pull.owed, token.kind = .dedent

def AllAccount (limit : Int) : Int → List Pull → Prop
  | _, [] => True
  | handed, pull :: rest =>
    pull.Accounts limit (handed + Kind.surplus [pull.token.kind]) ∧
      AllAccount limit (handed + Kind.surplus [pull.token.kind]) rest

theorem AllAccount.cons {limit handed : Int} {levels : Levels} {token : Token} {rest : List Pull}
    (journal : List Entry) (within : levels.Within limit)
    (balance : handed + Kind.surplus [token.kind] = levels.length)
    (later : AllAccount limit levels.length rest) :
    AllAccount limit handed (⟨journal, token, levels, []⟩ :: rest) := by
  simp only [AllAccount, balance]
  exact ⟨⟨within, (Int.sub_zero _).symm, List.forall_mem_nil _⟩, later⟩

theorem AllAccount.append {limit handed : Int} {early late : List Pull}
    (first : AllAccount limit handed early)
    (second : AllAccount limit (handed + Kind.surplus (kinds early)) late) :
    AllAccount limit handed (early ++ late) := by
  induction early generalizing handed with
  | nil => simpa [kinds] using second
  | cons pull rest ih =>
    refine ⟨first.1, ih first.2 ?_⟩
    have parts := Kind.surplus_cons pull.token.kind (kinds rest)
    rw [Int.add_assoc, ← parts]
    exact second

theorem AllAccount.at {limit handed : Int} {early late : List Pull} {pull : Pull}
    (all : AllAccount limit handed (early ++ pull :: late)) :
    pull.Accounts limit (handed + Kind.surplus (kinds (early ++ [pull]))) := by
  induction early generalizing handed with
  | nil => exact all.1
  | cons first rest ih =>
    have later := ih all.2
    rw [Int.add_assoc, ← Kind.surplus_cons] at later
    exact later

end Pull

namespace Scanner

open Pull Kind

theorem allAccount_handOut {limit handed : Int} {levels : Levels} {waiting : List Entry}
    {tokens : List Token} (within : levels.Within limit)
    (balance : handed + surplus (tokens.map Token.kind) = levels.length)
    (closing : ∀ token ∈ tokens.tail, token.kind = .dedent) :
    AllAccount limit handed (handOut levels waiting tokens) := by
  induction tokens generalizing handed waiting with
  | nil => trivial
  | cons token owed ih =>
    rw [List.map_cons, surplus_cons] at balance
    rw [List.tail_cons] at closing
    refine ⟨⟨within, ?_, closing⟩, ih ?_ fun other found => closing other (List.mem_of_mem_tail found)⟩
    · change handed + surplus [token.kind] = levels.length - surplus (owed.map Token.kind)
      omega
    · change handed + surplus [token.kind] + surplus (owed.map Token.kind) = levels.length
      omega

theorem allAccount_marginPulls {limit : Int} {levels : Levels} {line : Line} (file : String)
    (within : levels.Within limit) (fits : overflows limit levels line.width = false) :
    AllAccount limit levels.length (marginPulls file line levels) := by
  refine allAccount_handOut (within.after fits) (Levels.length_after _ _ _).symm ?_
  unfold marginTokens
  split
  · simp
  · intro token found
    obtain ⟨width, _, rfl⟩ := List.mem_map.mp (List.mem_of_mem_tail found)
    rfl

theorem allAccount_bodyPulls {limit : Int} {levels : Levels} (file : String) (line : Line)
    (column : Nat) (waiting : List Entry) {segments : List Segment} (within : levels.Within limit)
    (plain : ∀ segment ∈ segments, segment.IsPlain) :
    AllAccount limit levels.length (bodyPulls file line levels column waiting segments) := by
  induction segments generalizing column waiting with
  | nil => exact .cons waiting within (Int.add_zero _) trivial
  | cons segment rest ih =>
    have others : ∀ other ∈ rest, other.IsPlain := fun other member => plain other (by simp [member])
    rcases bodyPulls_cons file line levels column waiting segment rest with
      ⟨kind, payload, range, found, same⟩ | ⟨faults, _, _, same⟩
    · rw [same]
      refine .cons _ within ?_ (ih _ _ others)
      rw [surplus_singleton_of_plain (plain segment (by simp) kind payload found), Int.add_zero]
    · rw [same]
      exact ih _ _ others

theorem surplus_linePulls (file : String) (levels : Levels) {line : Line}
    (busy : line.isIdle = false) :
    levels.length + surplus (kinds (linePulls file levels line)) = (levels.after line.width).length := by
  obtain ⟨body, last, tokens, ends, plain, _⟩ := exists_tokens_linePulls file levels busy
  have inner : surplus (body.map Token.kind) = 0 := surplus_of_plain (by simpa using plain)
  rw [kinds_eq_map, tokens, List.map_append, List.map_append, surplus_append, surplus_append, inner,
    List.map_singleton, ends, Levels.length_after (placeIn file line (line.column + line.width))]
  change _ + (_ + (0 + 0)) = _
  omega

theorem allAccount_linePulls {limit : Int} {levels : Levels} {line : Line} (file : String)
    (within : levels.Within limit) (fits : overflows limit levels line.width = false) :
    AllAccount limit levels.length (linePulls file levels line) := by
  refine (allAccount_marginPulls file within fits).append ?_
  rw [kinds_eq_map, marginPulls, tokens_handOut, ← Levels.length_after]
  exact allAccount_bodyPulls file line _ [] (within.after fits)
    fun segment found => Segment.isPlain_of_mem_all found

theorem allAccount_finalPulls {limit : Int} {levels : Levels} (final : Location)
    (within : levels.Within limit) : AllAccount limit levels.length (finalPulls final levels) := by
  induction levels with
  | nil => exact .cons [] within (Int.add_zero _) trivial
  | cons width outer ih =>
    refine .cons [.closed width] within.tail ?_ (ih within.tail)
    change ((outer.length + 1 : Nat) : Int) + -1 = outer.length
    omega

end Scanner

/-- What a run of the scanner does from the blocks open at its start. -/
structure Scan.Sound (limit : Int) (levels : Levels) (scan : Scan) : Prop where
  account : Pull.AllAccount limit levels.length scan.pulls
  within : scan.scanner.levels.Within limit
  balance : levels.length + Kind.surplus (Pull.kinds scan.pulls) = scan.scanner.levels.length
  finished : scan.ending = .finished →
    scan.scanner.levels = [] ∧ Kind.IsLayout (Pull.kinds scan.pulls)

namespace Scanner

open Pull Kind

theorem sound_runLines (scanner : Scanner) {levels : Levels} (lines : List Line)
    (within : levels.Within scanner.limit) :
    (runLines scanner levels lines).Sound scanner.limit levels := by
  fun_induction runLines scanner levels lines with
  | case1 levels =>
    refine ⟨allAccount_finalPulls _ within, Levels.within_nil _, ?_, fun _ => ⟨rfl, ?_⟩⟩
    · rw [kinds_finalPulls, surplus_append, surplus_replicate_dedent]
      change (levels.length : Int) + (-levels.length + 0) = 0
      omega
    · exact ⟨[], levels.length, List.forall_mem_nil _, kinds_finalPulls _ levels⟩
  | case2 levels line rest idle ih => exact ih within
  | case3 levels line rest busy deep problem =>
    refine ⟨trivial, within, Int.add_zero _, fun done => ?_⟩
    cases done
  | case4 levels line rest busy fits later ih =>
    rw [Bool.not_eq_true] at busy fits
    obtain ⟨account, lastWithin, balance, finished⟩ := ih (within.after fits)
    have level := surplus_linePulls scanner.file levels busy
    refine ⟨(allAccount_linePulls _ within fits).append ?_, lastWithin, ?_, fun done => ?_⟩
    · rw [level]
      exact account
    · rw [kinds_append, surplus_append, ← Int.add_assoc, level]
      exact balance
    · obtain ⟨empty, layout⟩ := finished done
      refine ⟨empty, ?_⟩
      rw [kinds_append]
      exact layout.cons_line (isLine_linePulls _ levels busy)

theorem sound_run (scanner : Scanner) (within : scanner.levels.Within scanner.limit) :
    scanner.run.Sound scanner.limit scanner.levels :=
  sound_runLines scanner scanner.lines within

def indented (scanner : Scanner) : Nat := scanner.lines.countP (0 < ·.width)

theorem width_afterMargin (line : Line) : line.afterMargin.width = 0 := by
  have head := List.head?_dropWhile_not Line.isMargin line.content
  unfold Line.width Line.afterMargin
  cases content : line.content.dropWhile Line.isMargin with
  | nil => rfl
  | cons c rest =>
    rw [content] at head
    simp only [List.head?_cons] at head
    rw [List.takeWhile_cons_of_neg (by simp [head])]
    rfl

theorem indented_runLines {scanner : Scanner} {levels : Levels} {lines : List Line}
    {problem : Diagnostic} (stopped : (runLines scanner levels lines).ending = .overflow problem) :
    (runLines scanner levels lines).scanner.indented < lines.countP (0 < ·.width) := by
  fun_induction runLines scanner levels lines with
  | case1 levels => cases stopped
  | case2 levels line rest idle ih =>
    have fewer := ih stopped
    rw [List.countP_cons]
    omega
  | case3 levels line rest busy deep problem =>
    have indentedLine : 0 < line.width := by
      simp only [overflows, Bool.and_eq_true, decide_eq_true_eq] at deep
      omega
    simp [indented, width_afterMargin, indentedLine]
  | case4 levels line rest busy fits later ih =>
    have fewer : later.scanner.indented < rest.countP (0 < ·.width) := ih stopped
    rw [List.countP_cons]
    change later.scanner.indented < _
    omega

theorem limit_runLines (scanner : Scanner) (levels : Levels) (lines : List Line) :
    (runLines scanner levels lines).scanner.limit = scanner.limit := by
  fun_induction runLines scanner levels lines with
  | case1 | case3 => rfl
  | case2 levels line rest idle ih => exact ih
  | case4 levels line rest busy fits later ih => exact ih

/-- The runs of a scanner up to the end of its input: where one stops early, the scanner that it
leaves is run again. -/
def session (scanner : Scanner) : List Scan :=
  match _stopped : scanner.run.ending with
  | .finished => [scanner.run]
  | .overflow _ => scanner.run :: session scanner.run.scanner
termination_by scanner.indented
decreasing_by exact indented_runLines _stopped

def sessionPulls (scanner : Scanner) : List Pull := scanner.session.flatMap Scan.pulls

theorem session_of_finished {scanner : Scanner} (done : scanner.run.ending = .finished) :
    scanner.session = [scanner.run] := by
  rw [session]
  split
  next => rfl
  next problem stopped =>
    rw [done] at stopped
    cases stopped

theorem session_of_overflow {scanner : Scanner} {problem : Diagnostic}
    (stopped : scanner.run.ending = .overflow problem) :
    scanner.session = scanner.run :: scanner.run.scanner.session := by
  rw [session]
  split
  next done =>
    rw [stopped] at done
    cases done
  next => rfl

/-- The runs of a session: the last alone reaches the end, each leaves the blocks in order, and
together they close what was open and what they opened. -/
structure SessionSound (limit : Int) (levels : Levels) (scans : List Scan) : Prop where
  account : AllAccount limit levels.length (scans.flatMap Scan.pulls)
  balance : levels.length + surplus (kinds (scans.flatMap Scan.pulls)) = 0
  within : ∀ scan ∈ scans, scan.scanner.levels.Within limit
  ends : ∃ earlier last, scans = earlier ++ [last] ∧ last.ending = .finished ∧
    IsLayout (kinds last.pulls) ∧ ∀ scan ∈ earlier, scan.ending ≠ .finished

theorem sound_session (scanner : Scanner) (within : scanner.levels.Within scanner.limit) :
    SessionSound scanner.limit scanner.levels scanner.session := by
  -- The state that a stopped run leaves is one that the next run may start from.
  induction scanner using session.induct with
  | case1 scanner done =>
    obtain ⟨account, lastWithin, balance, finished⟩ := sound_run scanner within
    rw [session_of_finished done]
    refine ⟨?_, ?_, ?_, [], scanner.run, rfl, done, (finished done).2, List.forall_mem_nil _⟩
    · rw [List.flatMap_singleton]
      exact account
    · rw [List.flatMap_singleton]
      rw [(finished done).1] at balance
      exact balance
    · simpa using lastWithin
  | case2 scanner problem stopped ih =>
    obtain ⟨account, lastWithin, balance, finished⟩ := sound_run scanner within
    have limit : scanner.run.scanner.limit = scanner.limit := limit_runLines scanner _ _
    have later := ih (by rw [limit]; exact lastWithin)
    rw [limit] at later
    obtain ⟨laterAccount, laterBalance, laterWithin, earlier, last, same, done, layout, others⟩ :=
      later
    rw [session_of_overflow stopped]
    refine ⟨?_, ?_, ?_, scanner.run :: earlier, last, ?_, done, layout, ?_⟩
    · rw [List.flatMap_cons]
      refine account.append ?_
      rw [balance]
      exact laterAccount
    · rw [List.flatMap_cons, kinds_append, surplus_append, ← Int.add_assoc, ← laterBalance]
      exact congrArg (· + _) balance
    · rw [List.forall_mem_cons]
      exact ⟨lastWithin, laterWithin⟩
    · rw [same, List.cons_append]
    · rw [List.forall_mem_cons]
      exact ⟨by simp [stopped], others⟩

theorem isBalanced_of_account {limit : Int} {pulls : List Pull} (account : AllAccount limit 0 pulls)
    (balance : surplus (kinds pulls) = 0) : IsBalanced (kinds pulls) := by
  constructor
  · intro early late split
    obtain ⟨first, rest, rfl, rfl, rfl⟩ := List.map_eq_append_iff.mp split
    rcases List.eq_nil_or_concat first with rfl | ⟨before, pull, rfl⟩
    · exact Nat.le_refl 0
    · rw [List.concat_eq_append, List.append_assoc] at account
      obtain ⟨_, handed, closing⟩ := account.at
      have owed : (pull.owed.map Token.kind).count .indent = 0 := by
        rw [List.count_eq_zero]
        intro found
        obtain ⟨token, member, kind⟩ := List.mem_map.mp found
        rw [closing token member] at kind
        cases kind
      rw [List.concat_eq_append]
      change ((kinds (before ++ [pull])).count .dedent) ≤ (kinds (before ++ [pull])).count .indent
      unfold surplus at handed
      omega
  · unfold surplus at balance
    omega

/-- After every token the open blocks are in order, no more than the limit allows, and what was
opened less what was closed is what is open less what is still owed. So a run that reaches the end of
the input gives lines, closed blocks and one end, and closes what it opens; and where a run stops, its
blocks are in order still, and running on to the end closes what all the runs opened. -/
theorem blocks_balance (file : String) (limit : Int) (source : String) :
    (∀ early pull late, (ofSource file limit source).sessionPulls = early ++ pull :: late →
      pull.levels.stack.Pairwise (· < ·) ∧ (pull.depth : Int) ≤ max limit 0 ∧
        ((kinds (early ++ [pull])).count .indent : Int) - (kinds (early ++ [pull])).count .dedent =
          pull.depth + (pull.owed.map Token.kind).count .dedent -
            (pull.owed.map Token.kind).count .indent) ∧
    ((ofSource file limit source).run.ending = .finished →
      (ofSource file limit source).session = [(ofSource file limit source).run] ∧
        IsLayout (kinds (ofSource file limit source).run.pulls) ∧
        (kinds (ofSource file limit source).run.pulls).count .endOfInput = 1 ∧
        IsBalanced (kinds (ofSource file limit source).run.pulls)) ∧
    (∃ stopped last, (ofSource file limit source).session = stopped ++ [last] ∧
      last.ending = .finished ∧ IsLayout (kinds last.pulls) ∧
      ∀ scan ∈ stopped, scan.ending ≠ .finished ∧ scan.scanner.levels.Within limit) ∧
    IsBalanced (kinds (ofSource file limit source).sessionPulls) := by
  have start : (ofSource file limit source).levels.Within limit := Levels.within_nil limit
  obtain ⟨account, balance, within, stopped, last, same, done, layout, others⟩ :=
    sound_session (ofSource file limit source) start
  have account : AllAccount limit 0 (ofSource file limit source).sessionPulls := account
  have balance : surplus (kinds (ofSource file limit source).sessionPulls) = 0 := by
    rwa [show ((ofSource file limit source).levels.length : Int) = 0 from rfl, Int.zero_add] at balance
  refine ⟨?_, ?_, ⟨stopped, last, same, done, layout, ?_⟩, isBalanced_of_account account balance⟩
  · intro early pull late split
    rw [split] at account
    obtain ⟨inOrder, handed, _⟩ := account.at
    refine ⟨inOrder.increasing, inOrder.depth, ?_⟩
    unfold surplus at handed
    omega
  · intro finished
    have single := session_of_finished finished
    have sound := (sound_run (ofSource file limit source) start).finished finished
    have pulls : (ofSource file limit source).sessionPulls =
        (ofSource file limit source).run.pulls := by
      rw [sessionPulls, single, List.flatMap_singleton]
    rw [pulls] at account balance
    exact ⟨single, sound.2, sound.2.count_endOfInput, isBalanced_of_account account balance⟩
  · intro scan found
    exact ⟨others scan found, within scan (by rw [same]; exact List.mem_append_left _ found)⟩

example :
    let scanner := ofSource "deep.mpy" 1 "a:\n b:\n  c\n d\n"
    scanner.run.ending ≠ .finished ∧ scanner.run.scanner.run.ending = .finished ∧
      kinds (scanner.run.pulls ++ scanner.run.scanner.run.pulls) =
        [.name, .colon, .endOfLine, .indent, .name, .colon, .endOfLine, .dedent, .name, .endOfLine,
          .indent, .name, .endOfLine, .dedent, .endOfInput] := by
  decide +kernel

end Scanner

end Offside
