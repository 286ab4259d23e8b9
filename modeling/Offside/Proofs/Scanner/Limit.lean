import Mathlib.Data.List.Infix
import Mathlib.Order.MinMax
import Offside.Proofs.Scanner.Indentation

/-!
The limit on open blocks. A scan looks at the limit before it opens a block and nowhere else, so it
gives what a scan without a limit gives, up to the first block that is one too many. There is such a
block exactly if at some time more blocks than allowed are open.
-/

namespace Offside

namespace Kind

def peak (kinds : List Kind) : Int := (kinds.inits.map surplus).foldr max 0

theorem lt_peak_iff {kinds : List Kind} {bound : Int} (natural : 0 ≤ bound) :
    bound < peak kinds ↔ ∃ early late, kinds = early ++ late ∧ bound < surplus early := by
  have greatest (values : List Int) : bound < values.foldr max 0 ↔ ∃ value ∈ values, bound < value := by
    induction values with
    | nil => simpa using natural
    | cons value rest ih => rw [List.foldr_cons, lt_max_iff, ih, List.exists_mem_cons_iff]
  rw [peak, greatest]
  constructor
  · rintro ⟨value, listed, more⟩
    obtain ⟨early, initial, rfl⟩ := List.mem_map.mp listed
    obtain ⟨late, whole⟩ := (List.mem_inits _ _).mp initial
    exact ⟨early, late, whole.symm, more⟩
  · rintro ⟨early, late, rfl, more⟩
    exact ⟨_, List.mem_map_of_mem ((List.mem_inits _ _).mpr (List.prefix_append early late)), more⟩

/-- With `opened` blocks open at the start, no more than `bound` are open at any time. -/
def StaysWithin (bound opened : Int) (kinds : List Kind) : Prop :=
  ∀ early late, kinds = early ++ late → opened + surplus early ≤ bound

theorem StaysWithin.append {bound opened : Int} {front back : List Kind}
    (first : StaysWithin bound opened front) (second : StaysWithin bound (opened + surplus front) back) :
    StaysWithin bound opened (front ++ back) := by
  intro early late split
  rcases List.append_eq_append_iff.mp split with ⟨more, rfl, rest⟩ | ⟨more, inside, -⟩
  · have bounded := second more late rest
    rw [surplus_append]
    omega
  · exact first early more inside

theorem staysWithin_of_count {bound opened : Int} {kinds : List Kind}
    (few : opened + kinds.count .indent ≤ bound) : StaysWithin bound opened kinds := by
  rintro early late rfl
  rw [List.count_append] at few
  unfold surplus
  omega

end Kind

namespace Scanner

open Pull Kind

theorem staysWithin_linePulls {limit : Int} {levels : Levels} {line : Line} (file : String)
    (busy : line.isIdle = false) (within : levels.Within limit)
    (fits : overflows limit levels line.width = false) :
    StaysWithin (max limit 0) levels.length (kinds (linePulls file levels line)) := by
  obtain ⟨body, last, tokens, ends, plain, -⟩ := exists_tokens_linePulls file levels busy
  have inner : (body.map Token.kind).count .indent = 0 := by
    rw [List.count_eq_zero]
    intro found
    obtain ⟨token, member, kind⟩ := List.mem_map.mp found
    have := plain token member
    rw [kind] at this
    cases this
  apply staysWithin_of_count
  rw [kinds_eq_map, tokens, List.map_append, List.map_append, List.map_singleton, ends,
    kinds_marginTokens, List.count_append, List.count_append, inner]
  have before := within.depth
  have after := (within.after fits).depth
  by_cases wider : levels.top < line.width
  · rw [Levels.after, if_pos wider, List.length_cons] at after
    rw [if_pos wider]
    simp only [List.count_cons, List.count_nil, beq_iff_eq, reduceCtorEq, ↓reduceIte]
    omega
  · rw [if_neg wider, List.count_replicate]
    simp only [List.count_cons, List.count_nil, beq_iff_eq, reduceCtorEq, ↓reduceIte]
    omega

theorem staysWithin_runLines (scanner : Scanner) {levels : Levels} (lines : List Line)
    (within : levels.Within scanner.limit) :
    StaysWithin (max scanner.limit 0) levels.length (kinds (runLines scanner levels lines).pulls) := by
  fun_induction runLines scanner levels lines with
  | case1 levels =>
    apply staysWithin_of_count
    rw [kinds_finalPulls, List.count_append, List.count_replicate]
    have depth := within.depth
    simpa using depth
  | case2 levels line rest idle ih => exact ih within
  | case3 levels line rest busy deep problem =>
    apply staysWithin_of_count
    have depth := within.depth
    simpa [kinds] using depth
  | case4 levels line rest busy fits later ih =>
    rw [Bool.not_eq_true] at busy fits
    rw [kinds_append]
    apply (staysWithin_linePulls scanner.file busy within fits).append
    rw [surplus_linePulls scanner.file levels busy]
    exact ih (within.after fits)

def unlimitedPulls (file : String) (final : Location) : Levels → List Line → List Pull
  | levels, [] => finalPulls final levels
  | levels, line :: rest =>
    if line.isIdle then unlimitedPulls file final levels rest
    else linePulls file levels line ++ unlimitedPulls file final (levels.after line.width) rest

/-- A line opens one block at most, so a limit that the lines cannot reach has no effect. -/
theorem finished_of_large {scanner : Scanner} {levels : Levels} {lines : List Line}
    (large : (levels.length + lines.length : Nat) ≤ scanner.limit) :
    (runLines scanner levels lines).ending = .finished := by
  fun_induction runLines scanner levels lines with
  | case1 levels => rfl
  | case2 levels line rest idle ih =>
    apply ih
    rw [List.length_cons] at large
    omega
  | case3 levels line rest busy deep problem =>
    simp only [overflows, Bool.and_eq_true, decide_eq_true_eq] at deep
    rw [List.length_cons] at large
    omega
  | case4 levels line rest busy fits later ih =>
    apply ih
    have grown : (levels.after line.width).length ≤ levels.length + 1 := by
      unfold Levels.after
      split
      · exact Nat.le_refl _
      · exact Nat.le_succ_of_le (List.dropWhile_sublist _).length_le
    rw [List.length_cons] at large
    omega

theorem pulls_of_finished {scanner : Scanner} {levels : Levels} {lines : List Line}
    (done : (runLines scanner levels lines).ending = .finished) :
    (runLines scanner levels lines).pulls = unlimitedPulls scanner.file scanner.final levels lines := by
  fun_induction runLines scanner levels lines with
  | case1 levels => rfl
  | case2 levels line rest idle ih => rw [unlimitedPulls, if_pos idle, ih done]
  | case3 levels line rest busy deep problem => cases done
  | case4 levels line rest busy fits later ih =>
    rw [unlimitedPulls, if_neg busy, ← ih done]

theorem getLast?_linePulls (file : String) (levels : Levels) (line : Line) :
    ∃ last, (linePulls file levels line).getLast? = some last ∧
      last.levels = levels.after line.width ∧ last.owed = [] := by
  have body (levels : Levels) (column : Nat) (waiting : List Entry) (segments : List Segment) :
      ∃ last, (bodyPulls file line levels column waiting segments).getLast? = some last ∧
        last.levels = levels ∧ last.owed = [] := by
    induction segments generalizing column waiting with
    | nil => exact ⟨_, rfl, rfl, rfl⟩
    | cons segment rest ih =>
      rw [bodyPulls_segment]
      split
      next =>
        obtain ⟨last, found, same⟩ := ih (column + segment.text.length) []
        exact ⟨last, by rw [List.getLast?_cons, found, Option.getD_some], same⟩
      next => exact ih _ _
  obtain ⟨last, found, same⟩ :=
    body (levels.after line.width) line.afterMargin.column [] (Segment.all line.afterMargin.content)
  exact ⟨last, by rw [linePulls, List.getLast?_append, found, Option.some_or], same⟩

theorem levels_of_overflow {scanner : Scanner} {levels : Levels} {lines : List Line}
    {problem : Diagnostic} (stopped : (runLines scanner levels lines).ending = .overflow problem) :
    match (runLines scanner levels lines).pulls.getLast? with
    | none => (runLines scanner levels lines).scanner.levels = levels
    | some last => (runLines scanner levels lines).scanner.levels = last.levels ∧ last.owed = [] := by
  fun_induction runLines scanner levels lines with
  | case1 levels => cases stopped
  | case2 levels line rest idle ih => exact ih stopped
  | case3 levels line rest busy deep problem => rfl
  | case4 levels line rest busy fits later ih =>
    obtain ⟨last, found, open', owed⟩ := getLast?_linePulls scanner.file levels line
    have left := ih stopped
    dsimp only
    rw [List.getLast?_append, found]
    cases ends : later.pulls.getLast? with
    | none =>
      rw [ends] at left
      exact ⟨left.trans open'.symm, owed⟩
    | some other =>
      rw [ends] at left
      exact left

def opening (file : String) (levels : Levels) (line : Line) : Pull :=
  ⟨[.pushed line.number line.width], ⟨.indent, .none, placeIn file line (line.column + line.width)⟩,
    line.width :: levels, []⟩

theorem linePulls_of_wider (file : String) {levels : Levels} {line : Line}
    (wider : levels.top < line.width) :
    linePulls file levels line = opening file levels line ::
      bodyPulls file line (line.width :: levels) line.afterMargin.column []
        (Segment.all line.afterMargin.content) := by
  have after : levels.after line.width = line.width :: levels := if_pos wider
  have journal : marginJournal file line levels = [.pushed line.number line.width] := if_pos wider
  have tokens (place : Location) : marginTokens place levels line.width = [⟨.indent, .none, place⟩] :=
    if_pos wider
  rw [linePulls, marginPulls, after, journal, tokens]
  rfl

theorem exists_opening_of_overflow {scanner : Scanner} {levels : Levels} {lines : List Line}
    {problem : Diagnostic} (within : levels.Within scanner.limit)
    (stopped : (runLines scanner levels lines).ending = .overflow problem) :
    ∃ line late,
      unlimitedPulls scanner.file scanner.final levels lines = (runLines scanner levels lines).pulls ++
        opening scanner.file (runLines scanner levels lines).scanner.levels line :: late ∧
      problem = fault scanner.file line (line.column + line.width) (.tooManyLevels scanner.limit) ∧
      levels.length + surplus (kinds (runLines scanner levels lines).pulls) = max scanner.limit 0 := by
  fun_induction runLines scanner levels lines with
  | case1 levels => cases stopped
  | case2 levels line rest idle ih =>
    rw [unlimitedPulls, if_pos idle]
    exact ih within stopped
  | case3 levels line rest busy deep found =>
    simp only [overflows, Bool.and_eq_true, decide_eq_true_eq] at deep
    have depth := within.depth
    rw [unlimitedPulls, if_neg busy, linePulls_of_wider _ deep.1]
    refine ⟨line, _, rfl, (Ending.overflow.inj stopped).symm, ?_⟩
    change (levels.length : Int) + 0 = _
    omega
  | case4 levels line rest busy fits later ih =>
    rw [Bool.not_eq_true] at fits
    obtain ⟨deeper, late, whole, told, depth⟩ := ih (within.after fits) stopped
    refine ⟨deeper, late, ?_, told, ?_⟩
    · rw [unlimitedPulls, if_neg busy, whole, List.append_assoc]
    · rw [kinds_append, surplus_append, ← Int.add_assoc,
        surplus_linePulls scanner.file levels (Bool.eq_false_iff.mpr busy)]
      exact depth

/-- The limit is exact, and has no other effect. There is one list of tokens for all limits that are large
enough. With any limit a scan gives this list, unless at some time more blocks are open than allowed.
Then it stops before the first block that is one too many, at its place: it has given the tokens and
recorded the faults that come before, and leaves the blocks that were open, with no token owed. -/
theorem limit_is_exact (file source : String) :
    ∃ whole : List Pull,
      (∃ enough : Int, ∀ limit, enough ≤ limit → (ofSource file limit source).run.ending = .finished) ∧
      ∀ limit : Int,
        let scan := (ofSource file limit source).run
        ((∃ problem, scan.ending = .overflow problem) ↔ max limit 0 < peak (kinds whole)) ∧
        (scan.ending = .finished → scan.pulls = whole) ∧
        ∀ problem, scan.ending = .overflow problem →
          ∃ opening late, whole = scan.pulls ++ opening :: late ∧
            opening.token.kind = .indent ∧ problems opening.journal = [] ∧
            surplus (kinds (scan.pulls ++ [opening])) = max limit 0 + 1 ∧
            (∀ early rest, kinds scan.pulls = early ++ rest → surplus early ≤ max limit 0) ∧
            problem.cause = .tooManyLevels limit ∧ problem.place = some opening.token.place ∧
            opening.levels.tail = scan.scanner.levels ∧
            match scan.pulls.getLast? with
            | none => scan.scanner.levels = []
            | some last => scan.scanner.levels = last.levels ∧ last.owed = [] := by
  have start (limit : Int) : (ofSource file limit source).levels.Within limit := Levels.within_nil limit
  refine ⟨unlimitedPulls file (ofSource file 0 source).final [] (ofSource file 0 source).lines,
    ⟨(ofSource file 0 source).lines.length, ?_⟩, ?_⟩
  · intro limit large
    apply finished_of_large
    rw [show (ofSource file limit source).levels = [] from rfl, List.length_nil, Nat.zero_add]
    exact large
  · intro limit scan
    have bounded := staysWithin_runLines (ofSource file limit source) (ofSource file limit source).lines
      (start limit)
    simp only [show ((ofSource file limit source).levels.length : Int) = 0 from rfl, StaysWithin,
      Int.zero_add] at bounded
    have opens {problem : Diagnostic} (stopped : scan.ending = .overflow problem) :=
      exists_opening_of_overflow (start limit) stopped
    have deeper (line : Line) :
        surplus (kinds (scan.pulls ++ [opening file scan.scanner.levels line])) =
          surplus (kinds scan.pulls) + 1 := by
      rw [kinds_append, surplus_append]
      rfl
    refine ⟨⟨?_, ?_⟩, pulls_of_finished, ?_⟩
    · rintro ⟨problem, stopped⟩
      obtain ⟨line, late, whole, -, depth⟩ := opens stopped
      have higher := deeper line
      rw [lt_peak_iff (Int.le_max_right limit 0)]
      refine ⟨kinds (scan.pulls ++ [opening file scan.scanner.levels line]), kinds late, ?_, ?_⟩
      · rw [← kinds_append, List.append_assoc]
        exact congrArg kinds whole
      · change (0 : Int) + surplus (kinds scan.pulls) = max limit 0 at depth
        omega
    · intro deep
      cases ending : scan.ending with
      | overflow problem => exact ⟨problem, rfl⟩
      | finished =>
        obtain ⟨early, late, split, more⟩ := (lt_peak_iff (Int.le_max_right limit 0)).mp deep
        have fewer := bounded early late ((congrArg kinds (pulls_of_finished ending)).trans split)
        change surplus early ≤ max limit 0 at fewer
        omega
    · intro problem stopped
      obtain ⟨line, late, whole, rfl, depth⟩ := opens stopped
      change (0 : Int) + surplus (kinds scan.pulls) = max limit 0 at depth
      refine ⟨opening file scan.scanner.levels line, late, whole, rfl, rfl, ?_, bounded, rfl, rfl, rfl,
        levels_of_overflow stopped⟩
      rw [deeper]
      omega

end Scanner

end Offside
