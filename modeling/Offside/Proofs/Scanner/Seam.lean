import Mathlib.Data.List.TakeWhile
import Offside.Proofs.Scanner.Limit
import Offside.Proofs.Scanner.Order

/-!
Scans of lines in two parts. The first lines give the same tokens whatever comes after them. A line at the
base closes all blocks that are open before it, and from there on nothing tells that there were any: only
the dedents come at another place than at an end of the input.
-/

namespace Offside

namespace Levels

def afterAll : Levels → List Line → Levels
  | levels, [] => levels
  | levels, line :: rest =>
    if line.isIdle then afterAll levels rest else afterAll (levels.after line.width) rest

theorem closedBy_zero {levels : Levels} (positive : ∀ width ∈ levels, 0 < width) :
    levels.closedBy 0 = levels :=
  List.takeWhile_eq_self_iff.mpr (by simpa using positive)

theorem after_zero {levels : Levels} (positive : ∀ width ∈ levels, 0 < width) : levels.after 0 = [] := by
  rw [after, if_neg (Nat.not_lt_zero _), List.dropWhile_eq_nil_iff]
  simpa using positive

end Levels

namespace Scanner

/-- The tokens of lines, without those that an end of the input gives. -/
def frontPulls (file : String) : Levels → List Line → List Pull
  | _, [] => []
  | levels, line :: rest =>
    if line.isIdle then frontPulls file levels rest
    else linePulls file levels line ++ frontPulls file (levels.after line.width) rest

theorem forall_mem_frontPulls {P : Pull → Prop} (file : String) (levels : Levels) (lines : List Line)
    (onLine : ∀ line ∈ lines, line.isIdle = false →
      ∀ levels, ∀ pull ∈ linePulls file levels line, P pull) :
    ∀ pull ∈ frontPulls file levels lines, P pull := by
  fun_induction frontPulls file levels lines with
  | case1 levels => exact List.forall_mem_nil _
  | case2 levels line rest idle ih =>
    rw [List.forall_mem_cons] at onLine
    exact ih onLine.2
  | case3 levels line rest busy ih =>
    rw [List.forall_mem_cons] at onLine
    rw [List.forall_mem_append]
    exact ⟨onLine.1 (Bool.eq_false_iff.mpr busy) levels, ih onLine.2⟩

theorem frontPulls_ends (file : String) (levels : Levels) (lines : List Line) :
    frontPulls file levels lines = [] ∨ ∃ early last,
      frontPulls file levels lines = early ++ [last] ∧ last.token.kind = .endOfLine := by
  fun_induction frontPulls file levels lines with
  | case1 levels => exact .inl rfl
  | case2 levels line rest idle ih => exact ih
  | case3 levels line rest busy ih =>
    rcases ih with none | ⟨early, last, split, ends⟩
    · obtain ⟨body, last, tokens, ends, -⟩ :=
        exists_tokens_linePulls file levels (Bool.eq_false_iff.mpr busy)
      rw [← List.append_assoc] at tokens
      obtain ⟨front, back, split, -, single⟩ := List.map_eq_append_iff.mp tokens
      obtain ⟨pull, rfl, rfl⟩ := List.map_eq_singleton_iff.mp single
      exact .inr ⟨front, pull, by rw [none, split, List.append_nil], ends⟩
    · exact .inr ⟨_, last, by rw [split, List.append_assoc], ends⟩

theorem runLines_append {scanner : Scanner} {levels : Levels} {front other : List Line}
    (done : (runLines scanner levels (front ++ other)).ending = .finished) (scanner' : Scanner)
    (limit : scanner'.limit = scanner.limit) (back : List Line) :
    (runLines scanner' levels (front ++ back)).pulls =
        frontPulls scanner'.file levels front ++
          (runLines scanner' (levels.afterAll front) back).pulls ∧
      (runLines scanner' levels (front ++ back)).ending =
        (runLines scanner' (levels.afterAll front) back).ending := by
  induction front generalizing levels with
  | nil => exact ⟨rfl, rfl⟩
  | cons line rest ih =>
    rw [List.cons_append, runLines] at done
    rw [List.cons_append, runLines, Levels.afterAll, frontPulls, limit]
    by_cases idle : line.isIdle = true
    · rw [if_pos idle] at done
      simp only [if_pos idle]
      exact ih done
    · rw [if_neg idle] at done
      simp only [if_neg idle]
      by_cases deep : overflows scanner.limit levels line.width = true
      · rw [if_pos deep] at done
        cases done
      · rw [if_neg deep] at done
        obtain ⟨pulls, ending⟩ := ih done
        simp only [if_neg deep, pulls, ending, List.append_assoc, and_self]

theorem within_afterAll {scanner : Scanner} {levels : Levels} {front other : List Line}
    (within : levels.Within scanner.limit)
    (done : (runLines scanner levels (front ++ other)).ending = .finished) :
    (levels.afterAll front).Within scanner.limit := by
  induction front generalizing levels with
  | nil => exact within
  | cons line rest ih =>
    rw [List.cons_append, runLines] at done
    rw [Levels.afterAll]
    by_cases idle : line.isIdle = true
    · rw [if_pos idle] at done ⊢
      exact ih within done
    · rw [if_neg idle] at done ⊢
      by_cases deep : overflows scanner.limit levels line.width = true
      · rw [if_pos deep] at done
        cases done
      · rw [if_neg deep] at done
        exact ih (within.after (Bool.eq_false_iff.mpr deep)) done

structure Closes (blocks : Nat) (pulls : List Pull) : Prop where
  kinds : pulls.map (·.token.kind) = List.replicate blocks .dedent
  silent : ∀ pull ∈ pulls, problems pull.journal = []

theorem Closes.isDedent {blocks : Nat} {pulls : List Pull} (closes : Closes blocks pulls) {pull : Pull}
    (member : pull ∈ pulls) : pull.token.kind = .dedent := by
  have listed : pull.token.kind ∈ pulls.map (·.token.kind) := List.mem_map_of_mem member
  rw [closes.kinds] at listed
  exact List.eq_of_mem_replicate listed

theorem closes_handOut (levels : Levels) (waiting : List Entry) (tokens : List Token)
    (silent : problems waiting = []) (dedents : ∀ token ∈ tokens, token.kind = .dedent) :
    Closes tokens.length (handOut levels waiting tokens) := by
  induction tokens generalizing waiting with
  | nil => exact ⟨rfl, List.forall_mem_nil _⟩
  | cons token owed ih =>
    rw [List.forall_mem_cons] at dedents
    obtain ⟨kinds, later⟩ := ih [] rfl dedents.2
    refine ⟨?_, List.forall_mem_cons.mpr ⟨silent, later⟩⟩
    rw [handOut, List.map_cons, kinds, dedents.1, List.length_cons, List.replicate_succ]

theorem exists_closes_finalPulls (final : Location) (levels : Levels) :
    ∃ seam, finalPulls final levels = seam ++ finalPulls final [] ∧ Closes levels.length seam := by
  induction levels with
  | nil => exact ⟨[], rfl, rfl, List.forall_mem_nil _⟩
  | cons width outer ih =>
    obtain ⟨seam, split, kinds, silent⟩ := ih
    refine ⟨⟨[.closed width], ⟨.dedent, .none, final⟩, outer, []⟩ :: seam, ?_, ?_, ?_⟩
    · exact congrArg (_ :: ·) split
    · rw [List.map_cons, kinds, List.length_cons, List.replicate_succ]
    · exact List.forall_mem_cons.mpr ⟨rfl, silent⟩

theorem exists_closes_linePulls (file : String) {levels : Levels} {line : Line}
    (positive : ∀ width ∈ levels, 0 < width) (margin : line.width = 0) :
    ∃ seam, linePulls file levels line = seam ++ linePulls file [] line ∧
      Closes levels.length seam := by
  have none : linePulls file [] line =
      bodyPulls file line [] line.afterMargin.column [] (Segment.all line.afterMargin.content) := by
    simp [linePulls, marginPulls, marginTokens, handOut, Levels.closedBy, Levels.after, margin]
  have journal : marginJournal file line levels = levels.map (.popped line.number) := by
    simp [marginJournal, margin, Levels.after_zero positive, Levels.closedBy_zero positive,
      Levels.top]
  have tokens (place : Location) : marginTokens place levels line.width =
      levels.map fun _ => ⟨.dedent, .none, place⟩ := by
    simp [marginTokens, margin, Levels.closedBy_zero positive]
  refine ⟨marginPulls file line levels, ?_, ?_⟩
  · rw [none, linePulls, margin, Levels.after_zero positive]
  · rw [marginPulls, journal, tokens]
    have closes := closes_handOut (levels.after line.width) (levels.map (.popped line.number))
      (levels.map fun _ => ⟨.dedent, .none, placeIn file line (line.column + line.width)⟩)
      (by simp [problems, Entry.problem?]) (by simp)
    rwa [List.length_map] at closes

/-- Lines of which the first one with content is at the base: the blocks that are open before them are
closed first, and the rest is as with none open. -/
theorem exists_closes_runLines (scanner : Scanner) {levels : Levels} {lines : List Line}
    (positive : ∀ width ∈ levels, 0 < width)
    (margin : ∀ line ∈ lines.find? (!·.isIdle), line.width = 0) :
    ∃ seam, (runLines scanner levels lines).pulls = seam ++ (runLines scanner [] lines).pulls ∧
      (runLines scanner levels lines).ending = (runLines scanner [] lines).ending ∧
      Closes levels.length seam := by
  induction lines with
  | nil =>
    obtain ⟨seam, split, closes⟩ := exists_closes_finalPulls scanner.final levels
    exact ⟨seam, split, rfl, closes⟩
  | cons line rest ih =>
    rw [runLines, runLines]
    by_cases idle : line.isIdle = true
    · rw [if_pos idle, if_pos idle]
      rw [List.find?_cons_of_neg (by simp [idle])] at margin
      exact ih margin
    · rw [List.find?_cons_of_pos (by simp [idle])] at margin
      have base : line.width = 0 := margin line rfl
      have fits (levels : Levels) : overflows scanner.limit levels line.width = false := by
        simp [overflows, base]
      obtain ⟨seam, split, closes⟩ := exists_closes_linePulls scanner.file positive base
      have started : Levels.after [] line.width = [] := by
        rw [base]
        rfl
      simp only [if_neg idle, fits, Bool.false_eq_true, if_false, split, started]
      rw [base, Levels.after_zero positive, List.append_assoc]
      exact ⟨seam, rfl, rfl, closes⟩

end Scanner

end Offside
