import Mathlib.Data.Prod.Lex
import Offside.Proofs.Scanner.Places

/-!
A scan goes through its source in one direction. The tokens come in the order of their places, and a fault
that is found before a token is no later in the source than this token and no earlier than the token before.
-/

namespace Offside

def Location.rank (place : Location) : ℤ ×ₗ ℤ := toLex (place.line, place.column)

theorem Location.rank_le_iff {first second : Location} : first.rank ≤ second.rank ↔
    first.line < second.line ∨ first.line = second.line ∧ first.column ≤ second.column :=
  Prod.Lex.toLex_le_toLex

def InOrder (places : List Location) : Prop :=
  places.Pairwise fun first second => first.rank ≤ second.rank

theorem inOrder_append {early late : List Location} : InOrder (early ++ late) ↔
    InOrder early ∧ InOrder late ∧ ∀ first ∈ early, ∀ second ∈ late, first.rank ≤ second.rank :=
  List.pairwise_append

theorem inOrder_of_same {here : Location} {places : List Location} (same : ∀ place ∈ places, place = here) :
    InOrder places := by
  apply List.pairwise_of_forall_mem_list
  intro first member second other
  rw [same first member, same second other]

def faultPlaces (journal : List Entry) : List Location := (problems journal).filterMap Diagnostic.place

theorem faultPlaces_append (early late : List Entry) :
    faultPlaces (early ++ late) = faultPlaces early ++ faultPlaces late := by
  rw [faultPlaces, problems_append, List.filterMap_append]
  rfl

/-- The places of the faults found before a token, and the place of the token. -/
def Pull.places (pull : Pull) : List Location := faultPlaces pull.journal ++ [pull.token.place]

namespace Scanner

variable {file : String} {line : Line}

theorem rank_placeIn_le {column column' : Nat} (le : column ≤ column') :
    (placeIn file line column).rank ≤ (placeIn file line column').rank := by
  rw [Location.rank_le_iff]
  exact .inr ⟨rfl, Int.ofNat_le.mpr le⟩

theorem faultPlaces_segmentFaults (file : String) (line : Line) (column : Nat) (segment : Segment) :
    ∀ place ∈ faultPlaces (segmentFaults file line column segment), place = placeIn file line column := by
  intro place found
  unfold segmentFaults at found
  split at found
  · exact List.mem_singleton.mp found
  · split at found
    · exact List.mem_singleton.mp found
    · cases found

theorem mem_places_bodyPulls (levels : Levels) (column : Nat) (waiting : List Entry)
    (segments : List Segment) :
    ∀ place ∈ (bodyPulls file line levels column waiting segments).flatMap Pull.places,
      place ∈ faultPlaces waiting ∨ ∃ here, column ≤ here ∧
        here ≤ column + (segments.flatMap Segment.text).length ∧ place = placeIn file line here := by
  induction segments generalizing column waiting with
  | nil =>
    intro place found
    simp only [bodyPulls, List.flatMap_cons, List.flatMap_nil, List.append_nil, Pull.places,
      List.mem_append, List.mem_singleton] at found
    rcases found with waits | rfl
    · exact .inl waits
    · exact .inr ⟨column, le_rfl, Nat.le_add_right _ _, rfl⟩
  | cons segment rest ih =>
    intro place found
    rw [List.flatMap_cons, List.length_append]
    rw [bodyPulls_segment] at found
    have fault := faultPlaces_segmentFaults file line column segment
    cases lexeme : segment.token? with
    | none =>
      rw [lexeme] at found
      rcases ih _ _ place found with waits | ⟨here, least, most, rfl⟩
      · rw [faultPlaces_append, List.mem_append] at waits
        rcases waits with waits | now
        · exact .inl waits
        · exact .inr ⟨column, le_rfl, by omega, fault place now⟩
      · exact .inr ⟨here, by omega, by omega, rfl⟩
    | some token =>
      rw [lexeme] at found
      dsimp only at found
      rw [List.flatMap_cons, List.mem_append, Pull.places, faultPlaces_append, List.append_assoc,
        List.mem_append, List.mem_append, List.mem_singleton] at found
      rcases found with (waits | now | rfl) | later
      · exact .inl waits
      · exact .inr ⟨column, le_rfl, by omega, fault place now⟩
      · exact .inr ⟨column, le_rfl, by omega, rfl⟩
      · rcases ih _ _ place later with none | ⟨here, least, most, rfl⟩
        · cases none
        · exact .inr ⟨here, by omega, by omega, rfl⟩

/-- The rest of a line is read in order, if what waits is no later than its start. -/
theorem inOrder_bodyPulls (levels : Levels) (column : Nat) {waiting : List Entry}
    (segments : List Segment) (ordered : InOrder (faultPlaces waiting))
    (past : ∀ place ∈ faultPlaces waiting, place.rank ≤ (placeIn file line column).rank) :
    InOrder ((bodyPulls file line levels column waiting segments).flatMap Pull.places) := by
  induction segments generalizing column waiting with
  | nil =>
    simp only [bodyPulls, List.flatMap_cons, List.flatMap_nil, List.append_nil, Pull.places]
    rw [inOrder_append]
    exact ⟨ordered, List.pairwise_singleton _ _, by simpa using past⟩
  | cons segment rest ih =>
    have fault := faultPlaces_segmentFaults file line column segment
    have waiting' : InOrder (faultPlaces (waiting ++ segmentFaults file line column segment)) := by
      rw [faultPlaces_append, inOrder_append]
      refine ⟨ordered, inOrder_of_same fault, ?_⟩
      intro first early second now
      rw [fault second now]
      exact past first early
    have past' : ∀ place ∈ faultPlaces (waiting ++ segmentFaults file line column segment),
        place.rank ≤ (placeIn file line column).rank := by
      intro place found
      rw [faultPlaces_append, List.mem_append] at found
      rcases found with early | now
      · exact past place early
      · rw [fault place now]
    rw [bodyPulls_segment]
    cases segment.token? with
    | none =>
      refine ih _ waiting' fun place found => (past' place found).trans ?_
      exact rank_placeIn_le (Nat.le_add_right _ _)
    | some token =>
      dsimp only
      rw [List.flatMap_cons, inOrder_append]
      refine ⟨?_, ih _ List.Pairwise.nil (List.forall_mem_nil _), ?_⟩
      · rw [Pull.places, inOrder_append]
        exact ⟨waiting', List.pairwise_singleton _ _, by simpa using past'⟩
      · intro first early second later
        have reached : first.rank ≤ (placeIn file line column).rank := by
          rw [Pull.places, List.mem_append, List.mem_singleton] at early
          rcases early with found | rfl
          · exact past' first found
          · exact le_rfl
        rcases mem_places_bodyPulls _ _ _ _ second later with none | ⟨here, least, -, rfl⟩
        · cases none
        · exact reached.trans (rank_placeIn_le (by omega))

theorem mem_places_marginPulls (levels : Levels) :
    ∀ place ∈ (marginPulls file line levels).flatMap Pull.places,
      place = placeIn file line (line.column + line.width) := by
  have handed {waiting : List Entry} {tokens : List Token} {here : Location} (levels : Levels)
      (faults : ∀ place ∈ faultPlaces waiting, place = here) (placed : ∀ token ∈ tokens, token.place = here) :
      ∀ place ∈ (handOut levels waiting tokens).flatMap Pull.places, place = here := by
    induction tokens generalizing waiting with
    | nil => exact List.forall_mem_nil _
    | cons token owed ih =>
      rw [List.forall_mem_cons] at placed
      intro place found
      rw [handOut, List.flatMap_cons, Pull.places, List.mem_append, List.mem_append,
        List.mem_singleton] at found
      rcases found with (waits | rfl) | later
      · exact faults place waits
      · exact placed.1
      · exact ih (List.forall_mem_nil _) placed.2 place later
  apply handed
  · intro place found
    obtain ⟨problem, recorded, located⟩ := List.mem_filterMap.mp found
    obtain ⟨entry, happened, fault⟩ := List.mem_filterMap.mp recorded
    simp only [marginJournal] at happened
    split at happened
    · cases List.mem_singleton.mp happened
      cases fault
    · rcases List.mem_append.mp happened with closed | misaligned
      · obtain ⟨width, -, rfl⟩ := List.mem_map.mp closed
        cases fault
      · split at misaligned
        · cases misaligned
        · cases List.mem_singleton.mp misaligned
          cases fault
          exact (Option.some.inj located).symm
  · intro token found
    unfold marginTokens at found
    split at found
    · rw [List.mem_singleton.mp found]
    · obtain ⟨width, -, rfl⟩ := List.mem_map.mp found
      rfl

theorem column_afterMargin (line : Line) : line.afterMargin.column + line.afterMargin.content.length =
    line.column + line.content.length := by
  have split := congrArg List.length (List.takeWhile_append_dropWhile (p := Line.isMargin) (l := line.content))
  rw [List.length_append] at split
  simp only [Line.afterMargin, Line.width]
  omega

theorem mem_places_linePulls (levels : Levels) :
    ∀ place ∈ (linePulls file levels line).flatMap Pull.places,
      ∃ here, here ≤ line.column + line.content.length ∧ place = placeIn file line here := by
  intro place found
  have whole := column_afterMargin line
  rw [linePulls, List.flatMap_append, List.mem_append] at found
  rcases found with margin | body
  · have start : line.afterMargin.column = line.column + line.width := rfl
    exact ⟨_, by omega, mem_places_marginPulls levels place margin⟩
  · rcases mem_places_bodyPulls _ _ _ _ place body with none | ⟨here, -, most, rfl⟩
    · cases none
    · rw [Segment.flatMap_text_all] at most
      exact ⟨here, by omega, rfl⟩

theorem inOrder_linePulls (file : String) (levels : Levels) (line : Line) :
    InOrder ((linePulls file levels line).flatMap Pull.places) := by
  rw [linePulls, List.flatMap_append, inOrder_append]
  refine ⟨inOrder_of_same (mem_places_marginPulls levels),
    inOrder_bodyPulls _ _ _ List.Pairwise.nil (List.forall_mem_nil _), ?_⟩
  intro first margin second body
  rw [mem_places_marginPulls levels first margin]
  rcases mem_places_bodyPulls _ _ _ _ second body with none | ⟨here, least, -, rfl⟩
  · cases none
  · exact rank_placeIn_le least

theorem mem_places_finalPulls (final : Location) (levels : Levels) :
    ∀ place ∈ (finalPulls final levels).flatMap Pull.places, place = final := by
  induction levels with
  | nil => exact fun place found => List.mem_singleton.mp found
  | cons width outer ih =>
    intro place found
    rw [finalPulls, List.flatMap_cons, List.mem_append] at found
    rcases found with now | later
    · exact List.mem_singleton.mp now
    · exact ih place later

/-- Lines that are numbered in order, and end no later than the input, are read in order. -/
theorem inOrder_runLines (scanner : Scanner) (levels : Levels) {lines : List Line}
    (numbered : lines.Pairwise fun first second => first.number < second.number)
    (ended : ∀ line ∈ lines,
      (placeIn scanner.file line (line.column + line.content.length)).rank ≤ scanner.final.rank) :
    InOrder ((runLines scanner levels lines).pulls.flatMap Pull.places) := by
  induction lines generalizing levels with
  | nil => exact inOrder_of_same (mem_places_finalPulls scanner.final levels)
  | cons line rest ih =>
    rw [List.pairwise_cons] at numbered
    rw [List.forall_mem_cons] at ended
    rw [runLines]
    split
    · exact ih levels numbered.2 ended.2
    · split
      · exact List.Pairwise.nil
      · dsimp only
        rw [List.flatMap_append, inOrder_append]
        refine ⟨inOrder_linePulls _ _ _, ih _ numbered.2 ended.2, ?_⟩
        intro first now second later
        obtain ⟨here, most, rfl⟩ := mem_places_linePulls levels first now
        obtain ⟨pull, member, found⟩ := List.mem_flatMap.mp later
        -- What comes later is in a line with a greater number, or at the end.
        revert found
        refine forall_mem_runLines (P := fun pull => second ∈ pull.places → _) scanner _ rest ?_ ?_ pull member
        · intro other inRest _ levels pull member found
          obtain ⟨there, -, rfl⟩ := mem_places_linePulls levels second (List.mem_flatMap.mpr ⟨pull, member, found⟩)
          rw [Location.rank_le_iff]
          exact .inl (Int.ofNat_lt.mpr (numbered.1 other inRest))
        · intro levels pull member found
          rw [mem_places_finalPulls _ levels second (List.mem_flatMap.mpr ⟨pull, member, found⟩)]
          exact (rank_placeIn_le most).trans ended.1

end Scanner

theorem Line.numbered_ofPieces (number : Nat) (texts : List (List Char)) :
    (ofPieces number texts).Pairwise fun first second => first.number < second.number := by
  induction texts generalizing number with
  | nil => exact List.Pairwise.nil
  | cons piece rest ih =>
    rw [ofPieces_cons, List.pairwise_cons]
    refine ⟨?_, ih _⟩
    intro line member
    obtain ⟨early, piece, late, -, rfl⟩ := exists_piece_of_mem member
    dsimp only
    omega

theorem Scanner.inOrder_run (file : String) (limit : Int) (source : String) :
    InOrder ((ofSource file limit source).run.pulls.flatMap Pull.places) := by
  apply inOrder_runLines _ _ (Line.numbered_ofPieces 1 _)
  intro line member
  obtain ⟨early, piece, late, cut, rfl⟩ := Line.exists_piece_of_mem member
  rw [Location.rank_le_iff]
  simp only [ofSource, placeIn, cut]
  by_cases last : late = []
  · right
    simp [last, Nat.add_comm]
  · left
    have more := List.length_pos_iff.mpr last
    simp only [List.length_append, List.length_cons]
    omega

end Offside
