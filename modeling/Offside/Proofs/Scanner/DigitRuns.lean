import Offside.Proofs.CText.Token
import Offside.Proofs.Scanner.Order

/-!
Runs of digits in a source. One that goes on nothing, that nothing goes on with and that is in no comment
is a lexeme of its own: the scanner comes to its first digit with a new part, and takes all of it.
-/

namespace Offside

theorem Segment.isWordPart_of_isDigit {c : Char} (digit : c.isDigit = true) : isWordPart c = true := by
  simp [isWordPart, Char.isAlphanum, digit]

/-- A text behind which a digit belongs to no word, number or fraction. -/
def IsDetached (before : List Char) : Prop :=
  ∀ c ∈ before.getLast?, Segment.isWordPart c = false ∧ c ≠ '.'

def IsVisible (before : List Char) : Prop :=
  ∃ lines inside, before = lines ++ inside ∧ StartsLine lines ∧ '#' ∉ inside

/-- A run of digits that stands for an integer: all the digits at a place where they belong to nothing
before them, without a fraction behind them, and not in a comment. -/
structure IsIntegerRun (before digits after : List Char) : Prop where
  nonempty : digits ≠ []
  each : ∀ c ∈ digits, c.isDigit = true
  starts : IsDetached before
  stops : startsWith Char.isDigit after = false
  whole : startsFraction after = false
  visible : IsVisible before

structure IsFresh (before rest : List Char) : Prop where
  starts : startsWith Char.isDigit rest = true → IsDetached before
  visible : IsVisible before

theorem startsWith_mono {isOf isAlso : Char → Bool} {text : List Char}
    (more : ∀ c, isOf c = true → isAlso c = true) (starts : startsWith isOf text = true) :
    startsWith isAlso text = true := by
  cases text with
  | nil => cases starts
  | cons c rest => exact more c starts

theorem Reads.isDetached {text rest : List Char} {kind : Kind} {payload : Payload}
    (reads : Reads text kind payload rest) (digit : startsWith Char.isDigit rest = true) :
    IsDetached text := by
  have word := startsWith_mono (fun _ => Segment.isWordPart_of_isDigit) digit
  cases reads with
  | reserved listed stops =>
    rw [word] at stops
    cases stops
  | name starts others free stops =>
    rw [word] at stops
    cases stops
  | integer some digits stops whole =>
    rw [digit] at stops
    cases stops
  | float whole some fraction stops rounded =>
    rw [digit] at stops
    cases stops
  | symbol listed stops =>
    have each : symbols.all (fun entry => entry.1.getLast?.all fun c =>
        !Segment.isWordPart c && c != '.') = true := by decide
    intro c last
    have found := List.all_eq_true.mp each _ listed
    rw [Option.mem_def.mp last] at found
    simpa using found

theorem Reads.not_mem_comment {text rest : List Char} {kind : Kind} {payload : Payload}
    (reads : Reads text kind payload rest) : '#' ∉ text := by
  intro found
  cases reads with
  | reserved listed stops =>
    have each : ∀ entry ∈ reservedWords, '#' ∉ entry.1.toList := by decide
    exact each _ listed found
  | name starts others free stops =>
    rcases List.mem_cons.mp found with rfl | later
    · cases starts
    · exact absurd (others _ later) (by decide)
  | integer some digits stops whole => exact absurd (digits _ found) (by decide)
  | float whole some fraction stops rounded =>
    rcases List.mem_append.mp found with early | later
    · exact absurd (whole _ early) (by decide)
    · rcases List.mem_cons.mp later with same | late
      · cases same
      · exact absurd (fraction _ late) (by decide)
  | symbol listed stops =>
    have each : ∀ entry ∈ symbols, '#' ∉ entry.1 := by decide
    exact each _ listed found

namespace Part

theorem isDetached_of_stands {part : Part} {rest : List Char} (stands : part.Stands rest)
    (digit : startsWith Char.isDigit rest = true) : IsDetached part.text := by
  obtain ⟨d, others, rfl⟩ := List.exists_cons_of_ne_nil (show rest ≠ [] by rintro rfl; cases digit)
  change d.isDigit = true at digit
  intro c last
  cases part with
  | blanks text => rcases stands.2 c (List.mem_of_getLast? last) with rfl | rfl <;> decide
  | comment text => rcases stands.2.ends.head d rfl with rfl | rfl <;> cases digit
  | lineEnd text => rcases stands with rfl | rfl <;> cases last <;> decide
  | lexeme text kind payload => exact Reads.isDetached stands digit c last
  | unknown char =>
    obtain rfl : char = c := Option.some.inj last
    obtain ⟨-, -, -, wordless, digitless, pointless, -⟩ := stands
    constructor
    · rw [Segment.isWordStart, Bool.or_eq_false_iff] at wordless
      rw [Segment.isWordPart, Char.isAlphanum, wordless.1, wordless.2, digitless]
      rfl
    · rintro rfl
      rw [startsFraction, digit] at pointless
      cases pointless

theorem not_mem_of_stands {part : Part} {rest : List Char} (stands : part.Stands rest)
    (read : ∀ text, part ≠ comment text) : '#' ∉ part.text := by
  intro found
  cases part with
  | blanks text => rcases stands.2 _ found with same | same <;> cases same
  | comment text => exact read text rfl
  | lineEnd text => rcases stands with rfl | rfl <;> simp [text] at found
  | lexeme text kind payload => exact Reads.not_mem_comment stands found
  | unknown char => exact stands.comment (List.mem_singleton.mp found).symm

theorem ne_comment_of_more {part : Part} {rest after : List Char}
    (reaches : ReachesLineEnd (part.text ++ rest) after) (stands : part.Stands (rest ++ after))
    (some : rest ≠ []) (text : List Char) : part ≠ comment text := by
  rintro rfl
  rcases stands.2.ends with none | ends
  · exact some (List.append_eq_nil_iff.mp none).1
  · rw [reaches.inside _ _ rfl some] at ends
    cases ends

end Part

theorem IsFresh.next {part : Part} {before rest : List Char}
    (fresh : IsFresh before (part.text ++ rest)) (stands : part.Stands rest) (some : part.text ≠ [])
    (read : ∀ text, part ≠ .comment text) : IsFresh (before ++ part.text) rest := by
  obtain ⟨lines, inside, rfl, start, none⟩ := fresh.visible
  constructor
  · intro digit c last
    rw [List.getLast?_append] at last
    have own : c ∈ part.text.getLast? := by
      cases ends : part.text.getLast? with
      | none => exact absurd (List.getLast?_eq_none_iff.mp ends) some
      | some d => rwa [ends] at last
    exact Part.isDetached_of_stands stands digit c own
  · refine ⟨lines, inside ++ part.text, List.append_assoc _ _ _, start, ?_⟩
    rw [List.mem_append, not_or]
    exact ⟨none, Part.not_mem_of_stands stands read⟩

namespace Segment

theorem text_ne_nil_of_mem {count : Nat} {content : List Char} {segment : Segment}
    (found : segment ∈ upTo count content) : segment.text ≠ [] := by
  obtain ⟨c, cs, rfl⟩ := exists_next_of_mem_upTo found
  exact text_next_ne_nil c cs

/-- Where a segment of a line stands: what comes before it in the line is no comment, and what comes
behind it does not extend it. -/
theorem context_of_upTo {count : Nat} {before content after : List Char} {early late : List Segment}
    {segment : Segment} (enough : content.length ≤ count) (reaches : ReachesLineEnd content after)
    (fresh : IsFresh before (content ++ after)) (split : upTo count content = early ++ segment :: late) :
    content = early.flatMap text ++ (segment.text ++ late.flatMap text) ∧
      (Part.ofSegment segment).Stands (late.flatMap text ++ after) ∧
      IsFresh (before ++ early.flatMap text) (segment.text ++ (late.flatMap text ++ after)) := by
  fun_induction upTo count content generalizing before early with
  | case1 content => cases early <;> cases split
  | case2 count => cases early <;> cases split
  | case3 count c cs step =>
    rename_i ih
    have parts : step.1.text ++ step.2 = c :: cs := text_next c cs
    have stands : (Part.ofSegment step.1).Stands (step.2 ++ after) := stands_next reaches
    have filled : step.1.text ≠ [] := text_next_ne_nil c cs
    have shorter : step.2.length ≤ count :=
      Nat.le_trans (length_next_le c cs) (Nat.le_of_succ_le_succ enough)
    clear_value step
    rw [← parts, ← Part.text_ofSegment] at fresh reaches ⊢
    rw [← Part.text_ofSegment] at filled
    rw [List.append_assoc] at fresh
    cases early with
    | nil =>
      obtain ⟨rfl, rfl⟩ := List.cons.inj split
      rw [flatMap_text_upTo shorter, List.flatMap_nil, List.append_nil, ← Part.text_ofSegment]
      exact ⟨rfl, stands, fresh⟩
    | cons first others =>
      rw [List.cons_append, List.cons.injEq] at split
      obtain ⟨rfl, split⟩ := split
      have some : step.2 ≠ [] := by
        intro empty
        rw [empty] at split
        cases count <;> simp [upTo] at split
      have later := fresh.next stands filled (Part.ne_comment_of_more reaches stands some)
      obtain ⟨whole, own, here⟩ := ih shorter (reaches.of_append rfl) later split
      rw [List.flatMap_cons, List.append_assoc, ← whole, ← List.append_assoc before, ← Part.text_ofSegment]
      exact ⟨rfl, own, here⟩

end Segment

theorem takeWhile_digits {digits after : List Char} (each : ∀ c ∈ digits, c.isDigit = true)
    (stops : startsWith Char.isDigit after = false) :
    (digits ++ after).takeWhile Char.isDigit = digits := by
  rw [List.takeWhile_append_of_pos each]
  cases after with
  | nil => simp
  | cons c rest => simp [show c.isDigit = false from stops]

namespace IsIntegerRun

theorem digits_unique {before before' digits digits' after after' : List Char}
    (run : IsIntegerRun before digits after) (other : IsIntegerRun before' digits' after')
    (same : digits ++ after = digits' ++ after') : digits = digits' := by
  rw [← takeWhile_digits run.each run.stops, same, takeWhile_digits other.each other.stops]

theorem of_append {front before digits after : List Char}
    (run : IsIntegerRun (front ++ before) digits after) : IsIntegerRun before digits after := by
  refine ⟨run.nonempty, run.each, ?_, run.stops, run.whole, ?_⟩
  · intro c last
    apply run.starts
    rw [List.getLast?_append, Option.mem_def.mp last]
    rfl
  · obtain ⟨lines, inside, same, start, none⟩ := run.visible
    rcases List.append_eq_append_iff.mp same with ⟨more, rfl, rfl⟩ | ⟨more, rfl, rfl⟩
    · refine ⟨more, inside, rfl, ?_, none⟩
      rcases start with empty | feed
      · exact .inl (List.append_eq_nil_iff.mp empty).2
      · rw [List.getLast?_append, Option.or_eq_some_iff] at feed
        rcases feed with own | ⟨empty, -⟩
        · exact .inr own
        · exact .inl (List.getLast?_eq_none_iff.mp empty)
    · exact ⟨[], before, rfl, .inl rfl, fun found => none (List.mem_append_right _ found)⟩

theorem eq_nil_of_inside {before digits after : List Char} (run : IsIntegerRun before digits after)
    (inside : ∀ c ∈ before, Segment.isWordPart c = true ∨ c = '.') : before = [] := by
  cases last : before.getLast? with
  | none => exact List.getLast?_eq_none_iff.mp last
  | some c =>
    obtain ⟨other, pointless⟩ := run.starts c last
    rcases inside c (List.mem_of_getLast? last) with word | point
    · rw [other] at word
      cases word
    · exact absurd point pointless

theorem head {before digits after rest : List Char} {c : Char} (run : IsIntegerRun before digits after)
    (same : digits ++ after = c :: rest) : c.isDigit = true := by
  obtain ⟨d, ds, rfl⟩ := List.exists_cons_of_ne_nil run.nonempty
  rw [List.cons_append, List.cons.injEq] at same
  rw [← same.1]
  exact run.each d List.mem_cons_self

end IsIntegerRun

theorem Reads.eq_of_run {text rest before more digits after : List Char} {c : Char} {kind : Kind}
    {payload : Payload} (reads : Reads text kind payload rest) (split : text = before ++ c :: more)
    (same : digits ++ after = c :: more ++ rest) (run : IsIntegerRun before digits after) :
    before = [] ∧ text = digits ∧ kind = .integer := by
  have digit := run.head same
  have member : c ∈ text := by
    rw [split]
    exact List.mem_append_right _ List.mem_cons_self
  have first (inside : ∀ c ∈ text, Segment.isWordPart c = true ∨ c = '.') : before = [] := by
    apply run.eq_nil_of_inside
    intro c found
    apply inside
    rw [split]
    exact List.mem_append_left _ found
  cases reads with
  | reserved listed stops =>
    have plain : (reservedWords.all fun entry => entry.1.toList.all (!·.isDigit)) = true := by decide
    have other := List.all_eq_true.mp (List.all_eq_true.mp plain _ listed) c member
    rw [digit] at other
    cases other
  | @name d ds _ starts others free stops =>
    have empty : before = [] := by
      apply first
      rw [List.forall_mem_cons]
      exact ⟨.inl (C.isWordPart_of_isWordStart starts), fun c found => .inl (others c found)⟩
    rw [empty] at split
    cases split
    rw [C.not_isWordStart_of_isDigit digit] at starts
    cases starts
  | integer some each stops whole =>
    have empty := first fun c found => .inl (Segment.isWordPart_of_isDigit (each c found))
    refine ⟨empty, ?_, rfl⟩
    rw [empty, List.nil_append] at split
    rw [← takeWhile_digits each stops, split, ← same, takeWhile_digits run.each run.stops]
  | @float front fraction _ _ each some behind stops rounded =>
    have empty : before = [] := by
      apply first
      rw [List.forall_mem_append, List.forall_mem_cons]
      exact ⟨fun c found => .inl (Segment.isWordPart_of_isDigit (each c found)), .inr rfl,
        fun c found => .inl (Segment.isWordPart_of_isDigit (behind c found))⟩
    -- The digits before the point are the run, which no fraction follows.
    rw [empty, List.nil_append] at split
    rw [← split, List.append_assoc] at same
    have equal : digits = front := by
      rw [← takeWhile_digits run.each run.stops, same, takeWhile_digits each rfl]
    rw [equal] at same
    have single := run.whole
    obtain ⟨d, ds, rfl⟩ := List.exists_cons_of_ne_nil some
    rw [List.append_cancel_left same, List.cons_append, List.cons_append, startsFraction,
      behind d List.mem_cons_self] at single
    cases single
  | symbol listed stops =>
    have plain : (symbols.all fun entry => entry.1.all (!·.isDigit)) = true := by decide
    have other := List.all_eq_true.mp (List.all_eq_true.mp plain _ listed) c member
    rw [digit] at other
    cases other

namespace Part

theorem eq_lexeme_of_run {part : Part} {rest before more digits after : List Char} {c : Char}
    (stands : part.Stands rest) (split : part.text = before ++ c :: more)
    (same : digits ++ after = c :: more ++ rest) (run : IsIntegerRun before digits after) :
    before = [] ∧ ∃ payload, part = lexeme digits .integer payload := by
  have digit := run.head same
  have member : c ∈ part.text := by
    rw [split]
    exact List.mem_append_right _ List.mem_cons_self
  cases part with
  | blanks text => rcases stands.2 c member with rfl | rfl <;> cases digit
  | comment text =>
    obtain ⟨lines, inside, rfl, start, none⟩ := run.visible
    have starts := stands.1
    rw [show text = _ from split] at stands starts
    -- Either the run starts the comment, or the comment goes on behind the end of a line.
    rcases start with rfl | feed
    · cases inside with
      | nil =>
        cases starts
        cases digit
      | cons d ds =>
        cases starts
        exact absurd List.mem_cons_self none
    · obtain ⟨front, rfl⟩ := List.getLast?_eq_some_iff.mp feed
      have flat := stands.2.inside front ('\n' :: (inside ++ c :: more)) (by simp) (List.cons_ne_nil _ _)
      cases flat
  | lineEnd text =>
    have plain : text.all (!·.isDigit) = true := by rcases stands with rfl | rfl <;> rfl
    have other := List.all_eq_true.mp plain c member
    rw [digit] at other
    cases other
  | lexeme text kind payload =>
    obtain ⟨empty, rfl, rfl⟩ := Reads.eq_of_run stands split same run
    exact ⟨empty, payload, rfl⟩
  | unknown char =>
    cases List.mem_singleton.mp member
    rw [stands.number] at digit
    cases digit

/-- Every run of digits in a text that is cut into parts is one of the parts. -/
theorem Cut.exists_integer {text before digits after : List Char} {parts : List Part}
    (cut : Cut text parts) (split : text = before ++ (digits ++ after))
    (run : IsIntegerRun before digits after) :
    ∃ early payload late, parts = early ++ lexeme digits .integer payload :: late ∧
      early.flatMap Part.text = before := by
  induction cut generalizing before with
  | nil =>
    have empty := List.append_eq_nil_iff.mp (List.append_eq_nil_iff.mp split.symm).2
    exact absurd empty.1 run.nonempty
  | @cons part rest parts stands later ih =>
    have behind (more : List Char) (front : before = part.text ++ more)
        (back : rest = more ++ (digits ++ after)) :
        ∃ early payload late, part :: parts = early ++ lexeme digits .integer payload :: late ∧
          early.flatMap Part.text = before := by
      rw [front] at run
      obtain ⟨early, payload, late, rfl, text⟩ := ih back run.of_append
      exact ⟨part :: early, payload, late, rfl, by rw [List.flatMap_cons, text, front]⟩
    rcases List.append_eq_append_iff.mp split with ⟨more, front, back⟩ | ⟨more, front, back⟩
    · exact behind more front back
    · cases more with
      | nil =>
        rw [List.append_nil] at front
        exact behind [] (by rw [front, List.append_nil]) back.symm
      | cons c others =>
        obtain ⟨rfl, payload, rfl⟩ := eq_lexeme_of_run stands front back run
        exact ⟨[], payload, parts, rfl, rfl⟩

theorem mem_tokens_of_lexeme (file : String) (before : List Char) (busy : Bool) (early late : List Part)
    (text : List Char) (kind : Kind) (payload : Payload) :
    ⟨kind, payload, placeAfter file (before ++ early.flatMap Part.text)⟩ ∈
      tokens file before busy (early ++ lexeme text kind payload :: late) := by
  induction early generalizing before busy with
  | nil =>
    rw [List.flatMap_nil, List.append_nil]
    exact List.mem_cons_self
  | cons part rest ih =>
    rw [List.flatMap_cons, ← List.append_assoc, List.cons_append]
    cases part with
    | blanks | comment | unknown => exact ih _ _
    | lineEnd => exact List.mem_append_right _ (ih _ _)
    | lexeme => exact List.mem_cons_of_mem _ (ih _ _)

end Part

theorem eq_nil_of_placeAfter {file : String} {before more : List Char}
    (same : placeAfter file before = placeAfter file (before ++ more)) : more = [] := by
  by_cases feed : '\n' ∈ more
  · have lines := congrArg Location.line same
    have counted := List.count_pos_iff.mpr feed
    simp only [placeAfter, List.count_append] at lines
    omega
  · have columns := congrArg Location.column same
    rw [placeAfter_append file before feed] at columns
    apply List.length_eq_zero_iff.mp
    dsimp only at columns
    omega

theorem placeAfter_inj {file : String} {before before' after after' : List Char}
    (split : before ++ after = before' ++ after')
    (same : placeAfter file before = placeAfter file before') : before = before' := by
  rcases List.append_eq_append_iff.mp split with ⟨more, rfl, -⟩ | ⟨more, rfl, -⟩
  · rw [eq_nil_of_placeAfter same, List.append_nil]
  · rw [eq_nil_of_placeAfter same.symm, List.append_nil]

theorem Scanner.exists_integer_of_run {file source : String} {limit : Int} {before digits after : List Char}
    (done : (ofSource file limit source).run.ending = .finished)
    (split : source.toList = before ++ (digits ++ after)) (run : IsIntegerRun before digits after) :
    ∃ token ∈ (ofSource file limit source).run.tokens,
      token.kind = .integer ∧ token.place = placeAfter file before := by
  have start : placeAfter file [] = ⟨file, (1 : Nat), 1⟩ := rfl
  obtain ⟨parts, cut, tokens, -⟩ := exists_shows_runLines (pieces_ne_nil source.toList) start
    (flat_of_mem_pieces source.toList) done
  rw [intercalate_pieces] at cut
  obtain ⟨early, payload, late, rfl, rfl⟩ := cut.exists_integer split run
  have member := Part.mem_tokens_of_lexeme file [] false early late digits .integer payload
  have shown : _ ∈ List.filter _ _ := tokens ▸ member
  exact ⟨_, (List.mem_filter.mp shown).1, rfl, rfl⟩

end Offside
