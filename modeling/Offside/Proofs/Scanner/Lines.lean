import Offside.Proofs.Scanner.Partition

/-!
The lines of a text that is put together from two others, and the lines of a text in which a place is
given by the text before it. The last line of the first text goes on with the first line of the second.
-/

namespace Offside

theorem exists_pieces_concat (text : List Char) : ∃ early last, pieces text = early ++ [last] :=
  ⟨_, _, (List.dropLast_append_getLast (pieces_ne_nil text)).symm⟩

theorem exists_pieces_cons (text : List Char) : ∃ first late, pieces text = first :: late := by
  cases same : pieces text with
  | nil => exact absurd same (pieces_ne_nil text)
  | cons first late => exact ⟨first, late, rfl⟩

theorem pieces_of_flat {text : List Char} (flat : '\n' ∉ text) : pieces text = [text] := by
  induction text with
  | nil => rfl
  | cons c rest ih =>
    rw [List.mem_cons, not_or] at flat
    rw [pieces, if_neg (Ne.symm flat.1), ih flat.2]

theorem pieces_line {line : List Char} (single : '\n' ∉ line) (rest : List Char) :
    pieces (line ++ '\n' :: rest) = line :: pieces rest := by
  induction line with
  | nil => rw [List.nil_append, pieces, if_pos rfl]
  | cons c others ih =>
    rw [List.mem_cons, not_or] at single
    rw [List.cons_append, pieces, if_neg (Ne.symm single.1), ih single.2]

theorem pieces_lineFeeds {texts : List (List Char)} (some : texts ≠ [])
    (flat : ∀ piece ∈ texts, '\n' ∉ piece) : pieces (['\n'].intercalate texts) = texts := by
  induction texts with
  | nil => contradiction
  | cons piece rest ih =>
    rw [List.forall_mem_cons] at flat
    cases rest with
    | nil => rw [List.intercalate_singleton, pieces_of_flat flat.1]
    | cons next others =>
      rw [List.intercalate_cons_cons, List.append_assoc, List.singleton_append, pieces_line flat.1,
        ih (List.cons_ne_nil _ _) flat.2]

theorem dropReturn_concat (front : List Char) : dropReturn (front ++ ['\r']) = front := by
  rw [dropReturn, List.reverse_append, List.reverse_singleton, List.singleton_append]
  exact List.reverse_reverse front

theorem dropReturn_of_last {piece : List Char} (other : piece.getLast? ≠ some '\r') :
    dropReturn piece = piece := by
  unfold dropReturn
  split
  next rest reversed =>
    apply absurd _ other
    rw [← List.head?_reverse, reversed]
    rfl
  next => rfl

theorem pieces_append {front back : List Char} {early late : List (List Char)}
    {last first : List Char} (before : pieces front = early ++ [last])
    (after : pieces back = first :: late) :
    pieces (front ++ back) = early ++ (last ++ first) :: late := by
  induction front generalizing early last with
  | nil =>
    have empty : early = [] ∧ last = [] := by
      rw [pieces] at before
      cases early with
      | nil => exact ⟨rfl, (List.cons.inj before).1.symm⟩
      | cons piece others => simp at before
    rw [empty.1, empty.2, List.nil_append, after]
    rfl
  | cons c rest ih =>
    obtain ⟨early', last', shorter⟩ := exists_pieces_concat rest
    have joined := ih shorter
    rw [List.cons_append, pieces, joined]
    rw [pieces, shorter] at before
    by_cases feed : c = '\n'
    · rw [if_pos feed] at before ⊢
      have same := List.append_inj' (before.symm.trans (List.cons_append.symm)) rfl
      rw [same.1, List.cons.inj same.2 |>.1]
      rfl
    · rw [if_neg feed] at before ⊢
      cases early' with
      | nil =>
        have same := List.append_inj' (before.symm.trans (List.nil_append _).symm) rfl
        rw [same.1, List.cons.inj same.2 |>.1]
        rfl
      | cons piece others =>
        have same := List.append_inj' (before.symm.trans (List.cons_append.symm)) rfl
        rw [same.1, List.cons.inj same.2 |>.1]
        rfl

theorem placeAfter_of_pieces (file : String) {before : List Char} {early : List (List Char)}
    {last : List Char} (cut : pieces before = early ++ [last]) :
    placeAfter file before = ⟨file, early.length + 1, last.length + 1⟩ := by
  induction before using List.reverseRecOn generalizing early last with
  | nil =>
    have same := List.append_inj' (cut.symm.trans (List.nil_append _).symm) rfl
    rw [same.1, List.cons.inj same.2 |>.1]
    rfl
  | append_singleton before c ih =>
    obtain ⟨early', last', shorter⟩ := exists_pieces_concat before
    have here := ih shorter
    by_cases feed : c = '\n'
    · have joined := pieces_append shorter (show pieces ['\n'] = [] :: [[]] from rfl)
      rw [feed] at cut ⊢
      have split : early' ++ [last', []] = early' ++ [last'] ++ [[]] := List.append_cons _ _ _
      rw [cut, List.append_nil, split] at joined
      obtain ⟨same, empty⟩ := List.append_inj' joined rfl
      rw [placeAfter_lineFeed, here, same, List.cons.inj empty |>.1, List.length_append]
      rfl
    · have flat : '\n' ∉ [c] := by
        rw [List.mem_singleton]
        exact Ne.symm feed
      have joined := pieces_append shorter (pieces_of_flat flat)
      rw [cut] at joined
      obtain ⟨same, longer⟩ := List.append_inj' joined rfl
      rw [placeAfter_append file before flat, here, same, List.cons.inj longer |>.1,
        List.length_append]
      simp only [List.length_singleton, Nat.cast_add, Nat.cast_one]

namespace Line

/-- Lines that have an end, numbered from `number` on. -/
def ended (number : Nat) : List (List Char) → List Line
  | [] => []
  | piece :: rest => ⟨number, quotedLine piece, 1, dropReturn piece⟩ :: ended (number + 1) rest

theorem ofPieces_append (number : Nat) (early : List (List Char)) {late : List (List Char)}
    (more : late ≠ []) :
    ofPieces number (early ++ late) = ended number early ++ ofPieces (number + early.length) late := by
  induction early generalizing number with
  | nil => rfl
  | cons piece rest ih =>
    have longer : rest ++ late ≠ [] := List.append_ne_nil_of_right_ne_nil rest more
    rw [List.cons_append, ofPieces, ih, ended, List.cons_append, List.length_cons]
    · congr 3
      omega
    · exact longer

theorem ofPieces_cons (number : Nat) (piece : List Char) (rest : List (List Char)) :
    ofPieces number (piece :: rest) =
      ⟨number, quotedLine piece, 1, if rest = [] then piece else dropReturn piece⟩ ::
        ofPieces (number + 1) rest := by
  cases rest with
  | nil => rfl
  | cons next others => rfl

theorem ofPieces_succ (number : Nat) (texts : List (List Char)) :
    ofPieces (number + 1) texts =
      (ofPieces number texts).map fun line => { line with number := line.number + 1 } := by
  induction texts generalizing number with
  | nil => rfl
  | cons piece rest ih => rw [ofPieces_cons, ofPieces_cons, List.map_cons, ih]

theorem mem_ended {number : Nat} {texts : List (List Char)} {line : Line}
    (member : line ∈ ended number texts) :
    line.column = 1 ∧ number ≤ line.number ∧ line.number < number + texts.length := by
  induction texts generalizing number with
  | nil => cases member
  | cons piece rest ih =>
    rw [List.length_cons]
    rcases List.mem_cons.mp member with rfl | later
    · exact ⟨rfl, Nat.le_refl _, by simp⟩
    · obtain ⟨column, least, most⟩ := ih later
      exact ⟨column, by omega, by omega⟩

end Line

end Offside
