import Mathlib.Order.Bounds.Basic
import Mathlib.Order.MinMax
import Offside.EditDistance

/-!
The edit distance is what its name says: the least number of single edits, one after the other, that turn
one word into the other, whatever the words in between. Two words that are written one above the other
need no more edits than any such sequence, and the rows hold the least numbers of all pairs of beginnings.
-/

namespace Offside.EditDistance

variable {m n : Nat} {a b w : List Char} {c d : Char}

inductive Edit : List Char → List Char → Prop where
  | insertion (front back : List Char) (c : Char) : Edit (front ++ back) (front ++ c :: back)
  | deletion (front back : List Char) (c : Char) : Edit (front ++ c :: back) (front ++ back)
  | substitution (front back : List Char) (c d : Char) :
    Edit (front ++ c :: back) (front ++ d :: back)

inductive Edits : Nat → List Char → List Char → Prop where
  | none (a : List Char) : Edits 0 a a
  | more {n : Nat} {a b w : List Char} : Edit a b → Edits n b w → Edits (n + 1) a w

/-- Two words one above the other. Each character has one of the other word opposite, or none; those that
are not opposite the same character are counted. -/
inductive Aligned : Nat → List Char → List Char → Prop where
  | nil : Aligned 0 [] []
  | opposite {n : Nat} {a b : List Char} (c d : Char) : Aligned n a b →
    Aligned (n + if c = d then 0 else 1) (c :: a) (d :: b)
  | insert {n : Nat} {a b : List Char} (d : Char) : Aligned n a b → Aligned (n + 1) a (d :: b)
  | delete {n : Nat} {a b : List Char} (c : Char) : Aligned n a b → Aligned (n + 1) (c :: a) b

namespace Aligned

theorem keep (c : Char) (aligned : Aligned n a b) : Aligned n (c :: a) (c :: b) := by
  have same := aligned.opposite c c
  rwa [if_pos rfl] at same

theorem refl (a : List Char) : Aligned 0 a a := by
  induction a with
  | nil => exact .nil
  | cons c rest ih => exact ih.keep c

theorem symm (aligned : Aligned n a b) : Aligned n b a := by
  induction aligned with
  | nil => exact .nil
  | opposite c d _ ih =>
    have swapped := ih.opposite d c
    simpa only [eq_comm] using swapped
  | insert d _ ih => exact ih.delete d
  | delete c _ ih => exact ih.insert c

theorem append {a' b' : List Char} (first : Aligned m a b) (second : Aligned n a' b') :
    Aligned (m + n) (a ++ a') (b ++ b') := by
  induction first with
  | nil => simpa using second
  | opposite c d _ ih =>
    rw [Nat.add_right_comm]
    exact ih.opposite c d
  | insert d _ ih =>
    rw [Nat.add_right_comm]
    exact ih.insert d
  | delete c _ ih =>
    rw [Nat.add_right_comm]
    exact ih.delete c

theorem reverse (aligned : Aligned n a b) : Aligned n a.reverse b.reverse := by
  induction aligned with
  | nil => exact .nil
  | opposite c d _ ih =>
    have last : Aligned (if c = d then 0 else 1) [c] [d] := by simpa using nil.opposite c d
    simpa using ih.append last
  | insert d _ ih => simpa using ih.append (nil.insert d)
  | delete c _ ih => simpa using ih.append (nil.delete c)

/-- Words that are aligned with the same one are aligned with each other. The induction is on the first
alignment; where it puts in or pairs a character of the middle word, a second one on the other alignment
passes what that puts in. -/
theorem trans (first : Aligned m a b) (second : Aligned n b w) : ∃ k ≤ m + n, Aligned k a w := by
  induction first generalizing n w with
  | nil => exact ⟨n, by omega, second⟩
  | delete c _ ih =>
    obtain ⟨k, few, aligned⟩ := ih second
    exact ⟨k + 1, by omega, aligned.delete c⟩
  | @insert m a b d _ ih =>
    generalize middle : d :: b = whole at second
    induction second with
    | nil => cases middle
    | insert e _ passed =>
      obtain ⟨k, few, aligned⟩ := passed middle
      exact ⟨k + 1, by omega, aligned.insert e⟩
    | opposite d' e rest =>
      cases middle
      obtain ⟨k, few, aligned⟩ := ih rest
      exact ⟨k + 1, by omega, aligned.insert e⟩
    | delete d' rest =>
      cases middle
      obtain ⟨k, few, aligned⟩ := ih rest
      exact ⟨k, by omega, aligned⟩
  | @opposite m a b c d _ ih =>
    generalize middle : d :: b = whole at second
    induction second with
    | nil => cases middle
    | insert e _ passed =>
      obtain ⟨k, few, aligned⟩ := passed middle
      exact ⟨k + 1, by omega, aligned.insert e⟩
    | opposite d' e rest =>
      cases middle
      obtain ⟨k, few, aligned⟩ := ih rest
      have bypass : (if c = e then 0 else 1) ≤ (if c = d then 0 else 1) + if d = e then 0 else 1 := by
        grind
      exact ⟨_, by omega, aligned.opposite c e⟩
    | delete d' rest =>
      cases middle
      obtain ⟨k, few, aligned⟩ := ih rest
      exact ⟨k + 1, by omega, aligned.delete c⟩

theorem of_edit (edit : Edit a b) : ∃ k ≤ 1, Aligned k a b := by
  cases edit with
  | insertion front back c => exact ⟨1, le_rfl, by simpa using (refl front).append ((refl back).insert c)⟩
  | deletion front back c => exact ⟨1, le_rfl, by simpa using (refl front).append ((refl back).delete c)⟩
  | substitution front back c d =>
    refine ⟨if c = d then 0 else 1, by split <;> omega, ?_⟩
    simpa using (refl front).append ((refl back).opposite c d)

theorem of_edits (edits : Edits n a b) : ∃ k ≤ n, Aligned k a b := by
  induction edits with
  | none a => exact ⟨0, le_rfl, refl a⟩
  | more edit _ ih =>
    obtain ⟨first, single, aligned⟩ := of_edit edit
    obtain ⟨second, few, others⟩ := ih
    obtain ⟨k, fewer, whole⟩ := aligned.trans others
    exact ⟨k, by omega, whole⟩

end Aligned

namespace Edits

theorem append (first : Edits m a b) (second : Edits n b w) : Edits (m + n) a w := by
  induction first with
  | none => simpa using second
  | more edit _ ih =>
    rw [Nat.add_right_comm]
    exact .more edit (ih second)

theorem behind (c : Char) (edits : Edits n a b) : Edits n (c :: a) (c :: b) := by
  induction edits with
  | none a => exact .none _
  | more edit _ ih =>
    refine .more ?_ ih
    cases edit with
    | insertion front back d => exact .insertion (c :: front) back d
    | deletion front back d => exact .deletion (c :: front) back d
    | substitution front back d e => exact .substitution (c :: front) back d e

theorem of_aligned (aligned : Aligned n a b) : Edits n a b := by
  induction aligned with
  | nil => exact .none []
  | @opposite n a b c d _ ih =>
    have within := ih.behind c
    by_cases same : c = d
    · subst same
      simpa using within
    · rw [if_neg same]
      exact within.append (.more (.substitution [] b c d) (.none _))
  | @insert n a b d _ ih => exact ih.append (.more (.insertion [] b d) (.none _))
  | @delete n a b c _ ih => exact (ih.behind c).append (.more (.deletion [] b c) (.none _))

theorem eq_of_zero (edits : Edits 0 a b) : a = b := by
  cases edits
  rfl

end Edits

def Least (n : Nat) (a b : List Char) : Prop := IsLeast {m | Aligned m a b} n

namespace Least

theorem symm (least : Least n a b) : Least n b a :=
  ⟨least.1.symm, fun _ aligned => least.2 (Aligned.symm aligned)⟩

theorem reverse (least : Least n a.reverse b.reverse) : Least n a b := by
  refine ⟨by simpa using least.1.reverse, ?_⟩
  intro m aligned
  exact least.2 (Aligned.reverse aligned)

theorem nil : Least 0 [] [] := ⟨.nil, fun _ _ => Nat.zero_le _⟩

theorem cons_nil (c : Char) (least : Least n a []) : Least (n + 1) (c :: a) [] := by
  refine ⟨least.1.delete c, ?_⟩
  intro m aligned
  cases aligned with
  | delete _ rest =>
    have fewer := least.2 rest
    omega

theorem cons_cons {corner above left : Nat} (both : Least corner a b) (upper : Least above a (d :: b))
    (lower : Least left (c :: a) b) :
    Least (min (min (above + 1) (left + 1)) (corner + if c = d then 0 else 1)) (c :: a) (d :: b) := by
  constructor
  · rcases min_choice (min (above + 1) (left + 1)) (corner + if c = d then 0 else 1) with first | last
    · rw [first]
      rcases min_choice (above + 1) (left + 1) with up | down
      · rw [up]
        exact upper.1.delete c
      · rw [down]
        exact lower.1.insert d
    · rw [last]
      exact both.1.opposite c d
  · intro m aligned
    cases aligned with
    | opposite _ _ rest =>
      have fewer := both.2 rest
      omega
    | insert _ rest =>
      have fewer := lower.2 rest
      omega
    | delete _ rest =>
      have fewer := upper.2 rest
      omega

end Least

/-- A row that starts at the beginning `q` of a word, the rest of the word being `word`: the least numbers
for `p` and the longer and longer beginnings. Both `p` and `q` are read backwards, so that their last
characters come first. -/
inductive Row (p : List Char) : List Char → List Char → List Nat → Prop where
  | last {q : List Char} {n : Nat} : Least n p q → Row p q [] [n]
  | cons {q word : List Char} {d : Char} {n : Nat} {others : List Nat} : Least n p q →
    Row p (d :: q) word others → Row p q (d :: word) (n :: others)

namespace Row

variable {p q word : List Char} {row : List Nat}

theorem exists_cons (isRow : Row p q word row) : ∃ first others, row = first :: others ∧ Least first p q := by
  cases isRow with
  | last least => exact ⟨_, _, rfl, least⟩
  | cons least _ => exact ⟨_, _, rfl, least⟩

theorem rowFrom (isRow : Row p q word row) {left : Nat} (least : Least left (c :: p) q) :
    Row (c :: p) q word (left :: EditDistance.rowFrom c word row left) := by
  induction isRow generalizing left with
  | last _ => exact .last least
  | cons corner rest ih =>
    obtain ⟨above, others, rfl, upper⟩ := rest.exists_cons
    exact .cons least (ih (corner.cons_cons upper least))

theorem nextRow (isRow : Row p [] word row) (c : Char) :
    Row (c :: p) [] word (EditDistance.nextRow word row c) := by
  obtain ⟨first, others, rfl, least⟩ := isRow.exists_cons
  exact isRow.rowFrom (least.cons_nil c)

theorem foldl (isRow : Row p [] word row) (a : List Char) :
    Row (a.reverse ++ p) [] word (a.foldl (EditDistance.nextRow word) row) := by
  induction a generalizing p row with
  | nil => exact isRow
  | cons c rest ih => simpa using ih (isRow.nextRow c)

theorem range (least : Least n [] q) (word : List Char) :
    Row [] q word (List.range' n (word.length + 1)) := by
  induction word generalizing n q with
  | nil => exact .last least
  | cons d rest ih => exact .cons least (ih (least.symm.cons_nil d).symm)

theorem getLast (isRow : Row p q word row) : Least (row.getLastD 0) p (word.reverse ++ q) := by
  induction isRow with
  | last least => exact least
  | cons _ rest ih =>
    obtain ⟨first, others, rfl, -⟩ := rest.exists_cons
    simpa using ih

end Row

theorem least_byRows (a b : List Char) : Least (byRows a b) a b := by
  have first : Row [] [] b (List.range (b.length + 1)) := by
    rw [List.range_eq_range']
    exact Row.range Least.nil b
  have whole := (first.foldl a).getLast
  rw [List.append_nil, List.append_nil] at whole
  exact whole.reverse

theorem least_distance (a b : List Char) : Least (distance a b) a b := by
  unfold distance
  split
  · exact (least_byRows b a).symm
  · exact least_byRows a b

/-- The distance of two words is the least number of insertions, deletions and substitutions of single
characters that turn the one into the other. So it is the same in both directions, it is zero between equal
words only, and no detour is shorter. -/
theorem distance_is_least_edits (a b : List Char) :
    IsLeast {n | Edits n a b} (distance a b) ∧ distance b a = distance a b ∧
      (distance a b = 0 ↔ a = b) ∧ ∀ w, distance a w ≤ distance a b + distance b w := by
  have turns (a b : List Char) : Edits (distance a b) a b := .of_aligned (least_distance a b).1
  have fewest {a b : List Char} {n : Nat} (edits : Edits n a b) : distance a b ≤ n := by
    obtain ⟨k, few, aligned⟩ := Aligned.of_edits edits
    exact ((least_distance a b).2 aligned).trans few
  refine ⟨⟨turns a b, fun n edits => fewest edits⟩, ?_, ?_, ?_⟩
  · exact (least_distance b a).unique (least_distance a b).symm
  · constructor
    · intro zero
      have edits := turns a b
      rw [zero] at edits
      exact edits.eq_of_zero
    · rintro rfl
      have none := fewest (.none a)
      omega
  · intro w
    exact fewest ((turns a b).append (turns b w))

example : distance "total".toList "toll".toList = 2 := by decide

end Offside.EditDistance
