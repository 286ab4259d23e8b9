import Offside.Command.Disk
import Offside.Command.Run

/-!
The disk after a run of the command. A file that may be written is read back from its path, since it does
not stand in the way to itself, and nothing else on the disk changes.
-/

namespace Offside

namespace Disk

theorem item?_put_of_ne {disk : Disk} {names other : List String} (bytes : ByteArray)
    (apart : names ≠ other) : (disk.put names bytes).item? other = disk.item? other := by
  simp [item?, put, List.findRev?_eq_find?_reverse, apart]

theorem item?_put_self {disk : Disk} {names : List String} (bytes : ByteArray)
    (free : disk.item? names ≠ some .directory) :
    (disk.put names bytes).item? names = some (.file bytes) := by
  have below : isTop names = false := by
    cases top : isTop names with
    | false => rfl
    | true => simp [item?, top] at free
  simp [item?, put, List.findRev?_eq_find?_reverse, below]

/-- A file does not stand in the way to its own place: there are directories only on the way. -/
theorem locate_put {disk : Disk} {names : List String} (bytes : ByteArray)
    (free : disk.item? names ≠ some .directory) {here : List String} {parts : List String}
    (found : disk.locate here parts = .ok names) :
    (disk.put names bytes).locate here parts = .ok names := by
  induction parts generalizing here with
  | nil => exact found
  | cons part rest ih =>
    cases passed : disk.item? here with
    | none => simp only [locate, passed, reduceCtorEq] at found
    | some item =>
      cases item with
      | file other => simp only [locate, passed, reduceCtorEq] at found
      | directory =>
        have apart : names ≠ here := by
          rintro rfl
          exact free passed
        simp only [locate, item?_put_of_ne bytes apart, passed] at found ⊢
        split
        next blank =>
          rw [if_pos blank] at found
          exact ih found
        next named =>
          rw [if_neg named] at found
          split
          next up =>
            rw [if_pos up] at found
            exact ih found
          next down =>
            rw [if_neg down] at found
            split
            next long =>
              rw [if_pos long] at found
              cases found
            next short =>
              rw [if_neg short] at found
              exact ih found

theorem read_put {disk : Disk} {path : String} {names : List String} (bytes : ByteArray)
    (found : disk.place path = .ok names) (writable : disk.writeProblem? path = none) :
    (disk.put names bytes).read path = .ok bytes := by
  have free : disk.item? names ≠ some .directory := by
    intro taken
    simp only [writeProblem?, found, taken, reduceCtorEq] at writable
  have again : (disk.put names bytes).place path = .ok names := by
    unfold place at found ⊢
    split at found
    next => cases found
    next =>
      split at found
      next => cases found
      next given short =>
        rw [if_neg given, if_neg short]
        exact locate_put bytes free found
  simp only [read, again, bind, Except.bind, item?_put_self bytes free]

/-- The disk after a run: the file that the run writes is put at its place. -/
def after (disk : Disk) (outcome : Outcome) : Disk :=
  match outcome.written with
  | none => disk
  | some (path, text) =>
    match disk.place path with
    | .error _ => disk
    | .ok names => disk.put names text.toUTF8

/-- A run changes nothing on a disk but the file that it writes, and that holds the whole text. -/
theorem after_spec (disk : Disk) (outcome : Outcome) (writable : ∀ path text,
      outcome.written = some (path, text) → disk.writeProblem? path = none) :
    (outcome.written = none → disk.after outcome = disk) ∧
      ∀ path text, outcome.written = some (path, text) →
        (disk.after outcome).read path = .ok text.toUTF8 ∧
          ∀ names, disk.place path ≠ .ok names →
            (disk.after outcome).item? names = disk.item? names := by
  constructor
  · intro nothing
    simp only [after, nothing]
  · intro path text written
    have free := writable path text written
    cases found : disk.place path with
    | error problem => simp only [writeProblem?, found, reduceCtorEq] at free
    | ok names =>
      simp only [after, written, found]
      exact ⟨read_put _ found free, fun other apart => item?_put_of_ne _ fun same => apart (same ▸ rfl)⟩

end Disk

end Offside
