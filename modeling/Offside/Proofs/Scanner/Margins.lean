import Mathlib.Data.List.Forall2
import Mathlib.Order.Monotone.Basic
import Offside.Proofs.Scanner.Relocation

/-!
Scans of lines that have got other margins. The widths of the open blocks are compared with each other
and with the width of the next line, and with nothing else. When all widths are mapped by an increasing
function that keeps zero, the same blocks are opened and closed: the scan is the same at other places,
with its widths mapped.
-/

namespace Offside

def Cause.rewiden (f : Nat → Nat) : Cause → Cause
  | misalignedDedent width enclosing => misalignedDedent (f width) (f enclosing)
  | cause => cause

def Diagnostic.rewiden (f : Nat → Nat) (problem : Diagnostic) : Diagnostic :=
  { problem with cause := problem.cause.rewiden f }

def Entry.rewiden (f : Nat → Nat) : Entry → Entry
  | pushed line width => pushed line (f width)
  | popped line width => popped line (f width)
  | closed width => closed (f width)
  | recorded problem => recorded (problem.rewiden f)
  | entry => entry

def Pull.rewiden (f : Nat → Nat) (pull : Pull) : Pull :=
  { pull with journal := pull.journal.map (Entry.rewiden f), levels := pull.levels.map f }

def Pull.reindent (f : Nat → Nat) (relocation : Relocation) (pull : Pull) : Pull :=
  (pull.relocate relocation).rewiden f

theorem Diagnostic.rewiden_id (problem : Diagnostic) : problem.rewiden id = problem := by
  obtain ⟨cause, place, line⟩ := problem
  cases cause <;> rfl

theorem Pull.reindent_id (relocation : Relocation) :
    Pull.reindent id relocation = Pull.relocate relocation := by
  have entries (entry : Entry) : entry.rewiden id = entry := by
    cases entry with
    | recorded problem => exact congrArg Entry.recorded problem.rewiden_id
    | _ => rfl
  funext pull
  simp only [reindent, rewiden, List.map_id, List.map_id'' entries]

namespace Levels

variable {f : Nat → Nat} (increasing : StrictMono f) (base : f 0 = 0) (levels : Levels) (width : Nat)

include base in
theorem top_map : Levels.top (levels.map f) = f levels.top := by
  cases levels with
  | nil => exact base.symm
  | cons innermost outer => rfl

include increasing

theorem closedBy_map : Levels.closedBy (levels.map f) (f width) = (levels.closedBy width).map f := by
  simp only [closedBy, List.takeWhile_map]
  congr 2
  funext other
  simp only [Function.comp_apply, increasing.lt_iff_lt]

include base

theorem top_lt_map_iff : Levels.top (levels.map f) < f width ↔ levels.top < width := by
  rw [top_map base, increasing.lt_iff_lt]

theorem after_map : Levels.after (levels.map f) (f width) = (levels.after width).map f := by
  have wider := top_lt_map_iff increasing base levels width
  unfold after
  by_cases opens : levels.top < width
  · rw [if_pos opens, if_pos (wider.mpr opens), List.map_cons]
  · rw [if_neg opens, if_neg (mt wider.mp opens), List.dropWhile_map]
    congr 2
    funext other
    simp only [Function.comp_apply, increasing.lt_iff_lt]

end Levels

/-- A line that has got another margin: what follows the margin is the same, at the places that it has
come to, and the width of a line with content is mapped. -/
structure Line.Reindents (f : Nat → Nat) (file : String) (relocation : Relocation) (line line' : Line) :
    Prop where
  number : line'.number = relocation.renumber line.number
  rest : line'.content.dropWhile isMargin = line.content.dropWhile isMargin
  width : line.isIdle = false → line'.width = f line.width
  places : ∀ offset, relocation.move (Scanner.placeIn file line (line.column + line.width + offset)) =
    Scanner.placeIn file line' (line'.column + line'.width + offset)
  quoted : lineAt? relocation.lines line'.number = some line'.quote

namespace Line.Reindents

variable {f : Nat → Nat} {file : String} {relocation : Relocation} {line line' : Line}

theorem isIdle_eq (reindents : line.Reindents f file relocation line') : line'.isIdle = line.isIdle := by
  rw [isIdle, isIdle, reindents.rest]

theorem fault_eq (reindents : line.Reindents f file relocation line') (offset : Nat) (cause : Cause) :
    Scanner.fault file line' (line'.column + line'.width + offset) (cause.rewiden f) =
      ((Scanner.fault file line (line.column + line.width + offset) cause).relocate relocation).rewiden f := by
  simp only [Scanner.fault, Diagnostic.relocate, Diagnostic.rewiden, Option.map_some, Option.bind_some,
    reindents.places]
  exact congrArg _ reindents.quoted.symm

end Line.Reindents

namespace Scanner

variable {f : Nat → Nat} {file : String} {relocation : Relocation} {line line' : Line}

theorem reindent_handOut (levels : Levels) (waiting : List Entry) (tokens : List Token) :
    handOut (levels.map f) ((waiting.map (Entry.relocate relocation)).map (Entry.rewiden f))
        (tokens.map (Token.relocate relocation.move)) =
      (handOut levels waiting tokens).map (Pull.reindent f relocation) := by
  induction tokens generalizing waiting with
  | nil => rfl
  | cons token owed ih => exact congrArg (_ :: ·) (ih [])

theorem reindent_marginTokens (increasing : StrictMono f) (base : f 0 = 0) (levels : Levels) (width : Nat)
    (place : Location) :
    marginTokens (relocation.move place) (levels.map f) (f width) =
      (marginTokens place levels width).map (Token.relocate relocation.move) := by
  have wider := Levels.top_lt_map_iff increasing base levels width
  unfold marginTokens
  by_cases opens : levels.top < width
  · rw [if_pos opens, if_pos (wider.mpr opens)]
    rfl
  · rw [if_neg opens, if_neg (mt wider.mp opens), Levels.closedBy_map increasing, List.map_map, List.map_map]
    rfl

theorem reindent_marginJournal (increasing : StrictMono f) (base : f 0 = 0) (levels : Levels)
    (reindents : line.Reindents f file relocation line') (busy : line.isIdle = false) :
    marginJournal file line' (levels.map f) =
      ((marginJournal file line levels).map (Entry.relocate relocation)).map (Entry.rewiden f) := by
  have wider := Levels.top_lt_map_iff increasing base levels line.width
  have enclosing : Levels.top ((levels.after line.width).map f) = f (levels.after line.width).top :=
    Levels.top_map base _
  have told := reindents.fault_eq 0 (.misalignedDedent line.width (levels.after line.width).top)
  simp only [Nat.add_zero, Cause.rewiden, reindents.width busy] at told
  simp only [marginJournal, reindents.width busy, reindents.number, Levels.after_map increasing base,
    enclosing, told]
  by_cases opens : levels.top < line.width
  · rw [if_pos opens, if_pos (wider.mpr opens)]
    rfl
  · rw [if_neg opens, if_neg (mt wider.mp opens), Levels.closedBy_map increasing, List.map_append,
      List.map_append, List.map_map, List.map_map, List.map_map]
    by_cases aligned : (levels.after line.width).top = line.width
    · rw [if_pos aligned, if_pos (congrArg f aligned)]
      rfl
    · rw [if_neg aligned, if_neg fun same => aligned (increasing.injective same)]
      rfl

theorem reindent_marginPulls (increasing : StrictMono f) (base : f 0 = 0) (levels : Levels)
    (reindents : line.Reindents f file relocation line') (busy : line.isIdle = false) :
    marginPulls file line' (levels.map f) =
      (marginPulls file line levels).map (Pull.reindent f relocation) := by
  have place : placeIn file line' (line'.column + line'.width) =
      relocation.move (placeIn file line (line.column + line.width)) := (reindents.places 0).symm
  rw [marginPulls, marginPulls, place, reindents.width busy, Levels.after_map increasing base,
    reindent_marginTokens increasing base, reindent_marginJournal increasing base levels reindents busy,
    reindent_handOut]

theorem reindent_segmentFaults (reindents : line.Reindents f file relocation line') (offset : Nat)
    (segment : Segment) :
    segmentFaults file line' (line'.column + line'.width + offset) segment =
      ((segmentFaults file line (line.column + line.width + offset) segment).map
        (Entry.relocate relocation)).map (Entry.rewiden f) := by
  unfold segmentFaults
  split
  next char =>
    exact congrArg (fun problem => [Entry.recorded problem])
      (reindents.fault_eq offset (.unknownCharacter char))
  next =>
    split
    · exact congrArg (fun problem => [Entry.recorded problem])
        (reindents.fault_eq offset (.numberOutOfRange (String.ofList segment.text)))
    · rfl

theorem reindent_bodyPulls (levels : Levels) (reindents : line.Reindents f file relocation line')
    (offset : Nat) (waiting : List Entry) (segments : List Segment) :
    bodyPulls file line' (levels.map f) (line'.column + line'.width + offset)
        ((waiting.map (Entry.relocate relocation)).map (Entry.rewiden f)) segments =
      (bodyPulls file line levels (line.column + line.width + offset) waiting segments).map
        (Pull.reindent f relocation) := by
  induction segments generalizing offset waiting with
  | nil =>
    simp only [bodyPulls, ← reindents.places]
    rfl
  | cons segment rest ih =>
    have later (waiting : List Entry) := ih (offset + segment.text.length) waiting
    simp only [← Nat.add_assoc] at later
    rw [bodyPulls_segment, bodyPulls_segment, reindent_segmentFaults reindents, ← List.map_append,
      ← List.map_append]
    cases segment.token? with
    | none => exact later _
    | some lexeme =>
      dsimp only
      rw [List.map_cons, ← later [], ← reindents.places]
      rfl

theorem reindent_linePulls (increasing : StrictMono f) (base : f 0 = 0) (levels : Levels)
    (reindents : line.Reindents f file relocation line') (busy : line.isIdle = false) :
    linePulls file (levels.map f) line' =
      (linePulls file levels line).map (Pull.reindent f relocation) := by
  have body := reindent_bodyPulls (levels.after line.width) reindents 0 []
    (Segment.all line.afterMargin.content)
  have content : line'.afterMargin.content = line.afterMargin.content := reindents.rest
  rw [← Levels.after_map increasing base, ← reindents.width busy, ← content] at body
  rw [linePulls, linePulls, List.map_append, reindent_marginPulls increasing base levels reindents busy,
    ← content]
  exact congrArg _ body

theorem reindent_finalPulls (final : Location) (levels : Levels) :
    finalPulls (relocation.move final) (levels.map f) =
      (finalPulls final levels).map (Pull.reindent f relocation) := by
  induction levels with
  | nil => rfl
  | cons width outer ih => exact congrArg (_ :: ·) ih

theorem overflows_map (increasing : StrictMono f) (base : f 0 = 0) (limit : Int) (levels : Levels)
    (width : Nat) : overflows limit (levels.map f) (f width) = overflows limit levels width := by
  unfold overflows
  rw [Levels.top_map base, List.length_map]
  simp only [increasing.lt_iff_lt]

/-- A scan of lines that have got other margins is the same but for places and widths. The open blocks of
the one are at each line those of the other, mapped. -/
theorem reindent_runLines (increasing : StrictMono f) (base : f 0 = 0) (scanner scanner' : Scanner)
    (file : scanner'.file = scanner.file) (limit : scanner'.limit = scanner.limit)
    (final : scanner'.final = relocation.move scanner.final) {lines lines' : List Line}
    (reindented : List.Forall₂ (Line.Reindents f scanner.file relocation) lines lines') (levels : Levels) :
    (runLines scanner' (levels.map f) lines').pulls =
        (runLines scanner levels lines).pulls.map (Pull.reindent f relocation) ∧
      (runLines scanner' (levels.map f) lines').ending =
        (runLines scanner levels lines).ending.relocate relocation := by
  induction reindented generalizing levels with
  | nil => exact ⟨by rw [runLines, runLines, final, reindent_finalPulls], rfl⟩
  | @cons line line' rest rest' reindents later ih =>
    rw [runLines, runLines, reindents.isIdle_eq]
    by_cases idle : line.isIdle = true
    · rw [if_pos idle, if_pos idle]
      exact ih levels
    · have busy := Bool.eq_false_iff.mpr idle
      rw [if_neg idle, if_neg idle, limit, file, reindents.width busy, overflows_map increasing base]
      by_cases deep : overflows scanner.limit levels line.width = true
      · rw [if_pos deep, if_pos deep]
        have told := reindents.fault_eq 0 (.tooManyLevels scanner.limit)
        rw [reindents.width busy] at told
        exact ⟨rfl, congrArg Ending.overflow told⟩
      · rw [if_neg deep, if_neg deep]
        obtain ⟨pulls, ending⟩ := ih (levels.after line.width)
        rw [Levels.after_map increasing base]
        refine ⟨?_, ending⟩
        dsimp only
        rw [pulls, reindent_linePulls increasing base levels reindents busy, List.map_append]

end Scanner

end Offside
