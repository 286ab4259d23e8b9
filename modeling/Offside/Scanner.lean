import Offside.Journal
import Offside.Segment

/-!
Tokens from source lines. Each line with content is compared with the widths of the open blocks:
a wider margin opens a block, a narrower one closes all wider blocks. A scan ends at the end of the
input, or at a line that would open more blocks than allowed; then the scanner can be run again, and
goes on behind the margin of that line.
-/

namespace Offside

/-- The widths of the open blocks, the innermost first. The base has width zero and is not listed. -/
abbrev Levels := List Nat

/-- A token, what happened while it was read, the blocks open afterwards, and the tokens of the same
margin that are still owed. -/
structure Pull where
  journal : List Entry
  token : Token
  levels : Levels
  owed : List Token
deriving DecidableEq, Repr

def Pull.depth (pull : Pull) : Nat := pull.levels.length

def Levels.top (levels : Levels) : Nat := levels.headD 0

/-- The widths that a margin closes, and the widths open after it. A wider margin opens a block. -/
def Levels.closedBy (levels : Levels) (width : Nat) : List Nat := levels.takeWhile (width < ·)

def Levels.after (levels : Levels) (width : Nat) : Levels :=
  if levels.top < width then width :: levels else levels.dropWhile (width < ·)

structure Scanner where
  file : String
  limit : Int
  levels : Levels
  lines : List Line
  final : Location
deriving DecidableEq, Repr

inductive Ending where
  | finished
  | overflow (problem : Diagnostic)
deriving DecidableEq, Repr

structure Scan where
  pulls : List Pull
  ending : Ending
  scanner : Scanner

namespace Scanner

def ofSource (file : String) (limit : Int) (source : String) : Scanner :=
  let parts := pieces source.toList
  { file, limit, levels := [], lines := Line.ofPieces 1 parts
    final := ⟨file, parts.length, (parts.getLastD []).length + 1⟩ }

def placeIn (file : String) (line : Line) (column : Nat) : Location := ⟨file, line.number, column⟩

def fault (file : String) (line : Line) (column : Nat) (cause : Cause) : Diagnostic :=
  ⟨cause, some (placeIn file line column), some line.quote⟩

def marginTokens (place : Location) (levels : Levels) (width : Nat) : List Token :=
  if levels.top < width then [⟨.indent, .none, place⟩]
  else (levels.closedBy width).map fun _ => ⟨.dedent, .none, place⟩

def marginJournal (file : String) (line : Line) (levels : Levels) : List Entry :=
  let width := line.width
  if levels.top < width then [.pushed line.number width]
  else
    let enclosing := (levels.after width).top
    (levels.closedBy width).map (.popped line.number) ++
      if enclosing = width then []
      else [.recorded (fault file line (line.column + width) (.misalignedDedent width enclosing))]

/-- Hands out tokens one after the other. Everything that happened happened before the first. -/
def handOut (levels : Levels) : List Entry → List Token → List Pull
  | _, [] => []
  | waiting, token :: owed => ⟨waiting, token, levels, owed⟩ :: handOut levels [] owed

def marginPulls (file : String) (line : Line) (levels : Levels) : List Pull :=
  handOut (levels.after line.width) (marginJournal file line levels)
    (marginTokens (placeIn file line (line.column + line.width)) levels line.width)

/-- The tokens of the segments of a line from a column on, and the end of the line. `waiting` is
what happened since the last token. -/
def bodyPulls (file : String) (line : Line) (levels : Levels) :
    Nat → List Entry → List Segment → List Pull
  | column, waiting, [] => [⟨waiting, ⟨.endOfLine, .none, placeIn file line column⟩, levels, []⟩]
  | column, waiting, segment :: rest =>
    let after := column + segment.text.length
    match segment, segment.token? with
    | _, some (kind, payload) =>
      let range := if segment.isOutOfRange then
          [.recorded (fault file line column (.numberOutOfRange (String.ofList segment.text)))]
        else []
      ⟨waiting ++ range, ⟨kind, payload, placeIn file line column⟩, levels, []⟩
        :: bodyPulls file line levels after [] rest
    | .stray char, none =>
      let unknown := .recorded (fault file line column (.unknownCharacter char))
      bodyPulls file line levels after (waiting ++ [unknown]) rest
    | _, none => bodyPulls file line levels after waiting rest

def linePulls (file : String) (levels : Levels) (line : Line) : List Pull :=
  let body := line.afterMargin
  marginPulls file line levels ++
    bodyPulls file line (levels.after line.width) body.column [] (Segment.all body.content)

def finalPulls (final : Location) : Levels → List Pull
  | [] => [⟨[], ⟨.endOfInput, .none, final⟩, [], []⟩]
  | width :: outer => ⟨[.closed width], ⟨.dedent, .none, final⟩, outer, []⟩ :: finalPulls final outer

def overflows (limit : Int) (levels : Levels) (width : Nat) : Bool :=
  levels.top < width && limit ≤ levels.length

def runLines (scanner : Scanner) : Levels → List Line → Scan
  | levels, [] =>
    ⟨finalPulls scanner.final levels, .finished, { scanner with levels := [], lines := [] }⟩
  | levels, line :: rest =>
    if line.isIdle then runLines scanner levels rest
    else if overflows scanner.limit levels line.width then
      let problem := fault scanner.file line (line.column + line.width) (.tooManyLevels scanner.limit)
      ⟨[], .overflow problem, { scanner with levels, lines := line.afterMargin :: rest }⟩
    else
      let later := runLines scanner (levels.after line.width) rest
      { later with pulls := linePulls scanner.file levels line ++ later.pulls }

def run (scanner : Scanner) : Scan := runLines scanner scanner.levels scanner.lines

end Scanner

namespace Scan

def tokens (scan : Scan) : List Token := scan.pulls.map Pull.token

def journal (scan : Scan) : List Entry := scan.pulls.flatMap Pull.journal

end Scan

end Offside
