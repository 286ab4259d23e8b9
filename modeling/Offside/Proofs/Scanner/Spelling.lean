import Offside.Proofs.Scanner.Lines
import Offside.Proofs.Scanner.Payload

/-!
Texts of one line that are made of known lexemes. What a text is cut into is told for every text that
may close it, so that the parts of a longer text compose; and a source of one such line is scanned to
the lexemes of the line and its end.
-/

namespace Offside

open C

namespace Segment

def isFaulty : Segment → Bool
  | stray _ => true
  | segment => segment.isOutOfRange

def lexeme? (segment : Segment) : Option Lexeme :=
  segment.token?.map fun (kind, payload) => Token.lexeme ⟨kind, payload, .top ""⟩

def lexemes? (text : List Char) : Option (List Lexeme) :=
  if (all text).any isFaulty then none else some ((all text).filterMap lexeme?)

theorem of_lexemes? {text : List Char} {lexemes : List Lexeme} (spelled : lexemes? text = some lexemes) :
    (all text).any isFaulty = false ∧ (all text).filterMap lexeme? = lexemes := by
  unfold lexemes? at spelled
  split at spelled
  next => cases spelled
  next sound => exact ⟨Bool.eq_false_iff.mpr sound, Option.some.inj spelled⟩

theorem lexemes?_of_next {c : Char} {cs rest : List Char} {segment : Segment}
    (cut : next c cs = (segment, rest)) (sound : segment.isFaulty = false) :
    lexemes? (c :: cs) = (lexemes? rest).map (segment.lexeme?.toList ++ ·) := by
  have parted : (segment :: all rest).filterMap lexeme? =
      segment.lexeme?.toList ++ (all rest).filterMap lexeme? := by
    cases found : segment.lexeme? with
    | none => rw [List.filterMap_cons_none found]; rfl
    | some lexeme => rw [List.filterMap_cons_some found]; rfl
  simp only [lexemes?, all_cons, cut, List.any_cons, sound, Bool.false_or, parted]
  split <;> rfl

theorem lexemes?_blank {c : Char} (blank : Line.isMargin c = true) (rest : List Char) :
    lexemes? (c :: rest) = lexemes? rest := by
  have skips {c : Char} (blank : Line.isMargin c = true) (rest : List Char) :
      lexemes? (c :: rest) = lexemes? (rest.dropWhile Line.isMargin) := by
    rw [lexemes?_of_next (by rw [next, if_pos blank]) rfl]
    exact Option.map_id'
  rw [skips blank]
  cases rest with
  | nil => rfl
  | cons d others =>
    by_cases more : Line.isMargin d = true
    · rw [skips more, List.dropWhile_cons_of_pos more]
    · rw [List.dropWhile_cons_of_neg more]

theorem lexemes?_openParen (rest : List Char) :
    lexemes? ('(' :: rest) = (lexemes? rest).map (Kind.openParen.bare :: ·) :=
  lexemes?_of_next rfl rfl

theorem lexemes?_closeParen (rest : List Char) :
    lexemes? (')' :: rest) = (lexemes? rest).map (Kind.closeParen.bare :: ·) :=
  lexemes?_of_next rfl rfl

/-- A text that is cut into these lexemes, whatever closes it. -/
def Spells (text : List Char) (lexemes : List Lexeme) : Prop :=
  ∀ rest, isClosed rest = true → lexemes? (text ++ rest) = (lexemes? rest).map (lexemes ++ ·)

theorem Spells.lexemes? {text : List Char} {lexemes : List Lexeme} (spells : Spells text lexemes) :
    lexemes? text = some lexemes := by
  have whole := spells [] rfl
  rw [List.append_nil] at whole
  rw [whole]
  exact congrArg some (List.append_nil lexemes)

theorem not_isMargin_of_class {p : Char → Bool} {c : Char} (inside : p c = true)
    (space : p ' ' = false) (tab : p '\t' = false) : ¬ Line.isMargin c = true := by
  simp [Line.isMargin, ne_of_class inside space, ne_of_class inside tab]

theorem spells_word (word : String) (identifier : isIdentifier word.toList = true) :
    Spells word.toList [Token.lexeme ⟨wordKind word, wordPayload word, .top ""⟩] := by
  intro rest closed
  rw [← String.ofList_toList (s := word)]
  generalize word.toList = text at identifier
  rw [String.toList_ofList]
  cases text with
  | nil => cases identifier
  | cons c part =>
    rw [isIdentifier, Bool.and_eq_true] at identifier
    obtain ⟨taken, left⟩ := takeWhile_closed identifier.2 closed rfl rfl rfl
    have cut : next c (part ++ rest) = (.word (c :: part), rest) := by
      rw [next, if_neg (not_isMargin_of_class identifier.1 rfl rfl),
        if_neg (ne_of_class identifier.1 rfl), if_pos identifier.1, taken, left]
    exact lexemes?_of_next cut rfl

theorem spells_name (text : String) (identifier : isIdentifier text.toList = true)
    (free : text ∉ keywords) : Spells text.toList [(.name, .text text)] := by
  have kind : wordKind text = .name ∧ wordPayload text = .text text := by
    simp only [keywords, List.mem_cons, List.not_mem_nil, or_false, not_or] at free
    simp [wordKind, wordPayload, free]
  have spells := spells_word text identifier
  rwa [kind.1, kind.2] at spells

theorem spells_integer {value : Nat} (within : value ≤ greatestInteger) :
    Spells (Nat.toDigits 10 value) [(.integer, .integer value)] := by
  intro rest closed
  have digits : (Nat.toDigits 10 value).all Char.isDigit = true :=
    List.all_eq_true.mpr fun c => isDigit_toDigits
  have reads : Binary64.digitsValue (Nat.toDigits 10 value) = value := Nat.ofDigitChars_ten_toDigits
  have pointless : fraction? rest = none := by
    cases rest with
    | nil => rfl
    | cons c after =>
      simp only [isClosed, Bool.or_eq_true, decide_eq_true_eq] at closed
      rcases closed with (rfl | rfl) | rfl <;> rfl
  cases written : Nat.toDigits 10 value with
  | nil => exact absurd written Nat.toDigits_ne_nil
  | cons c part =>
    rw [written] at digits reads
    rw [List.all_cons, Bool.and_eq_true] at digits
    obtain ⟨taken, left⟩ := takeWhile_closed digits.2 closed rfl rfl rfl
    have wordless : ¬ isWordStart c = true := by
      rw [not_isWordStart_of_isDigit digits.1]
      exact Bool.false_ne_true
    have cut : next c (part ++ rest) = (integer (c :: part), rest) := by
      rw [next, if_neg (not_isMargin_of_class digits.1 rfl rfl), if_neg (ne_of_class digits.1 rfl),
        if_neg wordless, if_pos digits.1]
      simp only [number, taken, left, pointless]
    have sound : (integer (c :: part)).isFaulty = false := by
      simp only [isFaulty, isOutOfRange, reads, decide_eq_false_iff_not]
      omega
    have lexeme : (integer (c :: part)).lexeme? = some (.integer, .integer value) := by
      have least : min (value : Int) (greatestInteger : Int) = value := by omega
      simp only [lexeme?, token?, reads, least, Option.map_some, Token.lexeme]
    have spelled := lexemes?_of_next cut sound
    rwa [lexeme] at spelled

theorem Spells.parens {text : List Char} {lexemes : List Lexeme} (spells : Spells text lexemes) :
    Spells ('(' :: text ++ [')']) (Kind.openParen.bare :: lexemes ++ [Kind.closeParen.bare]) := by
  intro rest _
  rw [List.append_assoc, List.cons_append, lexemes?_openParen, List.singleton_append, spells _ rfl,
    lexemes?_closeParen, Option.map_map, Option.map_map]
  congr 1
  funext later
  simp

theorem lexemes?_unaryOp (op : UnaryOp) (rest : List Char) :
    lexemes? (op.text.toList ++ rest) = (lexemes? rest).map (op.kind.bare :: ·) := by
  cases op with
  | negate => exact lexemes?_of_next rfl rfl
  | not =>
    have word := spells_word "not" rfl (' ' :: rest) rfl
    rwa [lexemes?_blank rfl] at word

theorem lexemes?_binaryOp (op : BinaryOp) (rest : List Char) :
    lexemes? (' ' :: op.text.toList ++ ' ' :: rest) = (lexemes? rest).map (op.kind.bare :: ·) := by
  rw [List.cons_append, lexemes?_blank rfl, ← lexemes?_blank (c := ' ') rfl rest]
  cases op with
  | and => exact spells_word "and" rfl (' ' :: rest) rfl
  | or => exact spells_word "or" rfl (' ' :: rest) rfl
  | _ => exact lexemes?_of_next rfl rfl

theorem Spells.unary {text : List Char} {lexemes : List Lexeme} (spells : Spells text lexemes)
    (op : UnaryOp) : Spells (op.text.toList ++ text) (op.kind.bare :: lexemes) := by
  intro rest closed
  rw [List.append_assoc, lexemes?_unaryOp, spells rest closed, Option.map_map]
  rfl

theorem Spells.binary {left right : List Char} {first second : List Lexeme}
    (spellsLeft : Spells left first) (spellsRight : Spells right second) (op : BinaryOp) :
    Spells (left ++ (' ' :: op.text.toList ++ ' ' :: right)) (first ++ op.kind.bare :: second) := by
  intro rest closed
  have between := lexemes?_binaryOp op (right ++ rest)
  rw [List.append_assoc, spellsLeft _ rfl]
  simp only [List.cons_append, List.append_assoc] at between ⊢
  rw [between, spellsRight rest closed, Option.map_map, Option.map_map]
  rfl

end Segment

namespace Scanner

theorem lexemes_bodyPulls (file : String) (line : Line) (levels : Levels) (column : Nat)
    {segments : List Segment} (sound : segments.any Segment.isFaulty = false) :
    ((bodyPulls file line levels column [] segments).map Pull.token).map Token.lexeme =
        segments.filterMap Segment.lexeme? ++ [Kind.endOfLine.bare] ∧
      ∀ pull ∈ bodyPulls file line levels column [] segments, pull.journal = [] := by
  induction segments generalizing column with
  | nil =>
    rw [bodyPulls, List.forall_mem_singleton]
    exact ⟨rfl, rfl⟩
  | cons segment rest ih =>
    rw [List.any_cons, Bool.or_eq_false_iff] at sound
    obtain ⟨lexemes, unread⟩ := ih (column + segment.text.length) sound.2
    have silent : segmentFaults file line column segment = [] := by
      cases segment with
      | stray char => cases sound.1
      | _ => simpa [segmentFaults, Segment.isFaulty] using sound.1
    rw [bodyPulls_segment, silent, List.append_nil]
    cases found : segment.token? with
    | none =>
      have nothing : segment.lexeme? = none := by rw [Segment.lexeme?, found]; rfl
      rw [List.filterMap_cons_none nothing]
      exact ⟨lexemes, unread⟩
    | some read =>
      have something : segment.lexeme? = some (Token.lexeme ⟨read.1, read.2, .top ""⟩) := by
        rw [Segment.lexeme?, found]
        rfl
      rw [List.filterMap_cons_some something, List.map_cons, List.map_cons, lexemes,
        List.forall_mem_cons]
      exact ⟨rfl, rfl, unread⟩

theorem exists_lines_of_single (file : String) (limit : Int) {text : List Char} {ending : String}
    (flat : '\n' ∉ text) (last : text.getLast? ≠ some '\r') (ends : ending ∈ ["", "\n"]) :
    ∃ rest, (ofSource file limit (String.ofList text ++ ending)).lines =
        ⟨1, quotedLine text, 1, text⟩ :: rest ∧ ∀ other ∈ rest, other.isIdle = true := by
  simp only [ofSource, String.toList_append, String.toList_ofList]
  simp only [List.mem_cons, List.not_mem_nil, or_false] at ends
  rcases ends with rfl | rfl
  · refine ⟨[], ?_, List.forall_mem_nil _⟩
    rw [show "".toList = [] from rfl, List.append_nil, pieces_of_flat flat]
    rfl
  · refine ⟨[⟨2, quotedLine [], 1, []⟩], ?_, by simp [Line.isIdle]⟩
    rw [show "\n".toList = ['\n'] from rfl, pieces_line flat]
    simp only [pieces, Line.ofPieces, dropReturn_of_last last, Nat.reduceAdd]

/-- A line that starts with a word, before lines without content, is scanned to its own tokens and the
end of the input. -/
theorem run_of_single_line {scanner : Scanner} {line : Line} {rest : List Line} {c : Char}
    {cs : List Char} (base : scanner.levels = []) (lines : scanner.lines = line :: rest)
    (content : line.content = c :: cs) (starts : Segment.isWordStart c = true)
    (idle : ∀ other ∈ rest, other.isIdle = true) :
    scanner.run.ending = .finished ∧ scanner.run.pulls =
      bodyPulls scanner.file line [] line.column [] (Segment.all line.content) ++
        finalPulls scanner.final [] := by
  have visible : ¬ Line.isMargin c = true := Segment.not_isMargin_of_class starts rfl rfl
  have width : line.width = 0 := by
    rw [Line.width, content, List.takeWhile_cons_of_neg visible]
    rfl
  have behind : line.content.dropWhile Line.isMargin = line.content := by
    rw [content, List.dropWhile_cons_of_neg visible]
  have busy : line.isIdle = false := by
    rw [Line.isIdle, behind, content]
    exact decide_eq_false (ne_of_class starts rfl)
  have body : line.afterMargin = line := by
    rw [Line.afterMargin, width, behind]
    rfl
  have pulls : linePulls scanner.file [] line =
      bodyPulls scanner.file line [] line.column [] (Segment.all line.content) := by
    rw [linePulls, body, marginPulls, width]
    rfl
  have later : runLines scanner [] rest =
      ⟨finalPulls scanner.final [], .finished, { scanner with levels := [], lines := [] }⟩ := by
    clear lines
    induction rest with
    | nil => rfl
    | cons other others ih =>
      rw [List.forall_mem_cons] at idle
      rw [runLines, if_pos idle.1, ih idle.2]
  rw [run, base, lines, runLines, if_neg (by rw [busy]; decide), if_neg (by rw [width]; exact Bool.false_ne_true), width,
    show Levels.after [] 0 = [] from rfl, later, pulls]
  exact ⟨rfl, rfl⟩

/-- A source of one line that starts with a word is scanned to the lexemes of the line, its end and the
end of the input, and nothing happens. -/
theorem exists_tokens_of_lexemes? (file : String) (limit : Int) {c : Char} {cs : List Char}
    {lexemes : List Lexeme} {ending : String} (spelled : Segment.lexemes? (c :: cs) = some lexemes)
    (starts : Segment.isWordStart c = true) (flat : ∀ d ∈ c :: cs, d ≠ '\n' ∧ d ≠ '\r')
    (ends : ending ∈ ["", "\n"]) :
    let scan := (ofSource file limit (String.ofList (c :: cs) ++ ending)).run
    scan.ending = .finished ∧ (∀ pull ∈ scan.pulls, pull.journal = []) ∧
      ∃ front last, scan.pulls.map Pull.token = front ++ [last] ∧
        front.map Token.lexeme = lexemes ++ [Kind.endOfLine.bare] ∧ last.kind = .endOfInput := by
  have last : (c :: cs).getLast? ≠ some '\r' := fun found => (flat _ (List.mem_of_getLast? found)).2 rfl
  obtain ⟨rest, lines, idle⟩ := exists_lines_of_single file limit (fun found => (flat _ found).1 rfl)
    last ends
  obtain ⟨done, pulls⟩ := run_of_single_line rfl lines rfl starts idle
  obtain ⟨sound, given⟩ := Segment.of_lexemes? spelled
  obtain ⟨read, unread⟩ := lexemes_bodyPulls file ⟨1, quotedLine (c :: cs), 1, c :: cs⟩ [] 1 sound
  rw [given] at read
  refine ⟨done, ?_, ?_⟩
  · rw [pulls, List.forall_mem_append, finalPulls, List.forall_mem_singleton]
    exact ⟨unread, rfl⟩
  · rw [pulls, List.map_append]
    exact ⟨_, _, rfl, read, rfl⟩

end Scanner

end Offside
