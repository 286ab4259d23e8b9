import Offside.Proofs.Binary64.Rounding
import Offside.Proofs.Scanner.Layout

/-!
The parts of a source text: blanks, comments, line ends, lexemes, and characters that start none of
these. What may stand before a text is said for each kind of part without the scanner: a lexeme that
the text would extend may not. The segments of a line are such parts.
-/

namespace Offside

def reservedWords : List (String × Kind × Payload) :=
  [("and", .andWord, .text "and"), ("break", .breakWord, .text "break"),
    ("elif", .elifWord, .text "elif"), ("else", .elseWord, .text "else"), ("if", .ifWord, .text "if"),
    ("not", .notWord, .text "not"), ("or", .orWord, .text "or"), ("while", .whileWord, .text "while"),
    ("True", .boolean, .integer 1), ("False", .boolean, .integer 0)]

def symbols : List (List Char × Kind) :=
  [(['=', '='], .equal), (['!', '='], .unequal), (['>', '='], .greaterEqual), (['<', '='], .lessEqual),
    (['='], .assign), (['>'], .greater), (['<'], .less), (['+'], .plus), (['-'], .minus),
    (['*'], .star), (['/'], .slash), (['('], .openParen), ([')'], .closeParen), ([','], .comma),
    ([':'], .colon)]

def startsWith (isOf : Char → Bool) (text : List Char) : Bool := text.head?.any isOf

def startsFraction : List Char → Bool
  | point :: c :: _ => point = '.' && c.isDigit
  | _ => false

def startsLineEnd : List Char → Bool
  | '\n' :: _ => true
  | '\r' :: '\n' :: _ => true
  | _ => false

def EndsLine (after : List Char) : Prop := after = [] ∨ startsLineEnd after = true

/-- A text up to a line end or the end of the source. No line end starts inside it. -/
structure ReachesLineEnd (text after : List Char) : Prop where
  inside : ∀ early late, text = early ++ late → late ≠ [] → startsLineEnd (late ++ after) = false
  ends : EndsLine after

/-- The lexemes, with the kinds and payloads of their tokens, before a text that extends none. -/
inductive Reads : List Char → Kind → Payload → List Char → Prop where
  | reserved {word : String} {kind : Kind} {payload : Payload} {rest : List Char} :
    (word, kind, payload) ∈ reservedWords → startsWith Segment.isWordPart rest = false →
      Reads word.toList kind payload rest
  | name {first : Char} {others rest : List Char} :
    Segment.isWordStart first = true → (∀ c ∈ others, Segment.isWordPart c = true) →
      (∀ entry ∈ reservedWords, String.ofList (first :: others) ≠ entry.1) →
      startsWith Segment.isWordPart rest = false →
      Reads (first :: others) .name (.text (String.ofList (first :: others))) rest
  | integer {digits rest : List Char} :
    digits ≠ [] → (∀ c ∈ digits, c.isDigit = true) → startsWith Char.isDigit rest = false →
      startsFraction rest = false →
      Reads digits .integer (.integer (min (Nat.ofDigitChars 10 digits 0) (2 ^ 63 - 1))) rest
  | float {whole fraction rest : List Char} {value : Binary64} :
    (∀ c ∈ whole, c.isDigit = true) → fraction ≠ [] → (∀ c ∈ fraction, c.isDigit = true) →
      startsWith Char.isDigit rest = false →
      Binary64.IsRounded
        ((Nat.ofDigitChars 10 (whole ++ fraction) 0 : ℚ) / 10 ^ fraction.length) value →
      Reads (whole ++ '.' :: fraction) .float (.float value) rest
  | symbol {text : List Char} {kind : Kind} {rest : List Char} :
    (text, kind) ∈ symbols →
      (text = ['='] ∨ text = ['<'] ∨ text = ['>'] → startsWith (· = '=') rest = false) →
      Reads text kind (.text (String.ofList text)) rest

structure StartsNothing (char : Char) (rest : List Char) : Prop where
  blank : char ≠ ' ' ∧ char ≠ '\t'
  comment : char ≠ '#'
  lineEnd : startsLineEnd (char :: rest) = false
  word : Segment.isWordStart char = false
  number : char.isDigit = false
  fraction : startsFraction (char :: rest) = false
  symbol : ∀ entry ∈ symbols, ¬ entry.1 <+: char :: rest

inductive Part where
  | blanks (text : List Char)
  | comment (text : List Char)
  | lineEnd (text : List Char)
  | lexeme (text : List Char) (kind : Kind) (payload : Payload)
  | unknown (char : Char)

namespace Part

def text : Part → List Char
  | blanks text | comment text | lineEnd text | lexeme text _ _ => text
  | unknown char => [char]

/-- Whether a part may stand before a text. -/
def Stands (rest : List Char) : Part → Prop
  | blanks text => text ≠ [] ∧ ∀ c ∈ text, c = ' ' ∨ c = '\t'
  | comment text => text.head? = some '#' ∧ ReachesLineEnd text rest
  | lineEnd text => text = ['\n'] ∨ text = ['\r', '\n']
  | lexeme text kind payload => Reads text kind payload rest
  | unknown char => StartsNothing char rest

/-- A text cut into parts, each of which may stand before what follows it. -/
inductive Cut : List Char → List Part → Prop where
  | nil : Cut [] []
  | cons {part : Part} {rest : List Char} {parts : List Part} :
    part.Stands rest → Cut rest parts → Cut (part.text ++ rest) (part :: parts)

theorem Cut.flatMap_text {text : List Char} {parts : List Part} (cut : Cut text parts) :
    parts.flatMap Part.text = text := by
  induction cut with
  | nil => rfl
  | cons stands later ih => rw [List.flatMap_cons, ih]

def ofSegment (segment : Segment) : Part :=
  match segment.token?, segment with
  | some (kind, payload), _ => lexeme segment.text kind payload
  | none, .stray char => unknown char
  | none, .comment text => comment text
  | none, _ => blanks segment.text

@[simp]
theorem text_ofSegment (segment : Segment) : (ofSegment segment).text = segment.text := by
  cases segment <;> rfl

end Part

theorem EndsLine.head {after : List Char} (ends : EndsLine after) :
    ∀ c ∈ after.head?, c = '\n' ∨ c = '\r' := by
  rcases ends with rfl | starts
  · simp
  · unfold startsLineEnd at starts
    split at starts <;> simp_all

theorem ReachesLineEnd.of_append {text early late after : List Char}
    (line : ReachesLineEnd text after) (split : text = early ++ late) : ReachesLineEnd late after := by
  refine ⟨fun first second parts some => ?_, line.ends⟩
  apply line.inside (early ++ first) second _ some
  rw [split, parts, List.append_assoc]

theorem reachesLineEnd {text after : List Char} (flat : '\n' ∉ text) (ends : EndsLine after)
    (whole : ∀ front, text = front ++ ['\r'] → after.head? ≠ some '\n') : ReachesLineEnd text after := by
  refine ⟨fun early late split some => ?_, ends⟩
  have flat' : '\n' ∉ late := fun found => flat (by rw [split]; exact List.mem_append_right _ found)
  cases late with
  | nil => contradiction
  | cons c more =>
    rw [List.mem_cons, not_or] at flat'
    cases more with
    | nil =>
      rw [List.singleton_append]
      unfold startsLineEnd
      split
      next same => exact absurd (List.cons.inj same).1.symm flat'.1
      next rest same =>
        obtain ⟨rfl, rfl⟩ := List.cons.inj same
        exact absurd rfl (whole early split)
      next => rfl
    | cons d others =>
      rw [List.mem_cons, not_or] at flat'
      rw [List.cons_append, List.cons_append]
      unfold startsLineEnd
      split
      next same => exact absurd (List.cons.inj same).1.symm flat'.1
      next rest same => exact absurd (List.cons.inj (List.cons.inj same).2).1.symm flat'.2.1
      next => rfl

theorem startsWith_append {isOf : Char → Bool} {rest after : List Char} (ends : EndsLine after)
    (feed : isOf '\n' = false) (return' : isOf '\r' = false) (none : startsWith isOf rest = false) :
    startsWith isOf (rest ++ after) = false := by
  cases rest with
  | cons c others => exact none
  | nil =>
    rw [List.nil_append]
    cases after with
    | nil => rfl
    | cons c others =>
      rcases ends.head c rfl with rfl | rfl
      · exact feed
      · exact return'

theorem startsWith_dropWhile (isOf : Char → Bool) (text : List Char) :
    startsWith isOf (text.dropWhile isOf) = false := by
  have head := List.head?_dropWhile_not isOf text
  unfold startsWith
  split at head
  next c found => simp [found, head]
  next empty => simp [empty]

theorem startsFraction_append {rest after : List Char} (ends : EndsLine after)
    (none : startsFraction rest = false) : startsFraction (rest ++ after) = false := by
  have single (point : Char) : startsFraction (point :: after) = false := by
    cases after with
    | nil => rfl
    | cons c others => rcases ends.head c rfl with rfl | rfl <;> simp [startsFraction]
  cases rest with
  | nil =>
    cases after with
    | nil => rfl
    | cons c others =>
      cases others with
      | nil => rfl
      | cons d more => rcases ends.head c rfl with rfl | rfl <;> rfl
  | cons point others =>
    cases others with
    | nil => exact single point
    | cons c more => exact none

namespace Segment

theorem startsFraction_of_none {text : List Char} (none : fraction? text = none) :
    startsFraction text = false := by
  unfold startsFraction
  split
  next point c rest =>
    by_cases dot : point = '.'
    · subst dot
      simpa [fraction?] using none
    · simp [dot]
  next => rfl

theorem of_fraction? {text fraction rest : List Char} (some : fraction? text = some (fraction, rest)) :
    text = '.' :: fraction ++ rest ∧ fraction ≠ [] ∧ (∀ c ∈ fraction, c.isDigit = true) ∧
      startsWith Char.isDigit rest = false := by
  unfold fraction? at some
  split at some
  next c others =>
    split at some
    next digit =>
      cases some
      refine ⟨?_, List.cons_ne_nil _ _, ?_, startsWith_dropWhile _ _⟩
      · rw [List.cons_append, List.cons_append, List.takeWhile_append_dropWhile]
      · rw [List.forall_mem_cons]
        exact ⟨digit, List.all_eq_true.mp List.all_takeWhile⟩
    next => cases some
  next => cases some

theorem reads_word {c : Char} (cs : List Char) {after : List Char} (starts : isWordStart c = true)
    (ends : EndsLine after) :
    Reads (c :: cs.takeWhile isWordPart) (wordKind (String.ofList (c :: cs.takeWhile isWordPart)))
      (wordPayload (String.ofList (c :: cs.takeWhile isWordPart)))
      (cs.dropWhile isWordPart ++ after) := by
  have stops : startsWith isWordPart (cs.dropWhile isWordPart ++ after) = false :=
    startsWith_append ends (by decide) (by decide) (startsWith_dropWhile _ _)
  have listed : ∀ entry ∈ reservedWords,
      wordKind entry.1 = entry.2.1 ∧ wordPayload entry.1 = entry.2.2 := by
    decide
  generalize written : c :: cs.takeWhile isWordPart = text
  by_cases reserved : ∃ entry ∈ reservedWords, String.ofList text = entry.1
  · obtain ⟨⟨word, kind, payload⟩, found, same⟩ := reserved
    obtain ⟨kindSame, payloadSame⟩ := listed _ found
    have read := Reads.reserved found stops
    rw [← show String.ofList text = word from same] at kindSame payloadSame read
    rw [String.toList_ofList] at read
    rw [kindSame, payloadSame]
    exact read
  · have free : ∀ entry ∈ reservedWords, String.ofList text ≠ entry.1 :=
      fun entry found same => reserved ⟨entry, found, same⟩
    have named : wordKind (String.ofList text) = .name ∧
        wordPayload (String.ofList text) = .text (String.ofList text) := by
      simp only [reservedWords, List.forall_mem_cons] at free
      simp [wordKind, wordPayload, free]
    rw [named.1, named.2]
    subst written
    exact .name starts (List.all_eq_true.mp List.all_takeWhile) free stops

theorem reads_float {whole fraction rest : List Char} (before : ∀ c ∈ whole, c.isDigit = true)
    (some : fraction ≠ []) (after : ∀ c ∈ fraction, c.isDigit = true)
    (stops : startsWith Char.isDigit rest = false) :
    (Part.ofSegment (float whole fraction)).Stands rest :=
  .float before some after stops (Binary64.isRounded_ofDigits whole fraction)

theorem text_number (c : Char) (cs : List Char) :
    (number c cs).1.text ++ (number c cs).2 = c :: cs := by
  have whole := List.takeWhile_append_dropWhile (p := Char.isDigit) (l := cs)
  unfold number
  dsimp only
  split
  next fraction rest found =>
    rw [(of_fraction? found).1, List.cons_append] at whole
    rw [text, List.append_assoc, List.cons_append, List.cons_append, whole]
  next => rw [text, List.cons_append, whole]

theorem stands_number {c : Char} (cs : List Char) {after : List Char} (digit : c.isDigit = true)
    (ends : EndsLine after) :
    (Part.ofSegment (number c cs).1).Stands ((number c cs).2 ++ after) := by
  have digits : ∀ d ∈ c :: cs.takeWhile Char.isDigit, d.isDigit = true := by
    rw [List.forall_mem_cons]
    exact ⟨digit, List.all_eq_true.mp List.all_takeWhile⟩
  unfold number
  dsimp only
  split
  next fraction rest found =>
    obtain ⟨-, some, each, stops⟩ := of_fraction? found
    exact reads_float digits some each (startsWith_append ends (by decide) (by decide) stops)
  next none =>
    exact .integer (List.cons_ne_nil _ _) digits
      (startsWith_append ends (by decide) (by decide) (startsWith_dropWhile _ _))
      (startsFraction_append ends (startsFraction_of_none none))

theorem mem_symbols_of_pair? {c : Char} {kind : Kind} (found : pair? c = some kind) :
    ([c, '='], kind) ∈ symbols := by
  unfold pair? at found
  split_ifs at found <;> cases found <;> subst_vars <;> decide

theorem mem_symbols_of_single? {c : Char} {kind : Kind} (found : single? c = some kind) :
    ([c], kind) ∈ symbols := by
  have listed : (['=', '>', '<', '+', '-', '*', '/', '(', ')', ',', ':'].all fun d =>
      (single? d).all fun kind => symbols.contains ([d], kind)) = true := by
    decide
  have known : c ∈ ['=', '>', '<', '+', '-', '*', '/', '(', ')', ',', ':'] := by
    by_contra other
    simp only [List.mem_cons, List.not_mem_nil, or_false, not_or] at other
    simp [single?, other] at found
  have contained := List.all_eq_true.mp listed c known
  rw [found, Option.all_some] at contained
  exact List.contains_iff_mem.mp contained

theorem text_symbolOrStray (c : Char) (cs : List Char) :
    (symbolOrStray c cs).1.text ++ (symbolOrStray c cs).2 = c :: cs := by
  unfold symbolOrStray
  split
  next => rfl
  next =>
    unfold singleOrStray
    split <;> rfl

theorem cases_of_mem_symbols {entry : List Char × Kind} (found : entry ∈ symbols) :
    (∃ c, entry.1 = [c] ∧ single? c ≠ none) ∨ ∃ c kind, entry.1 = [c, '='] ∧ pair? c = some kind := by
  have each : ∀ entry ∈ symbols, entry.1.head?.bind single? ≠ none ∧ entry.1.tail = [] ∨
      (entry.1.head?.bind pair?).isSome ∧ entry.1.tail = ['='] := by
    decide
  obtain ⟨text, kind⟩ := entry
  cases text with
  | nil => rcases each _ found with ⟨single, -⟩ | ⟨-, tail⟩ <;> simp_all
  | cons c others =>
    rcases each _ found with ⟨single, tail⟩ | ⟨pair, tail⟩
    · exact .inl ⟨c, congrArg (c :: ·) tail, single⟩
    · obtain ⟨kind, pair⟩ := Option.isSome_iff_exists.mp pair
      exact .inr ⟨c, kind, congrArg (c :: ·) tail, pair⟩

/-- Where a character that could start a pair starts none, no equals sign follows. -/
theorem startsWith_of_unpaired {c : Char} {kind : Kind} {cs after : List Char}
    (unpaired : ∀ kind rest, pair? c = some kind → cs = '=' :: rest → False)
    (pair : pair? c = some kind) (ends : EndsLine after) :
    startsWith (· = '=') (cs ++ after) = false := by
  refine startsWith_append ends (by decide) (by decide) ?_
  cases cs with
  | nil => rfl
  | cons d others =>
    have other : d ≠ '=' := by
      rintro rfl
      exact unpaired kind others pair rfl
    simpa [startsWith] using other

theorem stands_symbolOrStray {c : Char} {cs after : List Char} (inside : Line.isMargin c = false)
    (read : c ≠ '#') (wordless : isWordStart c = false) (digitless : c.isDigit = false)
    (pointless : fraction? (c :: cs) = none) (line : ReachesLineEnd (c :: cs) after) :
    (Part.ofSegment (symbolOrStray c cs).1).Stands ((symbolOrStray c cs).2 ++ after) := by
  unfold symbolOrStray
  split
  next kind rest found =>
    refine .symbol (mem_symbols_of_pair? found) ?_
    rintro (same | same | same) <;> cases same
  next unpaired =>
    unfold singleOrStray
    split
    next kind found =>
      refine .symbol (mem_symbols_of_single? found) ?_
      rintro (same | same | same) <;> cases same <;>
        exact startsWith_of_unpaired unpaired rfl line.ends
    next none =>
      refine ⟨?_, read, ?_, wordless, digitless, ?_, ?_⟩
      · simpa [Line.isMargin] using inside
      · exact line.inside [] _ rfl (List.cons_ne_nil _ _)
      · exact startsFraction_append line.ends (startsFraction_of_none pointless)
      · intro entry found before
        rcases cases_of_mem_symbols found with ⟨d, text, single⟩ | ⟨d, kind, text, pair⟩
        · rw [text, List.cons_prefix_cons] at before
          rw [before.1] at single
          exact single none
        · rw [text, List.cons_prefix_cons] at before
          rw [before.1] at pair
          have stops := startsWith_of_unpaired unpaired pair line.ends
          obtain ⟨more, same⟩ := before.2
          rw [← same] at stops
          cases stops

theorem text_next (c : Char) (cs : List Char) : (next c cs).1.text ++ (next c cs).2 = c :: cs := by
  unfold next
  split
  next => rw [text, List.cons_append, List.takeWhile_append_dropWhile]
  split
  next => rw [text, List.append_nil]
  split
  next => rw [text, List.cons_append, List.takeWhile_append_dropWhile]
  split
  next => exact text_number c cs
  split
  next fraction rest found => exact (of_fraction? found).1.symm
  next => exact text_symbolOrStray c cs

theorem stands_next {c : Char} {cs after : List Char} (line : ReachesLineEnd (c :: cs) after) :
    (Part.ofSegment (next c cs).1).Stands ((next c cs).2 ++ after) := by
  unfold next
  split
  next margin =>
    refine ⟨List.cons_ne_nil _ _, ?_⟩
    have each : ∀ d ∈ c :: cs.takeWhile Line.isMargin, Line.isMargin d = true := by
      rw [List.forall_mem_cons]
      exact ⟨margin, List.all_eq_true.mp List.all_takeWhile⟩
    intro d found
    simpa [Line.isMargin] using each d found
  next inside =>
  split
  next comment => exact ⟨congrArg some comment, line⟩
  next read =>
  split
  next starts => exact reads_word cs starts line.ends
  next wordless =>
  split
  next digit => exact stands_number cs digit line.ends
  next digitless =>
  rw [Bool.not_eq_true] at inside wordless digitless
  split
  next fraction rest found =>
    obtain ⟨-, some, each, stops⟩ := of_fraction? found
    exact reads_float (List.forall_mem_nil _) some each
      (startsWith_append line.ends (by decide) (by decide) stops)
  next pointless => exact stands_symbolOrStray inside read wordless digitless pointless line

theorem text_next_ne_nil (c : Char) (cs : List Char) : (next c cs).1.text ≠ [] := by
  have number' : (number c cs).1.text ≠ [] := by
    unfold number
    dsimp only
    split <;> exact List.cons_ne_nil _ _
  have symbol' : (symbolOrStray c cs).1.text ≠ [] := by
    unfold symbolOrStray singleOrStray
    split
    · exact List.cons_ne_nil _ _
    · dsimp only
      split <;> exact List.cons_ne_nil _ _
  unfold next
  split_ifs
  · exact List.cons_ne_nil _ _
  · exact List.cons_ne_nil _ _
  · exact List.cons_ne_nil _ _
  · exact number'
  · split
    · exact List.cons_ne_nil _ _
    · exact symbol'

theorem length_next_le (c : Char) (cs : List Char) : (next c cs).2.length ≤ cs.length := by
  have whole := congrArg List.length (text_next c cs)
  have some : 0 < (next c cs).1.text.length := by
    rw [List.length_pos_iff]
    exact text_next_ne_nil c cs
  rw [List.length_append, List.length_cons] at whole
  omega

theorem upTo_eq_all {count : Nat} {text : List Char} (enough : text.length ≤ count) :
    upTo count text = all text := by
  unfold all
  generalize least : text.length = bound
  have exact' : text.length ≤ bound := by omega
  clear least
  induction count generalizing bound text with
  | zero =>
    rw [List.length_eq_zero_iff.mp (Nat.le_zero.mp enough)]
    cases bound <;> rfl
  | succ count ih =>
    cases text with
    | nil => cases bound <;> rfl
    | cons c cs =>
      obtain ⟨smaller, rfl⟩ : ∃ smaller, bound = smaller + 1 := by
        rw [List.length_cons] at exact'
        exact ⟨bound - 1, by omega⟩
      have shorter := length_next_le c cs
      rw [List.length_cons] at enough exact'
      rw [upTo, upTo, ih (by omega) smaller (by omega)]

theorem all_cons (c : Char) (cs : List Char) : all (c :: cs) = (next c cs).1 :: all (next c cs).2 := by
  rw [all, List.length_cons, upTo, upTo_eq_all (length_next_le c cs)]

theorem flatMap_text_upTo {count : Nat} {content : List Char} (enough : content.length ≤ count) :
    (upTo count content).flatMap text = content := by
  fun_induction upTo count content with
  | case1 content => exact (List.length_eq_zero_iff.mp (Nat.le_zero.mp enough)).symm
  | case2 count => rfl
  | case3 count c cs step ih =>
    have shorter : step.2.length ≤ count :=
      Nat.le_trans (length_next_le c cs) (Nat.le_of_succ_le_succ enough)
    rw [List.flatMap_cons, ih shorter]
    exact text_next c cs

@[simp]
theorem flatMap_text_all (content : List Char) : (all content).flatMap text = content :=
  flatMap_text_upTo (Nat.le_refl _)

/-- The segments of the rest of a line, and then the parts of the text after it. -/
theorem cut_upTo {count : Nat} {content after : List Char} {parts : List Part}
    (enough : content.length ≤ count) (line : ReachesLineEnd content after)
    (later : Part.Cut after parts) :
    Part.Cut (content ++ after) ((upTo count content).map Part.ofSegment ++ parts) := by
  fun_induction upTo count content with
  | case1 content =>
    rw [List.length_eq_zero_iff.mp (Nat.le_zero.mp enough)]
    exact later
  | case2 count => exact later
  | case3 count c cs step ih =>
    have whole : step.1.text ++ step.2 = c :: cs := text_next c cs
    have shorter : step.2.length ≤ count :=
      Nat.le_trans (length_next_le c cs) (Nat.le_of_succ_le_succ enough)
    have cut := Part.Cut.cons (stands_next line) (ih shorter (line.of_append whole.symm))
    rw [Part.text_ofSegment, ← List.append_assoc, text_next] at cut
    exact cut

theorem cut_all {content after : List Char} {parts : List Part} (line : ReachesLineEnd content after)
    (later : Part.Cut after parts) :
    Part.Cut (content ++ after) ((all content).map Part.ofSegment ++ parts) :=
  cut_upTo (Nat.le_refl _) line later

end Segment

theorem exists_lineEnd {piece : List Char} (flat : '\n' ∉ piece) (after : List Char) :
    ∃ ending, (ending = ['\n'] ∨ ending = ['\r', '\n']) ∧
      dropReturn piece ++ ending = piece ++ ['\n'] ∧
      '\n' ∉ dropReturn piece ∧ ReachesLineEnd (dropReturn piece) (ending ++ after) := by
  unfold dropReturn
  split
  next rest reversed =>
    have whole : piece = rest.reverse ++ ['\r'] := by
      rw [← List.reverse_reverse piece, reversed, List.reverse_cons]
    have flat' : '\n' ∉ rest.reverse := fun found =>
      flat (by rw [whole]; exact List.mem_append_left _ found)
    refine ⟨['\r', '\n'], .inr rfl, by rw [whole, List.append_assoc]; rfl, flat', ?_⟩
    exact reachesLineEnd flat' (.inr rfl) fun _ _ => by simp
  next kept =>
    refine ⟨['\n'], .inl rfl, rfl, flat, reachesLineEnd flat (.inr rfl) fun front ends => ?_⟩
    exact absurd (by rw [ends, List.reverse_append]; rfl) (kept front.reverse)

theorem flat_of_mem_pieces (text : List Char) : ∀ piece ∈ pieces text, '\n' ∉ piece := by
  fun_induction pieces text with
  | case1 => simp
  | case2 rest ih =>
    rw [List.forall_mem_cons]
    exact ⟨List.not_mem_nil, ih⟩
  | case3 c rest other none ih =>
    rw [List.forall_mem_singleton, List.mem_singleton]
    exact fun same => other same.symm
  | case4 c rest other piece others same ih =>
    rw [same, List.forall_mem_cons] at ih
    rw [List.forall_mem_cons, List.mem_cons, not_or]
    exact ⟨⟨fun same => other same.symm, ih.1⟩, ih.2⟩

theorem pieces_ne_nil (text : List Char) : pieces text ≠ [] := by
  fun_cases pieces text <;> exact List.cons_ne_nil _ _

theorem intercalate_pieces (text : List Char) : ['\n'].intercalate (pieces text) = text := by
  fun_induction pieces text with
  | case1 => rfl
  | case2 rest ih =>
    cases same : pieces rest with
    | nil => exact absurd same (pieces_ne_nil rest)
    | cons piece others =>
      rw [same] at ih
      rw [List.intercalate_cons_cons, ih]
      rfl
  | case3 c rest other none ih => exact absurd none (pieces_ne_nil rest)
  | case4 c rest other piece others same ih =>
    rw [same] at ih
    cases others with
    | nil =>
      rw [List.intercalate_singleton] at ih ⊢
      rw [ih]
    | cons next more =>
      rw [List.intercalate_cons_cons] at ih ⊢
      rw [List.cons_append, List.cons_append, ih]

end Offside
