import Offside.Segment

/-!
The tokens of C text. At each place the longest token is taken, so that two minus signs without a
blank between them are one mark, and a sign after the exponent mark of a number belongs to the number.
-/

namespace Offside.C

inductive Token where
  | word (text : String)
  | number (text : String)
  | mark (text : String)
deriving DecidableEq, Repr

/-- The marks of C and the two that open a comment, the longest first. -/
def marks : List String :=
  ["%:%:", "...", "<<=", ">>=", "->", "++", "--", "<<", ">>", "<=", ">=", "==", "!=", "&&", "||",
    "*=", "/=", "%=", "+=", "-=", "&=", "^=", "|=", "##", "<:", ":>", "<%", "%>", "%:", "//", "/*",
    "[", "]", "(", ")", "\x7b", "\x7d", ".", "&", "*", "+", "-", "~", "!", "/", "%", "<", ">", "^",
    "|", "?", ":", ";", "=", ",", "#"]

def mark? (text : List Char) : Option String := marks.find? fun mark => mark.toList.isPrefixOf text

def isBlank (c : Char) : Bool := c = ' ' || c = '\t' || c = '\n' || c = '\r'

/-- Whether a number goes on with `c` after `before`: letters, digits and points belong to it, and a
sign after the mark of an exponent does. -/
def continuesNumber (before c : Char) : Bool :=
  Segment.isWordPart c || c = '.' ||
    ((c = '+' || c = '-') && (before = 'e' || before = 'E' || before = 'p' || before = 'P'))

def numberRest (before : Char) : List Char → List Char × List Char
  | [] => ([], [])
  | c :: rest =>
    if continuesNumber before c then (c :: (numberRest c rest).1, (numberRest c rest).2)
    else ([], c :: rest)

def startsNumber (c : Char) (rest : List Char) : Bool :=
  c.isDigit || (c = '.' && rest.head?.any Char.isDigit)

def next? (c : Char) (rest : List Char) : Option (Token × List Char) :=
  if Segment.isWordStart c then
    some (.word (String.ofList (c :: rest.takeWhile Segment.isWordPart)),
      rest.dropWhile Segment.isWordPart)
  else if startsNumber c rest then
    some (.number (String.ofList (c :: (numberRest c rest).1)), (numberRest c rest).2)
  else (mark? (c :: rest)).map fun mark => (.mark mark, (c :: rest).drop mark.toList.length)

theorem numberRest_length (before : Char) (text : List Char) :
    (numberRest before text).2.length ≤ text.length := by
  fun_induction numberRest before text with
  | case1 => exact Nat.le_refl _
  | case2 before c rest continues ih => exact Nat.le_succ_of_le ih
  | case3 => exact Nat.le_refl _

theorem next?_length {c : Char} {rest after : List Char} {token : Token}
    (found : next? c rest = some (token, after)) : after.length ≤ rest.length := by
  unfold next? at found
  split at found
  next =>
    cases found
    exact (List.dropWhile_sublist _).length_le
  split at found
  next =>
    cases found
    exact numberRest_length c rest
  next =>
    obtain ⟨mark, listed, same⟩ := Option.map_eq_some_iff.mp found
    cases same
    have visible : ∀ mark ∈ marks, 0 < mark.toList.length := by decide
    have := visible mark (List.mem_of_find?_eq_some listed)
    rw [List.length_drop, List.length_cons]
    omega

def tokens? : List Char → Option (List Token)
  | [] => some []
  | c :: rest =>
    if isBlank c then tokens? rest
    else
      match _found : next? c rest with
      | some (token, after) => (tokens? after).map (token :: ·)
      | none => none
termination_by text => text.length
decreasing_by
  · exact Nat.lt_succ_self _
  · exact Nat.lt_succ_of_le (next?_length _found)

theorem tokens?_blank {c : Char} (blank : isBlank c = true) (rest : List Char) :
    tokens? (c :: rest) = tokens? rest := by
  rw [tokens?, if_pos blank]

theorem tokens?_cons {c : Char} {rest after : List Char} {token : Token}
    (visible : isBlank c = false) (found : next? c rest = some (token, after)) :
    tokens? (c :: rest) = (tokens? after).map (token :: ·) := by
  rw [tokens?, if_neg (by simp [visible])]
  split
  next other behind same =>
    rw [found] at same
    cases same
    rfl
  next none =>
    rw [found] at none
    cases none

/-- Whether a text cannot go on with a word or a number: it is empty, or starts with a blank, a
closing parenthesis or a semicolon. -/
def isClosed : List Char → Bool
  | [] => true
  | c :: _ => c = ' ' || c = ')' || c = ';'

def isIdentifier : List Char → Bool
  | [] => false
  | c :: rest => Segment.isWordStart c && rest.all Segment.isWordPart

def isNumeral : List Char → Bool
  | [] => false
  | c :: rest => c.isDigit && numberRest c rest = (rest, [])

theorem ne_of_class {p : Char → Bool} {c other : Char} (inside : p c = true)
    (outside : p other = false) : c ≠ other := by
  rintro rfl
  rw [outside] at inside
  cases inside

theorem visible_of_class {p : Char → Bool} {c : Char} (inside : p c = true)
    (outside : [' ', '\t', '\n', '\r'].any p = false) : isBlank c = false := by
  have apart : ∀ blank ∈ [' ', '\t', '\n', '\r'], c ≠ blank := fun blank found =>
    ne_of_class inside (by simpa using List.any_eq_false.mp outside blank found)
  simp only [List.forall_mem_cons, List.not_mem_nil, false_implies, implies_true, and_true] at apart
  simp [isBlank, apart]

theorem not_isWordStart_of_isDigit {c : Char} (digit : c.isDigit = true) :
    Segment.isWordStart c = false := by
  have noUnderscore : c ≠ '_' := ne_of_class digit rfl
  change (decide (48 ≤ c.val) && decide (c.val ≤ 57)) = true at digit
  have noUpper : c.isUpper = false := by
    change decide (65 ≤ c.val ∧ c.val ≤ 90) = false
    simp [UInt32.le_iff_toNat_le] at digit ⊢
    omega
  have noLower : c.isLower = false := by
    change (decide (97 ≤ c.val) && decide (c.val ≤ 122)) = false
    simp [UInt32.le_iff_toNat_le] at digit ⊢
    omega
  change (c.isUpper || c.isLower || decide (c = '_')) = false
  simp [noUpper, noLower, noUnderscore]

theorem isWordPart_of_isWordStart {c : Char} (starts : Segment.isWordStart c = true) :
    Segment.isWordPart c = true := by
  simp only [Segment.isWordStart, Segment.isWordPart, Char.isAlphanum, Bool.or_eq_true] at starts ⊢
  exact starts.imp_left .inl

theorem isWordPart_of_isIdentifier {text : List Char} (identifier : isIdentifier text = true) :
    ∀ c ∈ text, Segment.isWordPart c = true := by
  cases text with
  | nil => exact List.forall_mem_nil _
  | cons c rest =>
    rw [isIdentifier, Bool.and_eq_true, List.all_eq_true] at identifier
    rw [List.forall_mem_cons]
    exact ⟨isWordPart_of_isWordStart identifier.1, identifier.2⟩

theorem exists_continues_of_mem {text : List Char} (numeral : isNumeral text = true) :
    ∀ c ∈ text, ∃ before, continuesNumber before c = true := by
  have later {before : Char} {rest : List Char} (whole : numberRest before rest = (rest, [])) :
      ∀ c ∈ rest, ∃ before, continuesNumber before c = true := by
    induction rest generalizing before with
    | nil => exact List.forall_mem_nil _
    | cons first others ih =>
      rw [numberRest] at whole
      split at whole
      next continues =>
        simp only [Prod.mk.injEq, List.cons.injEq, true_and] at whole
        rw [List.forall_mem_cons]
        exact ⟨⟨before, continues⟩, ih (Prod.ext whole.1 whole.2)⟩
      next => cases whole
  cases text with
  | nil => cases numeral
  | cons first rest =>
    rw [isNumeral, Bool.and_eq_true, decide_eq_true_eq] at numeral
    rw [List.forall_mem_cons]
    refine ⟨⟨first, ?_⟩, later numeral.2⟩
    simp [continuesNumber, Segment.isWordPart, Char.isAlphanum, numeral.1]

theorem takeWhile_closed {p : Char → Bool} {text rest : List Char} (whole : text.all p = true)
    (closed : isClosed rest = true) (blank : p ' ' = false) (closing : p ')' = false)
    (ending : p ';' = false) :
    (text ++ rest).takeWhile p = text ∧ (text ++ rest).dropWhile p = rest := by
  rw [List.all_eq_true] at whole
  rw [List.takeWhile_append_of_pos whole, List.dropWhile_append_of_pos whole]
  cases rest with
  | nil => simp
  | cons c after =>
    have stops : p c = false := by
      simp only [isClosed, Bool.or_eq_true, decide_eq_true_eq] at closed
      rcases closed with (rfl | rfl) | rfl
      · exact blank
      · exact closing
      · exact ending
    simp [stops]

theorem tokens?_word {text rest : List Char} (identifier : isIdentifier text = true)
    (closed : isClosed rest = true) :
    tokens? (text ++ rest) = (tokens? rest).map (.word (String.ofList text) :: ·) := by
  cases text with
  | nil => cases identifier
  | cons c part =>
    rw [isIdentifier, Bool.and_eq_true] at identifier
    obtain ⟨taken, left⟩ := takeWhile_closed identifier.2 closed rfl rfl rfl
    refine tokens?_cons (visible_of_class identifier.1 rfl) ?_
    rw [List.append_eq, next?, if_pos identifier.1, taken, left]

theorem numberRest_closed {before : Char} {text rest : List Char}
    (whole : numberRest before text = (text, [])) (closed : isClosed rest = true) :
    numberRest before (text ++ rest) = (text, rest) := by
  induction text generalizing before with
  | nil =>
    cases rest with
    | nil => rfl
    | cons c after =>
      have stops : continuesNumber before c = false := by
        simp only [isClosed, Bool.or_eq_true, decide_eq_true_eq] at closed
        rcases closed with (rfl | rfl) | rfl <;> rfl
      rw [List.nil_append, numberRest, if_neg (by simp [stops])]
  | cons c part ih =>
    rw [numberRest] at whole
    split at whole
    next continues =>
      simp only [Prod.mk.injEq, List.cons.injEq, true_and] at whole
      rw [List.cons_append, numberRest, if_pos continues, ih (Prod.ext whole.1 whole.2)]
    next => cases whole

theorem tokens?_number {text rest : List Char} (numeral : isNumeral text = true)
    (closed : isClosed rest = true) :
    tokens? (text ++ rest) = (tokens? rest).map (.number (String.ofList text) :: ·) := by
  cases text with
  | nil => cases numeral
  | cons c part =>
    rw [isNumeral, Bool.and_eq_true, decide_eq_true_eq] at numeral
    refine tokens?_cons (visible_of_class numeral.1 rfl) ?_
    rw [List.append_eq, next?, if_neg (by simp [not_isWordStart_of_isDigit numeral.1]),
      if_pos (by simp [startsNumber, numeral.1]), numberRest_closed numeral.2 closed]

theorem tokens?_mark {c : Char} {rest after : List Char} {mark : String} (visible : isBlank c = false)
    (noWord : Segment.isWordStart c = false) (noNumber : startsNumber c rest = false)
    (found : mark? (c :: rest) = some mark) (behind : (c :: rest).drop mark.toList.length = after) :
    tokens? (c :: rest) = (tokens? after).map (.mark mark :: ·) := by
  refine tokens?_cons visible ?_
  rw [next?, if_neg (by simp [noWord]), if_neg (by simp [noNumber]), found, Option.map_some, behind]

theorem tokens?_openParen (rest : List Char) :
    tokens? ('(' :: rest) = (tokens? rest).map (.mark "(" :: ·) :=
  tokens?_mark rfl rfl rfl rfl rfl

theorem tokens?_closeParen (rest : List Char) :
    tokens? (')' :: rest) = (tokens? rest).map (.mark ")" :: ·) :=
  tokens?_mark rfl rfl rfl rfl rfl

theorem tokens?_exclamation {c : Char} (apart : c ≠ '=') (rest : List Char) :
    tokens? ('!' :: c :: rest) = (tokens? (c :: rest)).map (.mark "!" :: ·) := by
  refine tokens?_mark rfl rfl rfl ?_ rfl
  simp [mark?, marks, List.isPrefixOf, apart.symm]

/-- A minus sign stands alone unless a second one, an equals sign or an arrow head follows. -/
theorem tokens?_minus {c : Char} (single : c ≠ '-') (noAssign : c ≠ '=') (noArrow : c ≠ '>')
    (rest : List Char) :
    tokens? ('-' :: c :: rest) = (tokens? (c :: rest)).map (.mark "-" :: ·) := by
  refine tokens?_mark rfl rfl rfl ?_ rfl
  simp [mark?, marks, List.isPrefixOf, single.symm, noAssign.symm, noArrow.symm]

end Offside.C
