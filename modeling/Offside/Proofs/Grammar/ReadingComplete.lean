import Offside.Proofs.Grammar.Canonical

/-!
The tokens of an ordered tree are read to that tree. What is read of a subtree is stated for all
openings around it, so that the cases compose.
-/

namespace Offside

theorem Expr.agrees_iff (a b : Expr) :
    a.agrees b = true ↔ a.relocate (fun _ => .top "") = b.relocate (fun _ => .top "") := by
  simp only [agrees, decide_eq_true_eq]

namespace Reading

theorem settle_of_admits {openings : List Opening} {op : BinaryOp}
    (admitted : ∀ opening ∈ openings.head?, opening.admits op = true) (operand : Expr) :
    settle (some op) openings operand = .ready openings operand := by
  cases openings with
  | nil => rfl
  | cons opening outer =>
    have inner := admitted opening rfl
    cases opening with
    | paren place => rfl
    | unary sign place => simp only [settle, Option.any_some, Opening.admits] at inner ⊢; rw [if_pos inner]
    | binary first left => simp only [settle, Option.any_some, Opening.admits] at inner ⊢; rw [if_pos inner]

def feedAll : Reading → List Token → Option Reading
  | reading, [] => some reading
  | reading, token :: rest =>
    match reading.feed token with
    | .more next => next.feedAll rest
    | _ => none

theorem feedAll_append {reading middle : Reading} {front : List Token}
    (first : reading.feedAll front = some middle) (back : List Token) :
    reading.feedAll (front ++ back) = middle.feedAll back := by
  induction front generalizing reading with
  | nil => cases first; rfl
  | cons token rest ih =>
    simp only [List.cons_append, feedAll] at first ⊢
    split at first
    next next fed => exact ih first
    next => cases first

theorem feedAll_cons {reading next : Reading} {token : Token} (fed : reading.feed token = .more next)
    (rest : List Token) : reading.feedAll (token :: rest) = next.feedAll rest := by
  simp only [feedAll, fed]

/-- The tokens are read to `result`, wherever the shape of `expr` fits: some openings are left, and
they are closed to `result` by whatever may follow. -/
def Reads (tokens : List Token) (expr result : Expr) : Prop :=
  ∀ openings, Fits openings expr → depth openings + expr.nesting ≤ deepestNesting →
    ∃ opened operand, (awaiting openings).feedAll tokens = some (holding (opened ++ openings) operand) ∧
      ∀ next, expr.EndsBefore next →
        settle next (opened ++ openings) operand = settle next openings result

theorem reads_atom {token : Token} {expr result : Expr}
    (fed : ∀ openings, feed (awaiting openings) token = .more (holding openings result)) :
    Reads [token] expr result := by
  intro openings _ _
  refine ⟨[], result, ?_, fun _ _ => rfl⟩
  rw [feedAll_cons (fed openings)]
  rfl

theorem reads_unary {token : Token} {rest : List Token} {op : UnaryOp} {operand result : Expr}
    (sign : token.kind.unaryOp? = some op) (fits : Expr.FitsUnder op operand)
    (reads : Reads rest operand result) (place : Location) :
    Reads (token :: rest) (.unary op operand place) (.unary op result token.place) := by
  intro openings _ nested
  simp only [Expr.nesting] at nested
  have room : depth openings < deepestNesting := by omega
  have fed : feed (awaiting openings) token = .more (awaiting (.unary op token.place :: openings)) := by
    simp only [feed, feedAwaiting, sign, nest, if_pos room]
  have inside : Fits (.unary op token.place :: openings) operand := by
    intro op' found opening innermost
    cases innermost
    cases op with
    | negate => simp only [Expr.FitsUnder] at fits; rw [fits] at found; cases found
    | not =>
      simp only [Opening.admits, decide_eq_true_eq, op'.not_precedence_le_iff]
      exact fits op' found
  obtain ⟨opened, innermost, readAll, closes⟩ := reads _ inside (by rw [depth_unary]; omega)
  refine ⟨opened ++ [.unary op token.place], innermost, ?_, ?_⟩
  · rw [feedAll_cons fed, readAll, List.append_assoc, List.singleton_append]
  · intro next ends
    rw [List.append_assoc, List.singleton_append, closes next ends.2]
    simp only [settle, ends.1, Bool.false_eq_true, ↓reduceIte]

theorem reads_binary {front back : List Token} {token : Token} {op : BinaryOp}
    {left right left' right' : Expr} (between : token.kind.binaryOp? = some op)
    (ordered : (Expr.binary op left right).Ordered)
    (readsLeft : Reads front left left') (readsRight : Reads back right right') :
    Reads (front ++ token :: back) (.binary op left right) (.binary op left' right') := by
  intro openings fits nested
  obtain ⟨fitsLeft, tighter, leftOrdered, rightOrdered⟩ := ordered
  simp only [Expr.nesting] at nested
  have admitted : ∀ opening ∈ openings.head?, opening.admits op = true := fits op rfl
  have leftInside : Fits openings left := by
    intro op' found opening innermost
    exact Opening.admits_mono (fitsLeft.1 op' found) (admitted opening innermost)
  obtain ⟨openedLeft, operandLeft, readLeft, closesLeft⟩ := readsLeft openings leftInside (by omega)
  have ended := closesLeft (some op) (Expr.endsBefore_of_fitsLeft op left leftOrdered fitsLeft)
  rw [settle_of_admits admitted] at ended
  have fed : feed (holding (openedLeft ++ openings) operandLeft) token =
      .more (awaiting (.binary op left' :: openings)) := by
    simp only [feed, feedHolding, between, ended]
  have rightInside : Fits (.binary op left' :: openings) right := by
    intro op' found opening innermost
    cases innermost
    simpa only [Opening.admits, decide_eq_true_eq] using tighter op' found
  obtain ⟨openedRight, operandRight, readRight, closesRight⟩ :=
    readsRight _ rightInside (by rw [depth_binary]; omega)
  refine ⟨openedRight ++ [.binary op left'], operandRight, ?_, ?_⟩
  · rw [feedAll_append readLeft, feedAll_cons fed, readRight, List.append_assoc, List.singleton_append]
  · intro next ends
    obtain ⟨looser, apart, endsRight⟩ := ends
    rw [List.append_assoc, List.singleton_append, closesRight next endsRight]
    simp only [settle, looser, apart, Bool.false_eq_true, ↓reduceIte]

theorem reads_group {opening closing : Token} {tokens : List Token} {inner result : Expr}
    (opens : opening.kind = .openParen) (closes : closing.kind = .closeParen)
    (reads : Reads tokens inner result) (place : Location) :
    Reads (opening :: tokens ++ [closing]) (.group inner place) (.group result opening.place) := by
  intro openings _ nested
  simp only [Expr.nesting] at nested
  have room : depth openings < deepestNesting := by omega
  have opened : feed (awaiting openings) opening = .more (awaiting (.paren opening.place :: openings)) := by
    simp only [feed, feedAwaiting, Token.literal?, opens, Kind.unaryOp?, nest, if_pos room]
  have inside : Fits (.paren opening.place :: openings) inner := by
    intro op _ innermost found
    cases found
    rfl
  obtain ⟨left, operand, readInner, ended⟩ := reads _ inside (by rw [depth_paren]; omega)
  have before := ended none inner.endsBefore_none
  have closed : feed (holding (left ++ .paren opening.place :: openings) operand) closing =
      .more (holding openings (.group result opening.place)) := by
    simp only [feed, feedHolding, closes, Kind.binaryOp?, before, settle, ↓reduceIte]
  refine ⟨[], .group result opening.place, ?_, fun _ _ => rfl⟩
  rw [List.cons_append, feedAll_cons opened, feedAll_append readInner, feedAll_cons closed]
  rfl

/-- The tokens of an ordered tree are read to that tree, places aside. -/
theorem exists_reads (expr : Expr) (ordered : expr.Ordered) (tokens : List Token)
    (written : tokens.map Token.lexeme = expr.lexemes) :
    ∃ result : Expr, result.agrees expr = true ∧ Reads tokens expr result := by
  induction expr generalizing tokens with
  | literal value place =>
    obtain ⟨token, rfl, same⟩ := List.map_eq_singleton_iff.mp written
    obtain ⟨found, noSign⟩ := Token.literal?_of_lexeme same
    refine ⟨.literal value token.place, ?_, reads_atom fun openings => ?_⟩
    · rw [Expr.agrees_iff]; rfl
    · simp only [feed, feedAwaiting, found, noSign]
  | name text place =>
    obtain ⟨token, rfl, same⟩ := List.map_eq_singleton_iff.mp written
    have kind : token.kind = .name := Token.kind_of_lexeme same
    rw [Token.lexeme_of_name kind] at same
    simp only [Prod.mk.injEq, Payload.text.injEq, true_and] at same
    refine ⟨.name text token.place, ?_, reads_atom fun openings => ?_⟩
    · rw [Expr.agrees_iff]; rfl
    · simp only [feed, feedAwaiting, Token.literal?, kind, Kind.unaryOp?, same]
  | unary op operand place ih =>
    obtain ⟨token, rest, rfl, sign, spelled⟩ := List.map_eq_cons_iff.mp written
    obtain ⟨result, same, reads⟩ := ih ordered.2 rest spelled
    refine ⟨.unary op result token.place, ?_,
      reads_unary (Token.unaryOp?_of_lexeme sign) ordered.1 reads place⟩
    rw [Expr.agrees_iff] at same ⊢
    simp only [Expr.relocate, same]
  | binary op left right ihLeft ihRight =>
    obtain ⟨front, after, rfl, spelledLeft, spelledAfter⟩ := List.map_eq_append_iff.mp written
    obtain ⟨token, back, rfl, between, spelledRight⟩ := List.map_eq_cons_iff.mp spelledAfter
    obtain ⟨left', sameLeft, readsLeft⟩ := ihLeft ordered.2.2.1 front spelledLeft
    obtain ⟨right', sameRight, readsRight⟩ := ihRight ordered.2.2.2 back spelledRight
    refine ⟨.binary op left' right', ?_,
      reads_binary (Token.binaryOp?_of_lexeme between) ordered readsLeft readsRight⟩
    rw [Expr.agrees_iff] at sameLeft sameRight ⊢
    simp only [Expr.relocate, sameLeft, sameRight]
  | group inner place ih =>
    obtain ⟨front, last, rfl, spelledFront, spelledLast⟩ := List.map_eq_append_iff.mp written
    obtain ⟨opening, middle, rfl, opens, spelled⟩ := List.map_eq_cons_iff.mp spelledFront
    obtain ⟨closing, rfl, closes⟩ := List.map_eq_singleton_iff.mp spelledLast
    obtain ⟨result, same, reads⟩ := ih ordered middle spelled
    refine ⟨.group result opening.place, ?_,
      reads_group (Token.kind_of_lexeme opens) (Token.kind_of_lexeme closes) reads place⟩
    rw [Expr.agrees_iff] at same ⊢
    simp only [Expr.relocate, same]

theorem Reads.completes {tokens : List Token} {expr result : Expr} (reads : Reads tokens expr result)
    (nested : expr.nesting ≤ deepestNesting) :
    ∃ reading, start.feedAll tokens = some reading ∧
      ∀ token : Token, token.kind.binaryOp? = none → reading.feed token = .complete result := by
  have outside : Fits [] expr := by
    intro op _ opening found
    cases found
  obtain ⟨opened, operand, readAll, closes⟩ := reads [] outside (by simpa [depth] using nested)
  refine ⟨_, readAll, ?_⟩
  intro token noOperator
  have ended := closes none expr.endsBefore_none
  simp only [feed, feedHolding, noOperator, ended, settle]

end Reading

end Offside
