import Offside.Proofs.Grammar.Canonical

/-!
Every tree that is read is canonical, and its lexemes are those of the tokens consumed. The openings
and the operand of a reading stand for the tokens fed so far; feeding a token adds its lexeme, and
closing an opening changes none.
-/

namespace Offside

def Opening.lexemes : Opening → List Lexeme
  | paren _ => [Kind.openParen.bare]
  | unary op _ => [op.kind.bare]
  | binary op left => left.lexemes ++ [op.kind.bare]

namespace Reading

def openLexemes : List Opening → List Lexeme
  | [] => []
  | opening :: outer => openLexemes outer ++ opening.lexemes

def lexemes : Reading → List Lexeme
  | awaiting openings => openLexemes openings
  | holding openings operand => openLexemes openings ++ operand.lexemes

/-- Openings that feeding can lead to: levels are counted, and each left operand fits its operator,
which the opening around it admits. -/
def WellOpened : List Opening → Prop
  | [] => True
  | .paren _ :: outer | .unary _ _ :: outer => depth outer < deepestNesting ∧ WellOpened outer
  | .binary op left :: outer =>
    left.Ordered ∧ Expr.FitsLeft op left ∧ (∀ opening ∈ outer.head?, opening.admits op = true) ∧
      depth outer + left.nesting ≤ deepestNesting ∧ WellOpened outer

theorem WellOpened.depth_le {openings : List Opening} (opened : WellOpened openings) :
    depth openings ≤ deepestNesting := by
  induction openings with
  | nil => exact Nat.zero_le _
  | cons opening outer ih =>
    cases opening with
    | paren place => rw [depth_paren]; exact opened.1
    | unary op place => rw [depth_unary]; exact opened.1
    | binary op left => rw [depth_binary]; exact ih opened.2.2.2.2

structure Settles (next : Option BinaryOp) (openings : List Opening) (operand : Expr) : Prop where
  opened : WellOpened openings
  ordered : operand.Ordered
  inside : Fits openings operand
  nested : depth openings + operand.nesting ≤ deepestNesting
  left : ∀ op ∈ next, Expr.FitsLeft op operand

/-- An operand as it stands after its last token: a literal, a name or a group. -/
def IsAtom (operand : Expr) : Prop := operand.operator? = none ∧ operand.endsInNot = false

theorem IsAtom.settles {next : Option BinaryOp} {openings : List Opening} {operand : Expr}
    (atom : IsAtom operand) (opened : WellOpened openings) (ordered : operand.Ordered)
    (nested : depth openings + operand.nesting ≤ deepestNesting) : Settles next openings operand where
  opened := opened
  ordered := ordered
  inside := by intro op found; rw [atom.1] at found; cases found
  nested := nested
  left := by
    intro op _
    refine ⟨?_, ?_, fun _ => atom.2⟩
    · intro op' found; rw [atom.1] at found; cases found
    · intro _ op' found; rw [atom.1] at found; cases found

theorem Settles.close_unary {next : Option BinaryOp} {op : UnaryOp} {place : Location}
    {outer : List Opening} {operand : Expr} (settles : Settles next (.unary op place :: outer) operand)
    (looser : ¬ (next.any fun op' => op.precedence ≤ op'.precedence) = true) :
    Settles next outer (.unary op operand place) where
  opened := settles.opened.2
  ordered := by
    refine ⟨?_, settles.ordered⟩
    cases op with
    | negate =>
      cases found : operand.operator? with
      | none => exact found
      | some op' =>
        have admitted := settles.inside op' found _ rfl
        have := op'.precedence_lt_negate
        simp only [Opening.admits, decide_eq_true_eq] at admitted
        omega
    | not =>
      intro op' found
      have admitted := settles.inside op' found _ rfl
      simpa only [Opening.admits, decide_eq_true_eq, op'.not_precedence_le_iff] using admitted
  inside := by intro op' found; cases found
  nested := by
    have := settles.nested
    rw [depth_unary] at this
    simp only [Expr.nesting]
    omega
  left := by
    intro op' found
    cases found
    refine ⟨?_, ?_, fun tight => ?_⟩
    · intro _ found; cases found
    · intro _ _ found; cases found
    cases op with
    | negate => exact (settles.left op' rfl).2.2 tight
    | not =>
      rw [← op'.not_precedence_le_iff] at tight
      simp only [Option.any_some, decide_eq_true_eq] at looser
      exact absurd tight looser

theorem Settles.close_binary {next : Option BinaryOp} {op : BinaryOp} {left : Expr}
    {outer : List Opening} {operand : Expr} (settles : Settles next (.binary op left :: outer) operand)
    (looser : ¬ (next.any fun op' => op.precedence < op'.precedence) = true)
    (apart : ¬ (op.isComparison && isComparison next) = true) :
    Settles next outer (.binary op left operand) where
  opened := settles.opened.2.2.2.2
  ordered := by
    refine ⟨settles.opened.2.1, ?_, settles.opened.1, settles.ordered⟩
    intro op' found
    have admitted := settles.inside op' found _ rfl
    simpa only [Opening.admits, decide_eq_true_eq] using admitted
  inside := by
    intro op' found
    cases found
    exact settles.opened.2.2.1
  nested := by
    have := settles.nested
    have := settles.opened.2.2.2.1
    rw [depth_binary] at *
    simp only [Expr.nesting]
    omega
  left := by
    intro op' found
    cases found
    simp only [Option.any_some, decide_eq_true_eq] at looser
    refine ⟨?_, ?_, (settles.left op' rfl).2.2⟩
    · intro _ found; cases found; omega
    · intro comparison _ found
      cases found
      have strict : op.precedence ≠ op'.precedence := by
        intro same
        apply apart
        rw [Bool.and_eq_true, BinaryOp.isComparison_iff, same, ← BinaryOp.isComparison_iff]
        exact ⟨comparison, comparison⟩
      omega

theorem settle_none {openings rest : List Opening} {operand result : Expr}
    (settled : settle none openings operand = .ready rest result) :
    rest = [] ∨ ∃ place outer, rest = .paren place :: outer := by
  fun_induction settle none openings operand with
  | case1 operand =>
    cases settled
    exact .inl rfl
  | case2 place outer operand =>
    cases settled
    exact .inr ⟨place, outer, rfl⟩
  | case3 op place outer operand belongs => cases belongs
  | case4 op place outer operand looser ih => exact ih settled
  | case5 op left outer operand belongs => cases belongs
  | case6 => cases settled
  | case7 op left outer operand looser apart ih => exact ih settled

/-- Closing openings keeps the lexemes, and stops where `next` belongs to the innermost opening. -/
theorem settle_ready {next : Option BinaryOp} {openings rest : List Opening} {operand result : Expr}
    (settled : settle next openings operand = .ready rest result)
    (settles : Settles next openings operand) :
    Settles next rest result ∧
      openLexemes rest ++ result.lexemes = openLexemes openings ++ operand.lexemes ∧
      ∀ op ∈ next, ∀ opening ∈ rest.head?, opening.admits op = true := by
  fun_induction settle next openings operand with
  | case1 operand =>
    cases settled
    exact ⟨settles, rfl, fun _ _ => nofun⟩
  | case2 place outer operand =>
    cases settled
    refine ⟨settles, rfl, ?_⟩
    intro op' _ opening innermost
    cases innermost
    rfl
  | case3 op place outer operand belongs =>
    cases settled
    refine ⟨settles, rfl, ?_⟩
    intro op' found opening innermost
    cases found
    cases innermost
    exact belongs
  | case4 op place outer operand looser ih =>
    obtain ⟨kept, same, admitted⟩ := ih settled (settles.close_unary looser)
    refine ⟨kept, ?_, admitted⟩
    rw [same]
    simp only [openLexemes, Opening.lexemes, Expr.lexemes, List.append_assoc, List.singleton_append]
  | case5 op left outer operand belongs =>
    cases settled
    refine ⟨settles, rfl, ?_⟩
    intro op' found opening innermost
    cases found
    cases innermost
    exact belongs
  | case6 => cases settled
  | case7 op left outer operand looser apart ih =>
    obtain ⟨kept, same, admitted⟩ := ih settled (settles.close_binary looser apart)
    refine ⟨kept, ?_, admitted⟩
    rw [same]
    simp only [openLexemes, Opening.lexemes, Expr.lexemes, List.append_assoc, List.singleton_append]

def Valid : Reading → Prop
  | awaiting openings => WellOpened openings
  | holding openings operand =>
    WellOpened openings ∧ IsAtom operand ∧ operand.Ordered ∧
      depth openings + operand.nesting ≤ deepestNesting

theorem valid_start : start.Valid := trivial

theorem nest_more {openings : List Opening} {opening : Opening} {next : Reading}
    (fed : nest openings opening = .more next) :
    depth openings < deepestNesting ∧ next = awaiting (opening :: openings) := by
  unfold nest at fed
  split at fed
  next room => cases fed; exact ⟨room, rfl⟩
  next => cases fed

theorem feedAwaiting_more {openings : List Opening} {token : Token} {next : Reading}
    (opened : WellOpened openings) (fed : feedAwaiting openings token = .more next) :
    next.Valid ∧ next.lexemes = openLexemes openings ++ [token.lexeme] := by
  unfold feedAwaiting at fed
  split at fed
  next op _ sign =>
    obtain ⟨room, rfl⟩ := nest_more fed
    refine ⟨⟨room, opened⟩, ?_⟩
    rw [Token.lexeme_of_unaryOp? sign]
    rfl
  next value _ found =>
    cases fed
    refine ⟨⟨opened, ⟨rfl, rfl⟩, trivial, opened.depth_le⟩, ?_⟩
    rw [Token.lexeme_of_literal? found]
    rfl
  next =>
    split at fed
    next kind =>
      cases fed
      refine ⟨⟨opened, ⟨rfl, rfl⟩, trivial, opened.depth_le⟩, ?_⟩
      rw [Token.lexeme_of_name kind]
      rfl
    next kind =>
      obtain ⟨room, rfl⟩ := nest_more fed
      refine ⟨⟨room, opened⟩, ?_⟩
      rw [Token.lexeme_eq_bare kind (by decide)]
      rfl
    next => cases fed

theorem feedHolding_more {openings : List Opening} {operand : Expr} {token : Token} {next : Reading}
    (valid : (holding openings operand).Valid)
    (fed : feedHolding openings operand token = .more next) :
    next.Valid ∧ next.lexemes = openLexemes openings ++ operand.lexemes ++ [token.lexeme] := by
  obtain ⟨opened, atom, ordered, nested⟩ := valid
  have settles : Settles token.kind.binaryOp? openings operand := atom.settles opened ordered nested
  unfold feedHolding at fed
  split at fed
  next => cases fed
  next rest left op settled between =>
    cases fed
    obtain ⟨kept, same, admitted⟩ := settle_ready settled settles
    rw [between] at kept admitted
    refine ⟨⟨kept.ordered, kept.left op rfl, admitted op rfl, kept.nested, kept.opened⟩, ?_⟩
    rw [Token.lexeme_of_binaryOp? between, ← same]
    simp only [lexemes, openLexemes, Opening.lexemes, List.append_assoc]
  next place rest inner settled between =>
    obtain ⟨kept, same, -⟩ := settle_ready settled settles
    split at fed
    next closes =>
      cases fed
      have nested := kept.nested
      rw [depth_paren] at nested
      refine ⟨⟨kept.opened.2, ⟨rfl, rfl⟩, kept.ordered, ?_⟩, ?_⟩
      · simp only [Expr.nesting]
        omega
      · rw [Token.lexeme_eq_bare closes (by decide), ← same]
        simp only [lexemes, openLexemes, Opening.lexemes, Expr.lexemes, List.append_assoc,
          List.cons_append, List.nil_append]
    next => cases fed
  next => cases fed

theorem feed_more {reading next : Reading} {token : Token} (valid : reading.Valid)
    (fed : reading.feed token = .more next) :
    next.Valid ∧ next.lexemes = reading.lexemes ++ [token.lexeme] := by
  cases reading with
  | awaiting openings => exact feedAwaiting_more valid fed
  | holding openings operand => exact feedHolding_more valid fed

theorem settle_of_complete {reading : Reading} {token : Token} {expr : Expr}
    (fed : reading.feed token = .complete expr) :
    ∃ openings operand, reading = holding openings operand ∧
      settle token.kind.binaryOp? openings operand = .ready [] expr := by
  cases reading with
  | awaiting openings =>
    simp only [feed, feedAwaiting, nest] at fed
    split at fed
    next => split at fed <;> cases fed
    next => cases fed
    next =>
      split at fed
      next => cases fed
      next => split at fed <;> cases fed
      next => cases fed
  | holding openings operand =>
    simp only [feed, feedHolding] at fed
    split at fed
    next => cases fed
    next => cases fed
    next => split at fed <;> cases fed
    next rest result outside settled absent =>
      cases fed
      have ended := settled
      rw [absent] at ended
      rcases settle_none ended with rfl | ⟨place, outer, rfl⟩
      · exact ⟨openings, operand, rfl, settled⟩
      · exact (outside place outer rfl).elim

/-- A complete expression is canonical and has the lexemes of the tokens fed before. -/
theorem feed_complete {reading : Reading} {token : Token} {expr : Expr} (valid : reading.Valid)
    (fed : reading.feed token = .complete expr) :
    expr.Canonical ∧ expr.lexemes = reading.lexemes := by
  obtain ⟨openings, operand, rfl, settled⟩ := settle_of_complete fed
  obtain ⟨opened, atom, ordered, nested⟩ := valid
  obtain ⟨kept, same, -⟩ := settle_ready settled (atom.settles opened ordered nested)
  refine ⟨⟨kept.ordered, ?_⟩, same⟩
  simpa [depth] using kept.nested

end Reading

end Offside
