import Offside.Proofs.CText.Grammar
import Offside.Tree.Stmt

/-!
The grammar of C statements that programs are written with: assignments, loops, chains of `if`, and
`break`, all bodies in braces. It is unambiguous. Expressions end at a semicolon or at a parenthesis
that they did not open, statements are told apart by their first words, and a chain goes on exactly
when an `else` follows.
-/

namespace Offside.C

/-- Statements. Expressions are kept as their tokens. -/
inductive Statement where
  | assign (name : String) (value : List Token)
  | choose (arms : Arms (List Token) Statement)
  | loop (condition : List Token) (body : List Statement)
  | leave

def reserved : List String := ["if", "else", "while", "break"]

def parens (tokens : List Token) : List Token := .mark "(" :: tokens ++ [.mark ")"]

def braces (tokens : List Token) : List Token := .mark "\x7b" :: tokens ++ [.mark "\x7d"]

mutual

inductive DerivesStatement : List Token → Statement → Prop where
  | assign {name : String} {value : List Token} {tree : Tree} (free : name ∉ reserved)
    (expr : Derives 0 value tree) :
    DerivesStatement (.word name :: .mark "=" :: value ++ [.mark ";"]) (.assign name value)
  | choose {guard inside others : List Token} {tree : Tree} {body : List Statement}
    {rest : Arms (List Token) Statement} (expr : Derives 0 guard tree) (block : DerivesAll inside body)
    (chain : DerivesRest others rest) :
    DerivesStatement (.word "if" :: parens guard ++ braces inside ++ others)
      (.choose (.arm guard body rest))
  | loop {condition inside : List Token} {tree : Tree} {body : List Statement}
    (expr : Derives 0 condition tree) (block : DerivesAll inside body) :
    DerivesStatement (.word "while" :: parens condition ++ braces inside) (.loop condition body)
  | leave : DerivesStatement [.word "break", .mark ";"] .leave

inductive DerivesAll : List Token → List Statement → Prop where
  | nil : DerivesAll [] []
  | cons {tokens others : List Token} {first : Statement} {rest : List Statement}
    (one : DerivesStatement tokens first) (more : DerivesAll others rest) :
    DerivesAll (tokens ++ others) (first :: rest)

inductive DerivesRest : List Token → Arms (List Token) Statement → Prop where
  | done : DerivesRest [] .done
  | otherwise {inside : List Token} {body : List Statement} (block : DerivesAll inside body) :
    DerivesRest (.word "else" :: braces inside) (.otherwise body)
  | elseIf {guard inside others : List Token} {tree : Tree} {body : List Statement}
    {rest : Arms (List Token) Statement} (expr : Derives 0 guard tree) (block : DerivesAll inside body)
    (chain : DerivesRest others rest) :
    DerivesRest (.word "else" :: .word "if" :: parens guard ++ braces inside ++ others)
      (.arm guard body rest)

end

/-- The expression at the start of tokens, `depth` parentheses inside it, and what comes after it. -/
def cut : Nat → List Token → List Token × List Token
  | _, [] => ([], [])
  | depth, token :: rest =>
    if token = .mark ";" ∨ (depth = 0 ∧ token = .mark ")") then ([], token :: rest)
    else
      let deeper := if token = .mark "(" then depth + 1
        else if token = .mark ")" then depth - 1
        else depth
      (token :: (cut deeper rest).1, (cut deeper rest).2)

theorem cut_inside {token : Token} (depth : Nat) (rest : List Token) (noEnd : token ≠ .mark ";")
    (noOpen : token ≠ .mark "(") (noClose : token ≠ .mark ")") :
    cut depth (token :: rest) = (token :: (cut depth rest).1, (cut depth rest).2) := by
  simp only [cut, noEnd, noOpen, noClose, and_false, or_false, ↓reduceIte]

theorem cut_open (depth : Nat) (rest : List Token) :
    cut depth (.mark "(" :: rest) =
      (.mark "(" :: (cut (depth + 1) rest).1, (cut (depth + 1) rest).2) := by
  rw [cut, if_neg (by simp), if_pos rfl]

theorem cut_close (depth : Nat) (rest : List Token) :
    cut (depth + 1) (.mark ")" :: rest) = (.mark ")" :: (cut depth rest).1, (cut depth rest).2) := by
  rw [cut, if_neg (by simp), if_neg (by simp), if_pos rfl, Nat.add_sub_cancel]

/-- No expression is cut short: its parentheses are closed in it, and it has no semicolon. -/
theorem Derives.cut_append {level : Nat} {tokens : List Token} {tree : Tree}
    (derives : Derives level tokens tree) (depth : Nat) (rest : List Token) :
    cut depth (tokens ++ rest) = (tokens ++ (cut depth rest).1, (cut depth rest).2) := by
  induction derives generalizing depth rest with
  | word text => exact cut_inside depth rest nofun nofun nofun
  | number text => exact cut_inside depth rest nofun nofun nofun
  | paren inner ih =>
    simp only [List.cons_append, List.append_assoc, List.nil_append]
    rw [cut_open, ih, cut_close]
  | @unary op _ _ sign operand ih =>
    have apart {mark : String} (other : isUnary mark = false) : Token.mark op ≠ .mark mark := by
      rintro ⟨⟩
      rw [sign] at other
      cases other
    rw [List.cons_append, cut_inside depth _ (apart rfl) (apart rfl) (apart rfl), ih]
    rfl
  | @binary op _ _ _ _ _ operator first second ihFirst ihSecond =>
    have apart {mark : String} (other : level? mark = none) : Token.mark op ≠ .mark mark := by
      rintro ⟨⟩
      rw [operator] at other
      cases other
    rw [List.append_assoc, ihFirst, List.cons_append,
      cut_inside depth _ (apart rfl) (apart rfl) (apart rfl), ihSecond]
    simp only [List.append_assoc, List.cons_append]
  | looser tighter ih => exact ih depth rest

/-- Where an expression ends is settled by the tokens. -/
theorem Derives.eq_of_append_eq {value value' rest rest' : List Token} {tree tree' : Tree} {stop : Token}
    (expr : Derives 0 value tree) (expr' : Derives 0 value' tree')
    (ends : stop = .mark ")" ∨ stop = .mark ";")
    (same : value ++ stop :: rest = value' ++ stop :: rest') : value = value' ∧ rest = rest' := by
  have stopped (behind : List Token) : cut 0 (stop :: behind) = ([], stop :: behind) := by
    rw [cut, if_pos (by simpa [or_comm] using ends)]
  have cuts := congrArg (cut 0) same
  rw [expr.cut_append, expr'.cut_append, stopped, stopped] at cuts
  simpa using cuts

theorem eq_of_header_eq {guard guard' inside inside' rest rest' : List Token} {tree tree' : Tree}
    (expr : Derives 0 guard tree) (expr' : Derives 0 guard' tree')
    (same : parens guard ++ (braces inside ++ rest) = parens guard' ++ (braces inside' ++ rest')) :
    guard = guard' ∧ inside ++ .mark "\x7d" :: rest = inside' ++ .mark "\x7d" :: rest' := by
  simp only [parens, braces, List.cons_append, List.append_assoc, List.nil_append, List.cons.injEq,
    true_and] at same
  obtain ⟨sameGuard, sameBody⟩ := expr.eq_of_append_eq expr' (.inl rfl) same
  exact ⟨sameGuard, (List.cons.inj sameBody).2⟩

def IsOver (tokens : List Token) : Prop := ∀ token ∈ tokens.head?, token = .mark "\x7d"

def NoElse (tokens : List Token) : Prop := tokens.head? ≠ some (.word "else")

theorem isOver_brace (rest : List Token) : IsOver (.mark "\x7d" :: rest) := by
  rintro token ⟨⟩
  rfl

theorem DerivesStatement.head {tokens : List Token} {stmt : Statement}
    (derives : DerivesStatement tokens stmt) :
    ∃ word rest, tokens = .word word :: rest ∧ word ≠ "else" := by
  cases derives with
  | assign free expr => exact ⟨_, _, rfl, fun same => free (by simp [same, reserved])⟩
  | choose expr block chain => exact ⟨"if", _, rfl, by decide⟩
  | loop expr block => exact ⟨"while", _, rfl, by decide⟩
  | leave => exact ⟨"break", _, rfl, by decide⟩

theorem DerivesAll.noElse {tokens rest : List Token} {stmts : List Statement}
    (derives : DerivesAll tokens stmts) (closed : IsOver rest) : NoElse (tokens ++ rest) := by
  cases derives with
  | nil =>
    intro starts
    cases closed _ starts
  | cons one more =>
    obtain ⟨word, behind, rfl, apart⟩ := one.head
    simpa [NoElse] using apart

mutual

theorem eq_of_derivesStatement : (stmt : Statement) →
    ∀ {stmt' : Statement} {front front' back back' : List Token}, DerivesStatement front stmt →
      DerivesStatement front' stmt' → front ++ back = front' ++ back' → NoElse back → NoElse back' →
      stmt = stmt' ∧ back = back'
  | .assign name value => by
    intro derives derives' same noElse noElse'
    cases derives with
    | assign free expr =>
      cases derives' with
      | assign free' expr' =>
        simp only [List.cons_append, List.append_assoc, List.nil_append, List.cons.injEq,
          Token.word.injEq, true_and] at same
        obtain ⟨rfl, sameValue⟩ := same
        obtain ⟨rfl, rfl⟩ := expr.eq_of_append_eq expr' (.inr rfl) sameValue
        exact ⟨rfl, rfl⟩
      | choose | loop | leave =>
        simp only [List.cons_append, List.cons.injEq, Token.word.injEq] at same
        exact absurd (by simp [same.1, reserved]) free
  | .choose .done => nofun
  | .choose (.otherwise body) => nofun
  | .choose (.arm guard body rest) => by
    intro derives derives' same noElse noElse'
    cases derives with
    | choose expr block chain =>
      cases derives' with
      | assign free' expr' =>
        simp only [List.cons_append, List.cons.injEq, Token.word.injEq] at same
        exact absurd (by simp [← same.1, reserved]) free'
      | choose expr' block' chain' =>
        simp only [List.cons_append, List.append_assoc, List.cons.injEq, true_and] at same
        obtain ⟨rfl, sameBody⟩ := eq_of_header_eq expr expr' same
        obtain ⟨rfl, sameRest⟩ := eq_of_derivesAll body block block' sameBody (isOver_brace _)
          (isOver_brace _)
        obtain ⟨rfl, rfl⟩ := eq_of_derivesRest rest chain chain' (List.cons.inj sameRest).2 noElse
          noElse'
        exact ⟨rfl, rfl⟩
      | loop | leave => simp at same
  | .loop condition body => by
    intro derives derives' same noElse noElse'
    cases derives with
    | loop expr block =>
      cases derives' with
      | assign free' expr' =>
        simp only [List.cons_append, List.cons.injEq, Token.word.injEq] at same
        exact absurd (by simp [← same.1, reserved]) free'
      | loop expr' block' =>
        simp only [List.cons_append, List.append_assoc, List.cons.injEq, true_and] at same
        obtain ⟨rfl, sameBody⟩ := eq_of_header_eq expr expr' same
        obtain ⟨rfl, sameRest⟩ := eq_of_derivesAll body block block' sameBody (isOver_brace _)
          (isOver_brace _)
        exact ⟨rfl, (List.cons.inj sameRest).2⟩
      | choose | leave => simp at same
  | .leave => by
    intro derives derives' same noElse noElse'
    cases derives with
    | leave =>
      cases derives' with
      | assign free' expr' =>
        simp only [List.cons_append, List.cons.injEq, Token.word.injEq] at same
        exact absurd (by simp [← same.1, reserved]) free'
      | leave => exact ⟨rfl, by simpa using same⟩
      | choose | loop => simp at same

theorem eq_of_derivesAll : (stmts : List Statement) →
    ∀ {stmts' : List Statement} {front front' back back' : List Token}, DerivesAll front stmts →
      DerivesAll front' stmts' → front ++ back = front' ++ back' → IsOver back → IsOver back' →
      stmts = stmts' ∧ back = back'
  | [] => by
    intro derives derives' same closed closed'
    cases derives with
    | nil =>
      cases derives' with
      | nil => exact ⟨rfl, same⟩
      | cons one more =>
        obtain ⟨word, behind, rfl, -⟩ := one.head
        rw [List.nil_append] at same
        cases closed (.word word) (by rw [same]; rfl)
  | first :: rest => by
    intro derives derives' same closed closed'
    cases derives with
    | cons one more =>
      cases derives' with
      | nil =>
        obtain ⟨word, behind, rfl, -⟩ := one.head
        rw [List.nil_append] at same
        cases closed' (.word word) (by rw [← same]; rfl)
      | cons one' more' =>
        rw [List.append_assoc, List.append_assoc] at same
        obtain ⟨rfl, sameRest⟩ := eq_of_derivesStatement first one one' same (more.noElse closed)
          (more'.noElse closed')
        obtain ⟨rfl, rfl⟩ := eq_of_derivesAll rest more more' sameRest closed closed'
        exact ⟨rfl, rfl⟩

theorem eq_of_derivesRest : (arms : Arms (List Token) Statement) →
    ∀ {arms' : Arms (List Token) Statement} {front front' back back' : List Token},
      DerivesRest front arms → DerivesRest front' arms' → front ++ back = front' ++ back' →
      NoElse back → NoElse back' → arms = arms' ∧ back = back'
  | .done => by
    intro derives derives' same noElse noElse'
    cases derives with
    | done =>
      cases derives' with
      | done => exact ⟨rfl, same⟩
      | otherwise | elseIf =>
        rw [List.nil_append] at same
        exact absurd (by rw [same]; rfl) noElse
  | .otherwise body => by
    intro derives derives' same noElse noElse'
    cases derives with
    | otherwise block =>
      cases derives' with
      | done =>
        rw [List.nil_append] at same
        exact absurd (by rw [← same]; rfl) noElse'
      | otherwise block' =>
        simp only [braces, List.cons_append, List.append_assoc, List.nil_append, List.cons.injEq,
          true_and] at same
        obtain ⟨rfl, sameRest⟩ := eq_of_derivesAll body block block' same (isOver_brace _)
          (isOver_brace _)
        exact ⟨rfl, (List.cons.inj sameRest).2⟩
      | elseIf => simp [braces] at same
  | .arm guard body rest => by
    intro derives derives' same noElse noElse'
    cases derives with
    | elseIf expr block chain =>
      cases derives' with
      | done =>
        rw [List.nil_append] at same
        exact absurd (by rw [← same]; rfl) noElse'
      | otherwise block' => simp [braces] at same
      | elseIf expr' block' chain' =>
        simp only [List.cons_append, List.append_assoc, List.cons.injEq, true_and] at same
        obtain ⟨rfl, sameBody⟩ := eq_of_header_eq expr expr' same
        obtain ⟨rfl, sameRest⟩ := eq_of_derivesAll body block block' sameBody (isOver_brace _)
          (isOver_brace _)
        obtain ⟨rfl, rfl⟩ := eq_of_derivesRest rest chain chain' (List.cons.inj sameRest).2 noElse
          noElse'
        exact ⟨rfl, rfl⟩

end

/-- Tokens are read as statements in at most one way. -/
theorem DerivesAll.unique {tokens : List Token} {stmts stmts' : List Statement}
    (derives : DerivesAll tokens stmts) (derives' : DerivesAll tokens stmts') : stmts = stmts' := by
  have whole : tokens ++ [] = tokens ++ [] := rfl
  exact (eq_of_derivesAll stmts derives derives' whole nofun nofun).1

end Offside.C
