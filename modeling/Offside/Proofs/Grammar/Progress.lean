import Offside.Proofs.Grammar.DescentStmt

/-!
A parse comes to its end, whatever tokens it is given. The descent is given fuel for its calls and for the
turns of its loops; since each of them consumes a token, it needs no more than there are tokens.
-/

namespace Offside

namespace Descent

variable {fuel : Nat} {cursor : Cursor}

theorem advance_consumes (notEnd : cursor.current.kind ≠ .endOfInput) :
    advance.run cursor = some (cursor.current, cursor.next) ∧ cursor.next.left < cursor.left := by
  have ends : advance.Ends cursor fun token last => token = cursor.current ∧ last = cursor.next :=
    (ends_advance notEnd).mpr ⟨rfl, rfl⟩
  obtain ⟨_, _, run, rfl, rfl⟩ := ends
  exact ⟨run, Cursor.left_next notEnd⟩

/-- A turn of the loop over the statements of a block, or of the program. -/
theorem statementSafely_consumes (enough : cursor.left ≤ fuel) (outside : cursor.nesting = 0)
    (notDedent : cursor.current.kind ≠ .dedent) (notEnd : cursor.current.kind ≠ .endOfInput) :
    ∃ stmt last, (statementSafely (fuel + 1) (statements fuel [])).run.run cursor = some (.ok stmt, last) ∧
      last.left < cursor.left ∧ last.nesting = 0 := by
  have bodies : ∀ later : Cursor, later.left < cursor.left → later.nesting = 0 →
      ReadsBody (statements fuel []) later :=
    fun later less level block => succeeds_statements block [] (Nat.lt_of_lt_of_le less enough) level
  have succeeds := succeeds_statementSafely [] [] (Nat.lt_succ_of_le enough) notDedent notEnd outside bodies
  obtain ⟨stmt, last, run, leads, less⟩ := succeeds.exists_run
  exact ⟨stmt, last, run, less, leads.nesting.trans outside⟩

theorem synchronize_consumes (enough : cursor.left < fuel) :
    ∃ last, (synchronize fuel).run cursor = some ((), last) ∧
      (last.left < cursor.left ∨ last = cursor.told [.recovered []] ∧
        (cursor.current.kind = .dedent ∨ cursor.current.kind = .endOfInput)) := by
  obtain ⟨_, last, run, -, consumes⟩ := ends_skip [] [] cursor 0 [] enough
  exact ⟨last, run, consumes⟩

end Descent

namespace Parsed

/-- Whatever tokens are given, with more fuel than there are tokens the descent comes to its end with a
program and with no fault that escapes, and it is the one of the machine; the tokens that are pulled are
those up to the first end of input, or all of them. A token that is consumed is one less to be read, each
turn of a loop over statements consumes one, and so does each recovery, unless it stops at once at the end
of a block or of the input. -/
theorem parse_reads_all_tokens (file : String) (pulls : List Pull) :
    (∀ fuel, pulls.length < fuel → Descent.parse fuel file pulls = some (.ok (ofPulls file pulls))) ∧
    (ofPulls file pulls).tokenCount = ((pulls.findIdx? Pull.isLast).map (· + 1)).getD pulls.length ∧
    (∀ cursor : Cursor, cursor.current.kind ≠ .endOfInput →
      Descent.advance.run cursor = some (cursor.current, cursor.next) ∧ cursor.next.left < cursor.left) ∧
    (∀ (fuel : Nat) (cursor : Cursor), cursor.left ≤ fuel → cursor.nesting = 0 →
      cursor.current.kind ≠ .dedent → cursor.current.kind ≠ .endOfInput →
      ∃ stmt last, (Descent.statementSafely (fuel + 1) (Descent.statements fuel [])).run.run cursor =
          some (.ok stmt, last) ∧
        last.left < cursor.left ∧ last.nesting = 0) ∧
    ∀ (fuel : Nat) (cursor : Cursor), cursor.left < fuel →
      ∃ last, (Descent.synchronize fuel).run cursor = some ((), last) ∧
        (last.left < cursor.left ∨ last = cursor.told [.recovered []] ∧
          (cursor.current.kind = .dedent ∨ cursor.current.kind = .endOfInput)) :=
  ⟨fun _ => Descent.parse_eq file, Parse.count_runToEnd file 1 .initial pulls,
    fun _ => Descent.advance_consumes, fun _ _ => Descent.statementSafely_consumes,
    fun _ _ => Descent.synchronize_consumes⟩

/-- Blocks that do not match, and an end of input in the middle. -/
def unbalanced : List Pull :=
  [⟨.closeParen, .text ")", ⟨"odd", 1, 1⟩⟩, ⟨.indent, .none, ⟨"odd", 2, 1⟩⟩, ⟨.dedent, .none, ⟨"odd", 3, 1⟩⟩,
    ⟨.dedent, .none, ⟨"odd", 3, 1⟩⟩, ⟨.indent, .none, ⟨"odd", 4, 1⟩⟩, ⟨.endOfInput, .none, ⟨"odd", 5, 1⟩⟩,
    ⟨.name, .text "x", ⟨"odd", 6, 1⟩⟩].map Pull.ofToken

theorem parse_reads_all_tokens_unbalanced :
    Descent.parse 8 "odd" unbalanced = some (.ok (ofPulls "odd" unbalanced)) ∧
      (ofPulls "odd" unbalanced).tokenCount = 6 ∧
      Descent.advance.run (.ofPulls "odd" unbalanced) =
        some ((Cursor.ofPulls "odd" unbalanced).current, (Cursor.ofPulls "odd" unbalanced).next) ∧
      (∃ stmt last, (Descent.statementSafely 8 (Descent.statements 7 [])).run.run (.ofPulls "odd" unbalanced) =
          some (.ok stmt, last) ∧
        last.left < (Cursor.ofPulls "odd" unbalanced).left ∧ last.nesting = 0) ∧
      ∃ last, (Descent.synchronize 8).run (.ofPulls "odd" unbalanced) = some ((), last) ∧
        last.left < (Cursor.ofPulls "odd" unbalanced).left := by
  obtain ⟨ends, count, advances, turns, skips⟩ := parse_reads_all_tokens "odd" unbalanced
  obtain ⟨last, run, less | ⟨-, stops | stops⟩⟩ := skips 8 (.ofPulls "odd" unbalanced) (by decide)
  · exact ⟨ends 8 (by decide), count, (advances _ (by decide)).1,
      turns 7 _ (by decide) rfl (by decide) (by decide), last, run, less⟩
  · cases stops
  · cases stops

end Parsed

end Offside
