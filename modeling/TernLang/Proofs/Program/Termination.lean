import TernLang.Proofs.Program.Reading
import TernLang.Proofs.Token.Relexing

/-! Reading ends on every text. Every reader takes a token or ends where it is, none passes the end
mark, and none gives up for want of budget. -/
namespace TernLang

open Parse

/-- From the state the reader ends: with at least so many of the tokens in front of the end mark
taken, or at a fault of the text. -/
def Parse.Stops {α : Type} (count : Nat) (before : Reading) (action : Parse α) : Prop :=
  (∀ val after, action.run before = .ok (val, after) →
    after.cursor.ending = before.cursor.ending ∧ after.cursor.left + count ≤ before.cursor.left) ∧
  ∀ cause, action.run before = .error cause → ¬cause.Stuck

theorem Parse.Runs.stops {α : Type} {enough : Prop} {post : α → Reading → Prop} {action : Parse α}
    (runs : Runs enough before post action) (given : enough) (ends : before.cursor.Ends)
    (onward : ∀ val after, post val after → before.cursor.Onward count after.cursor) :
    Stops count before action :=
  ⟨fun val after ran => (onward val after (runs.ok ran)).2 ends, fun _ ran => (runs.error ran).2 given⟩

theorem Cursor.ends_start (file : Path) (marks : List Token) (isEnd : last.kind = .eof) :
    (start file (marks ++ [last])).Ends ∧ (start file (marks ++ [last])).left ≤ marks.length := by
  have same : (start file (marks ++ [last])).tokens = marks ++ [last] := by cases marks <;> rfl
  rw [Ends, ending, left, same]
  refine ⟨fun none => ?_, ?_⟩
  · simpa [isEnd] using List.dropWhile_eq_nil_iff.mp none last
  · have taken : (([last] : List Token).takeWhile (·.kind ≠ .eof)) = [] := by simp [isEnd]
    rw [List.takeWhile_append, taken]
    split
    · simp
    · exact (List.takeWhile_prefix _).length_le

/-- No text keeps the reading of it from ending. There are no more tokens than characters, and the
last one is the only end mark. From tokens with an end mark a program is read, or a fault of the
text is found. Types, expressions, statements and declarations take a token, a list of tokens ends,
and what goes on with an expression is a call, an access or an operator. -/
theorem reading_stops :
    (∀ file src tokens, Token.tokenize file src = .ok tokens →
      ∃ marks last, tokens = marks ++ [last] ∧
      last.kind = .eof ∧ (∀ mark ∈ marks, mark.kind ≠ .eof) ∧ marks.length ≤ src.length) ∧
    (∀ (prog : Program) marks last, last.kind = .eof →
      ∀ cause ∈ (prog.addTokens (marks ++ [last])).2, ¬cause.Stuck) ∧
    (∀ before : Reading, before.cursor.Ends → ∀ fuel, 8 * before.cursor.left + 3 ≤ fuel →
      Stops 1 before (readType fuel) ∧ Stops 1 before (readExpr fuel) ∧
        Stops 1 before (readStmt fuel) ∧
      (∀ prog attributes, Stops 1 before (declaration prog attributes)) ∧
      (∀ known, Stops 0 before (readAttributes fuel known)) ∧
      (∀ prog owner off, Stops 1 before (readClassBody prog owner off fuel [] [])) ∧
      Stops 1 before (readBody fuel) ∧ Stops 1 before (readItems fuel) ∧
      ∀ binds, before.cursor.current.kind.precedence = binds → ∀ floor expr,
        Stops (if binds = 0 ∨ binds < floor then 0 else 1) before (readOperators fuel floor expr) ∧
        Stops (if binds ≤ floor then 0 else 1) before (readStronger fuel floor expr)) ∧
    ∀ kind : Token.Kind, kind.precedence ≠ 0 → kind = .dot ∨ kind = .leftBracket ∨
      (∃ name, kind = .word name) ∨
      ∃ operator op, kind = .operator operator ∧ BinaryOp.ofOperator? operator = some op := by
  refine ⟨fun file src tokens reads => ?_, fun prog marks last isEnd cause fails => ?_,
    fun before ends fuel enough => ?_, fun kind => Token.Kind.operator_of_precedence⟩
  · obtain ⟨marks, pos, same, inner, fewer⟩ := Token.exists_of_scan reads
    exact ⟨marks, ⟨.eof, pos⟩, same, rfl, inner, fewer⟩
  · obtain ⟨ends, fewer⟩ := Cursor.ends_start prog.file marks isEnd
    have due := (Program.extend_induct (motive := fun _ _ => True)
      (fun _ _ _ _ _ _ => trivial) _ trivial).2 cause fails
    refine due.2 ⟨ends, ?_⟩
    rw [List.length_append, List.length_singleton]
    exact Nat.lt_succ_of_le (Nat.le_succ_of_le fewer)
  · have within (spare : Nat) (few : spare ≤ 3) : before.cursor.Within spare fuel := ⟨ends, by omega⟩
    refine ⟨?_, ?_, ?_, fun prog attributes => ?_, fun known => ?_, fun prog owner off => ?_, ?_, ?_, ?_⟩
    · exact ((types_run fuel).type before).stops (within 1 (by simp)) ends fun _ _ reads => reads.1.1
    · exact ((exprs_run fuel).whole before).stops (within 2 (by simp)) ends fun _ _ makes => makes.1
    · exact ((stmts_run fuel).statement before).stops (within 2 (by simp)) ends fun _ _ makes => makes.1
    · exact (declaration_runs attributes before).stops ends ends fun _ _ reads => reads.onward
    · exact (readAttributes_runs fuel known before).stops (within 1 (by simp)) ends fun _ _ passes => passes.1
    · exact (readClassBody_runs prog owner off before.nodes False False.elim fuel []
        [] before False.elim (.none ..)).stops
        (within 1 (by simp)) ends fun _ _ reads => reads.1
    · exact ((stmts_run fuel).body before).stops (within 3 (by simp)) ends fun _ _ makes => makes.1
    · exact ((exprs_run fuel).items before).stops (within 3 (by simp)) ends fun _ _ makes => makes.1
    · rintro binds rfl floor expr
      refine ⟨?_, ?_⟩
      · exact ((exprs_run fuel).operators floor expr before).stops (within 1 (by simp)) ends
          fun _ _ continues => continues.1
      · refine ((exprs_run fuel).stronger floor expr before).stops (within 2 (by simp)) ends fun _ _ continues => ?_
        have onward := continues.1
        grind -ring -linarith

end TernLang
