import Mathlib
import TernLang.Program.Parser
import TernLang.Proofs.Success
import TernLang.Proofs.Token.Spelling

/-! Steps of a parse, as triples over its state. A step goes on in the tokens, never past the end
mark; a failure lies in the text, and is no want of budget where the budget covers the tokens that
are left. -/
namespace TernLang
open Std.Do

set_option mvcgen.warning false

/-- A cause that a single text gives, without any other file. -/
def Error.InText : Error → Prop
  | .lex .. | .parse .. => True
  | .name _ cause => match cause with
    | .unknownModule _ | .circularImport _ => False
    | _ => True
  | _ => False

/-- A parse gave up, for want of budget or at an operator without an operation. -/
def Error.Stuck : Error → Prop
  | .parse _ cause => cause = .exhausted ∨ ∃ found, cause = .expected .binaryOperator found
  | _ => False

section
variable {loc : Location} {wanted : LexError} {cause : ParseError} {clash : NameError}

@[grind =] theorem Error.inText_lex : (Error.lex loc wanted).InText ↔ True := Iff.rfl

@[grind =] theorem Error.inText_parse : (Error.parse loc cause).InText ↔ True := Iff.rfl

@[grind =] theorem Error.inText_name : (Error.name loc clash).InText ↔
    (∀ name, clash ≠ .unknownModule name) ∧ ∀ file, clash ≠ .circularImport file := by
  cases clash <;> simp [InText]

@[grind =] theorem Error.stuck_lex : (Error.lex loc wanted).Stuck ↔ False := Iff.rfl

@[grind =] theorem Error.stuck_parse : (Error.parse loc cause).Stuck ↔
    cause = .exhausted ∨ ∃ found, cause = .expected .binaryOperator found := Iff.rfl

@[grind =] theorem Error.stuck_name : (Error.name loc clash).Stuck ↔ False := Iff.rfl

end

/-- A failure lies in the text, and is not one to give up where the budget is enough. -/
@[grind =] def Error.Due (enough : Prop) (cause : Error) : Prop :=
  cause.InText ∧ (enough → ¬ cause.Stuck)

theorem Token.scan_inText {pos : Position} (fails : scan file skip pos text = .error cause) :
    cause.InText := by
  induction text generalizing skip pos with
  | nil => contradiction
  | cons c text ih =>
    cases skip with
    | succ skip => exact ih fails
    | zero =>
      rw [scan] at fails
      split at fails
      · exact ih fails
      · split at fails
        · cases fails
          trivial
        · rcases Success.bind_error.mp fails with here | ⟨tokens, -, there⟩
          · exact ih here
          · split at there <;> contradiction

namespace Cursor
variable {cursor : Cursor} {text : String}

def tokens (cursor : Cursor) : List Token := cursor.current :: cursor.rest

def Lexed (cursor : Cursor) : Prop := ∀ token ∈ cursor.tokens, token.kind.Lexed

def ending (cursor : Cursor) : List Token := cursor.tokens.dropWhile (·.kind ≠ .eof)

@[grind =] def Ends (cursor : Cursor) : Prop := cursor.ending ≠ []

def left (cursor : Cursor) : Nat := (cursor.tokens.takeWhile (·.kind ≠ .eof)).length

/-- At least so many tokens further on, in front of the same end mark. -/
@[grind =] def Onward (count : Nat) (before after : Cursor) : Prop :=
  (before.Lexed → after.Lexed) ∧
    (before.Ends → after.ending = before.ending ∧ after.left + count ≤ before.left)

/-- The budget of a reader covers the tokens that are left. -/
@[grind =] def Within (cursor : Cursor) (spare budget : Nat) : Prop :=
  cursor.Ends ∧ 8 * cursor.left + spare ≤ budget

theorem onward_refl (cursor : Cursor) : Onward 0 cursor cursor := ⟨id, fun _ => ⟨rfl, le_rfl⟩⟩

theorem onward_of_drop {file : Path} {current next : Token} {rest : List Token}
    (other : current.kind ≠ .eof) :
    Onward 1 ⟨file, current, next :: rest⟩ ⟨file, next, rest⟩ := by
  refine ⟨fun lexed token mem => lexed token (List.mem_cons_of_mem _ mem), fun _ => ?_⟩
  simp [ending, left, tokens, List.dropWhile_cons (x := current), List.takeWhile_cons (a := current), other]

theorem onward_advance (cursor : Cursor) :
    Onward (if cursor.current.kind = .eof then 0 else 1) cursor cursor.advance := by
  obtain ⟨file, current, rest⟩ := cursor
  by_cases last : current.kind = .eof
  · simp only [advance, last, if_true, onward_refl]
  · simp only [advance, last, if_false]
    cases rest with
    | nil => exact ⟨id, fun ends => absurd (by simp [ending, tokens, last]) ends⟩
    | cons next rest => exact onward_of_drop last

theorem onward_skipNewlines (cursor : Cursor) : Onward 0 cursor cursor.skipNewlines := by
  obtain ⟨file, current, rest⟩ := cursor
  change Onward 0 _ (pastNewlines file current rest)
  induction rest generalizing current with
  | nil => exact onward_refl _
  | cons next rest ih =>
    rw [pastNewlines]
    split
    · next line =>
      have other : current.kind ≠ .eof := fun last => nomatch last.symm.trans line
      have first : Onward 1 ⟨file, current, next :: rest⟩ ⟨file, next, rest⟩ := onward_of_drop other
      have others := ih next
      grind -ring -linarith
    · exact onward_refl _

theorem within_budget (ends : cursor.Ends) : cursor.Within 8 cursor.budget := by
  refine ⟨ends, ?_⟩
  have whole : cursor.left + cursor.ending.length = cursor.tokens.length := by
    rw [left, ending, ← List.length_append, List.takeWhile_append_dropWhile]
  have some := List.length_pos_iff.mpr ends
  rw [tokens, List.length_cons] at whole
  rw [budget]
  omega

theorem Lexed.word (lexed : cursor.Lexed) (here : cursor.current.kind = .word text) :
    Token.isWord text = true := by
  have := lexed _ List.mem_cons_self
  rwa [here] at this

theorem Lexed.string (lexed : cursor.Lexed) (here : cursor.current.kind = .string text) :
    '"' ∉ text.toList := by
  have := lexed _ List.mem_cons_self
  rwa [here] at this

theorem kind_sliceAhead (slice : cursor.sliceAhead 0 = true) :
    cursor.current.kind = .leftBracket := by
  simp only [sliceAhead, peekAhead, Bool.and_eq_true] at slice
  exact of_decide_eq_true slice.1

theorem lexed_start {file : Path} {tokens : List Token}
    (lexed : ∀ token ∈ tokens, token.kind.Lexed) :
    (start file tokens).Lexed := by
  cases tokens with
  | nil => simp [Lexed, start, Cursor.tokens, Token.Kind.Lexed]
  | cons first rest => exact lexed

grind_pattern onward_advance => cursor.advance
grind_pattern onward_skipNewlines => cursor.skipNewlines
grind_pattern within_budget => cursor.budget
grind_pattern Lexed.word => cursor.Lexed, cursor.current.kind, Token.Kind.word text
grind_pattern Lexed.string => cursor.Lexed, cursor.current.kind, Token.Kind.string text
grind_pattern kind_sliceAhead => cursor.sliceAhead 0

end Cursor

namespace Parse
variable {α : Type} {before : Reading} {enough : Prop}

/-- Only tokens were read, one at least. -/
@[grind =] def Passes (before after : Reading) : Prop :=
  before.cursor.Onward 1 after.cursor ∧ after.nodes = before.nodes

/-- The shape of what is said of a parse: its state, and its failure. -/
abbrev shape : PostShape := .arg Reading (.except Error .pure)

/-- From the given state a parse gives what is stated, or fails as is due. -/
abbrev Runs (enough : Prop) (before : Reading) (post : α → Reading → Prop) (action : Parse α) :
    Prop :=
  ⦃fun reading => ⌜reading = before⌝⦄ action
    ⦃post⟨fun val after => ⌜post val after⌝, fun cause => ⌜cause.Due enough⌝⟩⦄

-- `True` keeps the calls at the end of a parse from being matched with the whole of it.
theorem Runs.intro {post : α → Reading → Prop} (runs : ⦃fun reading => ⌜reading = before⌝⦄ action
      ⦃post⟨fun val after => ⌜post val after ∧ True⌝, fun cause => ⌜cause.Due enough ∧ True⌝⟩⦄) :
    Runs enough before post action := by
  simpa only [and_true] using runs

section
variable {post : α → Reading → Prop} {action : Parse α} (runs : Runs enough before post action)
include runs

theorem Runs.ok (ok : action.run before = .ok (val, after)) : post val after := by
  have holds := runs before rfl
  simp only [wp, PredTrans.apply_pushArg, ok] at holds
  exact holds

theorem Runs.error (fails : action.run before = .error cause) : cause.Due enough := by
  have holds := runs before rfl
  simp only [wp, PredTrans.apply_pushArg, fails] at holds
  exact holds

end

section
variable {kind : Token.Kind} {cause : ParseError} {wanted : Wanted}

@[spec] theorem cursor_spec : ⦃fun r => Q.1 r.cursor r⦄ cursor ⦃Q⦄ := fun _ holds => holds

@[spec] theorem peek_spec : ⦃fun r => Q.1 r.cursor.current.kind r⦄ peek ⦃Q⦄ := fun _ holds => holds

@[spec] theorem line_spec : ⦃fun r => Q.1 r.cursor.line r⦄ line ⦃Q⦄ := fun _ holds => holds

@[spec] theorem budget_spec : ⦃fun r => Q.1 r.cursor.budget r⦄ budget ⦃Q⦄ := fun _ holds => holds

@[spec] theorem check_spec :
    ⦃fun r => Q.1 (decide (r.cursor.current.kind = kind)) r⦄ check kind ⦃Q⦄ := fun _ holds => holds

@[spec] theorem advance_spec : ⦃fun r => Q.1 () { r with cursor := r.cursor.advance }⦄ advance
  ⦃Q⦄ := fun _ holds => holds

@[spec] theorem skipNewlines_spec : ⦃fun r => Q.1 () { r with cursor := r.cursor.skipNewlines }⦄
  skipNewlines ⦃Q⦄ := fun _ holds => holds

@[spec] theorem node_spec {line : Nat} :
    ⦃fun r => Q.1 (make ⟨r.nodes, line⟩) { r with nodes := r.nodes + 1 }⦄ node make line ⦃Q⦄ := fun _ holds => holds

@[spec] theorem fail_spec :
    ⦃fun r => Q.2.1 (.parse r.cursor.location cause)⦄ (fail cause : Parse α) ⦃Q⦄ :=
  fun _ holds => holds

@[spec] theorem unexpected_spec :
    ⦃fun r => Q.2.1 (.parse r.cursor.location (.expected wanted r.cursor.current.kind))⦄
      (unexpected wanted : Parse α) ⦃Q⦄ :=
  fun _ holds => holds

@[spec] theorem exhausted_spec :
    ⦃fun r => Q.2.1 (.parse r.cursor.location .exhausted)⦄ (exhausted : Parse α) ⦃Q⦄ :=
  fun _ holds => holds

@[spec] theorem failLex_spec {cause : LexError} :
    ⦃fun r => Q.2.1 (.lex r.cursor.location cause)⦄ (failLex cause : Parse α) ⦃Q⦄ :=
  fun _ holds => holds

@[spec] theorem failName_spec {line : Nat} {cause : NameError} :
    ⦃fun r => Q.2.1 (.name ⟨r.cursor.file, line⟩ cause)⦄ (failName line cause : Parse α) ⦃Q⦄ :=
  fun _ holds => holds

end

attribute [spec] accept expect expectKeyword word string lineEnd

end Parse
end TernLang
