import TernLang.Proofs.Success
import TernLang.Syntax.Parser

/-! What a parse takes. It takes tokens of some kinds if it succeeds wherever they stand next, with
the cursor on the token behind them, which may be restricted to what cannot belong to them. -/
namespace TernLang

open List

theorem Cursor.advance_start {file : Path} {next : Token} {rest : List Token}
    (more : token.kind ≠ .eof) :
    (Cursor.start file (token :: next :: rest)).advance = Cursor.start file (next :: rest) := by
  simp [Cursor.start, Cursor.advance, more]

theorem Cursor.kind_start (file : Path) (tokens : List Token) (next : Token) (rest : List Token) :
    (Cursor.start file (tokens ++ next :: rest)).current.kind =
      (tokens.map (·.kind)).headD next.kind := by
  cases tokens <;> rfl

namespace Parse
variable {α β : Type} {follow follow' : Token.Kind → Prop} {kinds kinds' : List Token.Kind}
  {kind : Token.Kind} {mid : α → Prop} {post : β → Prop} {next : PUnit → Parse β} {action : Parse α}

/-- The parse takes tokens of these kinds and gives a value as stated, if the token after them is as
stated. -/
def Takes (follow : Token.Kind → Prop) (kinds : List Token.Kind) (post : β → Prop)
    (action : Parse β) : Prop :=
  ∀ (file : Path) (nodes : Nat) (tokens : List Token) (next : Token) (rest : List Token),
    tokens.map (·.kind) = kinds → follow next.kind →
    ∃ val nodes', post val ∧
      action.run ⟨.start file (tokens ++ next :: rest), nodes⟩ = .ok (val, ⟨⟨file, next, rest⟩, nodes'⟩)

namespace Takes

theorem pure (holds : post val) : Takes follow [] post (Pure.pure val) := by
  intro file nodes tokens next rest same _
  cases map_eq_nil_iff.mp same
  exact ⟨val, nodes, holds, rfl⟩

theorem mono {post' : β → Prop} {action : Parse β} (takes : Takes follow kinds post action)
    (stronger : ∀ kind, follow' kind → follow kind) (weaker : ∀ val, post val → post' val) :
    Takes follow' kinds post' action := by
  intro file nodes tokens next rest same follows
  obtain ⟨val, nodes', holds, runs⟩ := takes file nodes tokens next rest same (stronger _ follows)
  exact ⟨val, nodes', weaker _ holds, runs⟩

/-- What the second parse takes has to be allowed behind what the first one takes. -/
theorem bind {next : α → Parse β} (first : Takes follow kinds mid action)
    (andThen : ∀ val, mid val → Takes follow' kinds' post (next val))
    (joins : ∀ kind, follow' kind → follow (kinds'.headD kind)) :
    Takes follow' (kinds ++ kinds') post (action >>= next) := by
  intro file nodes tokens token rest same follows
  obtain ⟨front, back, rfl, taken, rfl⟩ := map_eq_append_iff.mp same
  have allowed := joins token.kind follows
  cases back with
  | nil =>
    rw [append_nil]
    obtain ⟨val, between, holds, runs⟩ := first file nodes front token rest taken allowed
    obtain ⟨res, nodes', finally_, later⟩ := andThen val holds file between [] token rest rfl follows
    exact ⟨res, nodes', finally_, (Success.run_bind_of_ok runs).trans later⟩
  | cons head back =>
    rw [append_assoc]
    obtain ⟨val, between, holds, runs⟩ := first file nodes front head (back ++ token :: rest) taken allowed
    obtain ⟨res, nodes', finally_, later⟩ := andThen val holds file between (head :: back) token rest rfl follows
    exact ⟨res, nodes', finally_, (Success.run_bind_of_ok runs).trans later⟩

theorem ending {next : α → Parse β} (takes : Takes follow kinds mid action)
    (ends : ∀ val, mid val → Takes follow [] post (next val)) :
    Takes follow kinds post (action >>= next) := by
  have whole := takes.bind ends fun _ => id
  rwa [append_nil] at whole

theorem finish {make : α → β} (takes : Takes follow kinds mid action)
    (holds : ∀ val, mid val → post (make val)) :
    Takes follow kinds post (action >>= fun val => Pure.pure (make val)) :=
  takes.ending fun val given => .pure (holds val given)

theorem advance (more : kind ≠ .eof) (andThen : Takes follow kinds post (next ⟨⟩)) :
    Takes follow (kind :: kinds) post (Parse.advance >>= next) := by
  intro file nodes tokens token rest same follows
  obtain ⟨first, later, rfl, rfl, taken⟩ := map_eq_cons_iff.mp same
  obtain ⟨val, nodes', holds, runs⟩ := andThen file nodes later token rest taken follows
  refine ⟨val, nodes', holds, ?_⟩
  change (next ⟨⟩).run ⟨(Cursor.start file (first :: (later ++ token :: rest))).advance, nodes⟩ = _
  cases later with
  | nil => rwa [nil_append, Cursor.advance_start more]
  | cons second later => rwa [cons_append, Cursor.advance_start more]

theorem peek {next : Token.Kind → Parse β}
    (andThen : Takes follow (kind :: kinds) post (next kind)) :
    Takes follow (kind :: kinds) post (Parse.peek >>= next) := by
  intro file nodes tokens token rest same follows
  obtain ⟨first, later, rfl, rfl, -⟩ := map_eq_cons_iff.mp same
  exact andThen file nodes _ token rest same follows

theorem peek_next {next : Token.Kind → Parse β}
    (andThen : ∀ kind, follow kind → Takes (· = kind) [] post (next kind)) :
    Takes follow [] post (Parse.peek >>= next) := by
  intro file nodes tokens token rest same follows
  cases map_eq_nil_iff.mp same
  exact andThen token.kind follows file nodes [] token rest rfl rfl

variable {wanted : Token.Kind}

theorem check {next : Bool → Parse β}
    (andThen : Takes follow (kind :: kinds) post (next (decide (kind = wanted)))) :
    Takes follow (kind :: kinds) post (Parse.check wanted >>= next) := by
  rw [Parse.check, bind_assoc]
  apply peek
  rwa [pure_bind]

theorem check_other {next : Bool → Parse β}
    (other : ∀ kind, follow kind → kinds.headD kind ≠ wanted)
    (andThen : Takes follow kinds post (next false)) :
    Takes follow kinds post (Parse.check wanted >>= next) := by
  intro file nodes tokens token rest same follows
  obtain ⟨val, nodes', holds, runs⟩ := andThen file nodes tokens token rest same follows
  refine ⟨val, nodes', holds, ?_⟩
  rw [← runs, Parse.check, bind_assoc]
  change (next (decide ((Cursor.start file (tokens ++ token :: rest)).current.kind = wanted))).run _ = _
  rw [Cursor.kind_start, same, decide_eq_false (other token.kind follows)]

theorem accept {next : Bool → Parse β} (more : kind ≠ .eof)
    (andThen : Takes follow kinds post (next true)) :
    Takes follow (kind :: kinds) post (Parse.accept kind >>= next) := by
  rw [Parse.accept, bind_assoc]
  apply check
  rw [decide_eq_true rfl, if_pos rfl, bind_assoc]
  apply advance more
  rwa [pure_bind]

theorem accept_other {next : Bool → Parse β}
    (other : ∀ kind, follow kind → kinds.headD kind ≠ wanted)
    (andThen : Takes follow kinds post (next false)) :
    Takes follow kinds post (Parse.accept wanted >>= next) := by
  rw [Parse.accept, bind_assoc]
  apply check_other other
  rwa [if_neg (by decide), pure_bind]

theorem expect (more : kind ≠ .eof) (andThen : Takes follow kinds post (next ⟨⟩)) :
    Takes follow (kind :: kinds) post (Parse.expect kind >>= next) := by
  rw [Parse.expect, bind_assoc]
  apply accept more
  rwa [if_neg (by decide), pure_bind]

theorem expectKeyword (andThen : Takes follow kinds post (next ⟨⟩)) :
    Takes follow (.keyword keyword :: kinds) post (Parse.expectKeyword keyword >>= next) := by
  rw [Parse.expectKeyword, bind_assoc]
  apply accept (by simp)
  rwa [if_neg (by decide), pure_bind]

theorem word {next : String → Parse β} (andThen : Takes follow kinds post (next text)) :
    Takes follow (.word text :: kinds) post (Parse.word >>= next) := by
  rw [Parse.word, bind_assoc]
  apply peek
  rw [bind_assoc]
  apply advance (by simp)
  rwa [pure_bind]

theorem line {next : Nat → Parse β} (andThen : ∀ line, Takes follow kinds post (next line)) :
    Takes follow kinds post (Parse.line >>= next) := by
  intro file nodes tokens token rest same follows
  exact andThen _ file nodes tokens token rest same follows

theorem first {next : Nat → Token.Kind → Parse β}
    (andThen : ∀ line, Takes follow (kind :: kinds) post (next line kind)) :
    Takes follow (kind :: kinds) post (Parse.line >>= fun line => Parse.peek >>= next line) :=
  Takes.line fun line => Takes.peek (andThen line)

theorem budget {next : Nat → Parse β}
    (andThen : ∀ fuel, 8 * (kinds.length + 1) ≤ fuel → Takes follow kinds post (next fuel)) :
    Takes follow kinds post (Parse.budget >>= next) := by
  intro file nodes tokens token rest same follows
  apply andThen _ _ file nodes tokens token rest same follows
  subst same
  cases tokens with
  | nil =>
    simp only [nil_append, Cursor.start, Cursor.budget, map_nil, length_nil]
    omega
  | cons first later =>
    simp only [cons_append, Cursor.start, Cursor.budget, length_append, length_cons, length_map]
    omega

theorem cursor {next : Cursor → Parse β}
    (andThen : ∀ (cursor : Cursor) (ahead : Token.Kind), follow ahead → cursor.peekAhead 0 = kind →
      cursor.peekAhead 1 = kinds.headD ahead → Takes follow (kind :: kinds) post (next cursor)) :
    Takes follow (kind :: kinds) post (Parse.cursor >>= next) := by
  intro file nodes tokens token rest same follows
  refine andThen _ token.kind follows ?_ ?_ file nodes tokens token rest same follows
  · obtain ⟨first, later, rfl, rfl, -⟩ := map_eq_cons_iff.mp same
    rfl
  · obtain ⟨first, later, rfl, -, rfl⟩ := map_eq_cons_iff.mp same
    cases later <;> rfl

theorem node {line : Nat} {next : Expr → Parse β}
    (andThen : ∀ mark, Takes follow kinds post (next (make mark))) :
    Takes follow kinds post (Parse.node make line >>= next) := by
  intro file nodes tokens token rest same follows
  exact andThen _ file _ tokens token rest same follows

theorem lastNode {make : Mark → Expr} {line : Nat} {post : Expr → Prop}
    (holds : ∀ mark, post (make mark)) :
    Takes follow [] post (Parse.node make line) := by
  rw [← bind_pure (Parse.node make line)]
  exact node fun mark => .pure (holds mark)

theorem thenNode {make : α → Mark → Expr} {line : Nat} {post : Expr → Prop}
    (takes : Takes follow kinds mid action)
    (holds : ∀ val, mid val → ∀ mark, post (make val mark)) :
    Takes follow kinds post (action >>= fun val => Parse.node (make val) line) :=
  takes.ending fun val given => lastNode (holds val given)

theorem numeric {next : Literal → Parse β} (given : Literal.ofToken? negated kind = some val)
    (andThen : Takes follow (kind :: kinds) post (next val)) :
    Takes follow (kind :: kinds) post (Parse.numeric negated >>= next) := by
  rw [Parse.numeric, bind_assoc]
  apply peek
  rw [given, pure_bind]
  exact andThen

theorem skipNewlines (count : Nat) (other : ∀ kind, follow kind → kinds.headD kind ≠ .newline)
    (andThen : Takes follow kinds post (next ⟨⟩)) :
    Takes follow (replicate count .newline ++ kinds) post (Parse.skipNewlines >>= next) := by
  intro file nodes tokens token rest same follows
  obtain ⟨lines, tokens, rfl, ended, taken⟩ := map_eq_append_iff.mp same
  have skips : (Cursor.start file (lines ++ tokens ++ token :: rest)).skipNewlines =
      .start file (tokens ++ token :: rest) := by
    clear same
    induction count generalizing lines with
    | zero =>
      have away := other token.kind follows
      cases map_eq_nil_iff.mp ended
      subst taken
      cases tokens with
      | nil => cases rest <;> simp_all [Cursor.start, Cursor.skipNewlines, Cursor.pastNewlines]
      | cons first later => cases later <;> simp_all [Cursor.start, Cursor.skipNewlines, Cursor.pastNewlines]
    | succ count ih =>
      obtain ⟨line, lines, rfl, newline, ended⟩ := map_eq_cons_iff.mp ended
      rw [← ih lines ended]
      obtain ⟨first, more, split⟩ := exists_cons_of_ne_nil (l := lines ++ tokens ++ token :: rest) (by simp)
      rw [cons_append, cons_append, split]
      exact if_pos newline
  obtain ⟨val, nodes', holds, runs⟩ := andThen file nodes tokens token rest taken follows
  refine ⟨val, nodes', holds, ?_⟩
  change (next ⟨⟩).run ⟨(Cursor.start file (lines ++ tokens ++ token :: rest)).skipNewlines, nodes⟩ = _
  rwa [skips]

end Takes
end Parse
end TernLang
