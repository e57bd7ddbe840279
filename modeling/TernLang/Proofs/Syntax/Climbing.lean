import TernLang.Proofs.Syntax.Rendering

/-! Reading by precedence. An expression is read as a primary and what binds to it, accesses before
operations. How far that goes depends on the token behind it. -/
namespace TernLang
open Token List

namespace Expr

mutual

/-- The expression without node numbers and lines. -/
def unmarked : Expr → Expr
  | literal _ val => literal ⟨0, 0⟩ val
  | name _ text => name ⟨0, 0⟩ text
  | addressOf _ val => addressOf ⟨0, 0⟩ val.unmarked
  | load _ val => load ⟨0, 0⟩ val.unmarked
  | index _ val off => index ⟨0, 0⟩ val.unmarked off.unmarked
  | member _ val field => member ⟨0, 0⟩ val.unmarked field
  | call _ scope callee args => call ⟨0, 0⟩ scope callee (unmarkedList args)
  | method _ val callee args => method ⟨0, 0⟩ val.unmarked callee (unmarkedList args)
  | not _ val => not ⟨0, 0⟩ val.unmarked
  | cast _ target val => cast ⟨0, 0⟩ target val.unmarked
  | function _ callee params => function ⟨0, 0⟩ callee params
  | sizeOf _ ty => sizeOf ⟨0, 0⟩ ty
  | allocate _ ty count => allocate ⟨0, 0⟩ ty count
  | allocateMany _ ty count => allocateMany ⟨0, 0⟩ ty count.unmarked
  | array _ items => array ⟨0, 0⟩ (unmarkedList items)
  | constant _ label => constant ⟨0, 0⟩ label
  | qualified _ scope label => qualified ⟨0, 0⟩ scope label
  | binary _ op left right => binary ⟨0, 0⟩ op left.unmarked right.unmarked

def unmarkedList : List Expr → List Expr
  | [] => []
  | item :: items => item.unmarked :: unmarkedList items

end

end Expr

/-- Literals that are no numbers are one token each. -/
inductive Literal.Alone : Literal → Kind → Prop where
  | bool (val : Bool) : Alone (.bool val) (.bool val)
  | string (text : String) : Alone (.string text) (.string text)
  | null : Alone .null (.keyword .null)

/-- What stands between two operands: the sign of an operation, or a word that is called with both.
-/
inductive Infix where
  | symbol (op : BinaryOp)
  | word (name : String)

variable (op : Infix)

namespace Infix

def kind : Infix → Kind
  | symbol op => .operator op.operator
  | word name => .word name

def precedence : Nat := op.kind.precedence

def make : Infix → (left right : Expr) → Mark → Expr
  | symbol op, left, right => (.binary · op left right)
  | word name, left, right => (.call · none name [left, right])

theorem precedence_bounds : 0 < op.precedence ∧ op.precedence < 5 := by
  cases op with
  | symbol op => exact op.precedence_operator
  | word => simp [precedence, kind, Kind.precedence]

theorem unmarked_make (same : left.unmarked = left'.unmarked)
    (same' : right.unmarked = right'.unmarked) (mark mark' : Mark) :
    (op.make left right mark).unmarked = (op.make left' right' mark').unmarked := by
  cases op <;> simp [make, Expr.unmarked, Expr.unmarkedList, same, same']

end Infix

namespace Parse
variable {next kind : Kind} {fuel floor level precedence : Nat} {kinds : List Kind}
  {expr left right : Expr} {post : Expr → Prop}

/-! One step of the readers. -/

alias readPrimary_succ := readPrimary.eq_2

alias readOperators_succ := readOperators.eq_2

theorem Takes.operator {follow : Kind → Prop} {body : Nat → Kind → Parse Expr}
    (strong : kind.precedence ≠ 0 ∧ floor ≤ kind.precedence)
    (andThen : ∀ line, Takes follow (kind :: kinds) post (body line kind)) :
    Takes follow (kind :: kinds) post (Parse.peek >>= fun kind =>
      if kind.precedence = 0 ∨ kind.precedence < floor then Pure.pure left else Parse.line >>=
        fun line => body line kind) := by
  apply Takes.peek
  rw [if_neg (by omega)]
  exact Takes.line andThen

/-- How tokens with `next` behind them are read as an expression: a primary, and then what binds to
it at least as strongly as `level`, one after the other. -/
structure Parts (expr : Expr) (next : Kind) (level : Nat) (base : Expr)
    (front later : List Kind) : Prop where
  alone : later = [] → base = expr
  binds : ∀ kind ∈ later.head?, level ≤ kind.precedence
  primary : ∀ fuel, 8 * front.length ≤ fuel →
    Takes (· = later.headD next) front (·.unmarked = base.unmarked) (readPrimary fuel)
  behind :
    ∀ (fuel floor : Nat) (left : Expr) (kinds : List Kind) (last : Kind) (post : Expr → Prop),
    floor ≤ level → kinds.headD last = next → 8 * (later.length + kinds.length) < fuel →
      left.unmarked = base.unmarked →
    (∀ fuel val, 8 * kinds.length < fuel → val.unmarked = expr.unmarked →
      Takes (· = last) kinds post (readOperators fuel floor val)) →
    Takes (· = last) (later ++ kinds) post (readOperators fuel floor left)

/-- Tokens that are read as an expression whose operations bind at least as strongly as `level`. -/
def Reads (kinds : List Kind) (expr : Expr) (next : Kind) (level : Nat) : Prop :=
  ∃ base front later, kinds = front ++ later ∧ Parts expr next level base front later

theorem readOperators_stops (enough : 0 < fuel)
    (weak : next.precedence = 0 ∨ next.precedence < floor) (holds : post left) :
    Takes (· = next) [] post (readOperators fuel floor left) := by
  cases fuel with
  | zero => contradiction
  | succ fuel =>
    rw [readOperators_succ]
    apply Takes.peek_next
    rintro kind rfl
    dsimp only
    rw [if_pos weak]
    exact .pure holds

theorem readStronger_stops (enough : 0 < fuel) (weak : next.precedence ≤ precedence)
    (holds : post right) : Takes (· = next) [] post (readStronger fuel precedence right) := by
  cases fuel with
  | zero => contradiction
  | succ fuel =>
    unfold readStronger
    apply Takes.peek_next
    rintro kind rfl
    rw [if_neg (by omega)]
    exact .pure holds

namespace Reads

theorem climb (reads : Reads kinds expr next level) (small : floor ≤ level)
    (weak : next.precedence = 0 ∨ next.precedence < floor) (enough : 8 * kinds.length < fuel) :
    Takes (· = next) kinds (·.unmarked = expr.unmarked) (readPrimary fuel >>=
      readOperators fuel floor) := by
  obtain ⟨base, front, later, rfl, parts⟩ := reads
  rw [length_append] at enough
  refine (parts.primary fuel (by omega)).bind ?_ ?_
  · intro left same
    have behind := parts.behind fuel floor left [] next (·.unmarked = expr.unmarked) small rfl
      (by simp; omega) same ?_
    · rwa [append_nil] at behind
    · intro fuel val more same
      exact readOperators_stops (by omega) weak same
  · rintro kind rfl
    rfl

theorem readExpr (reads : Reads kinds expr next level) (weak : next.precedence = 0)
    (enough : 8 * kinds.length + 1 < fuel) :
    Takes (· = next) kinds (·.unmarked = expr.unmarked) (Parse.readExpr fuel) := by
  cases fuel with
  | zero => omega
  | succ fuel =>
    unfold Parse.readExpr
    exact reads.climb (Nat.zero_le level) (.inl weak) (by omega)

theorem readOperand (reads : Reads kinds expr next 5) (weak : next.precedence < 5)
    (enough : 8 * kinds.length + 1 < fuel) :
    Takes (· = next) kinds (·.unmarked = expr.unmarked) (Parse.readOperand fuel) := by
  cases fuel with
  | zero => omega
  | succ fuel =>
    unfold Parse.readOperand
    exact reads.climb (Nat.le_refl 5) (.inr weak) (by omega)

/-- A right operand takes in what binds more strongly than its operation. -/
theorem readRight (reads : Reads kinds expr next level) (weak : next.precedence ≤ precedence)
    (strong : precedence < level) (enough : 8 * kinds.length + 2 < fuel) :
    Takes (· = next) kinds (·.unmarked = expr.unmarked) (Parse.readRight fuel precedence) := by
  obtain ⟨fuel, rfl⟩ : ∃ less, fuel = less + 1 := ⟨fuel - 1, by omega⟩
  obtain ⟨base, front, later, rfl, alone, binds, primary, behind⟩ := reads
  unfold Parse.readRight
  rw [length_append] at enough
  refine (primary fuel (by omega)).bind ?_ ?_
  · intro right same
    cases later with
    | nil =>
      rw [alone rfl] at same
      exact readStronger_stops (by omega) weak same
    | cons kind later =>
      obtain ⟨fuel, rfl⟩ : ∃ less, fuel = less + 1 := ⟨fuel - 1, by omega⟩
      unfold readStronger
      apply Takes.peek
      rw [if_pos (Nat.lt_of_lt_of_le strong (binds kind rfl))]
      have taken := behind fuel (precedence + 1) right [] next (·.unmarked = expr.unmarked) strong rfl
        (by simp at enough ⊢; omega) same ?_
      · rw [append_nil] at taken
        exact taken.ending fun val same => readStronger_stops (by omega) weak same
      · intro fuel val more same
        exact readOperators_stops (by omega) (.inr (by omega)) same
  · rintro kind rfl
    rfl

theorem extend {inner : Nat} (reads : Reads kinds expr sign inner) (tighter : level ≤ inner)
    (binds : level ≤ sign.precedence) (step : ∀ (fuel floor : Nat) (left : Expr) (kinds : List Kind)
      (last : Kind) (post : Expr → Prop), floor ≤ level → kinds.headD last = next →
      8 * (behind.length + 1 + kinds.length) < fuel + 1 → left.unmarked = expr.unmarked → (∀ val,
      val.unmarked = whole.unmarked → Takes (· = last) kinds post (readOperators fuel floor val)) →
      Takes (· = last) (sign :: (behind ++ kinds)) post (readOperators (fuel + 1) floor left)) :
    Reads (kinds ++ sign :: behind) whole next level := by
  obtain ⟨base, front, later, rfl, parts⟩ := reads
  refine ⟨base, front, later ++ sign :: behind, append_assoc .., by simp, ?_, ?_, ?_⟩
  · intro kind mem
    cases later with
    | nil =>
      cases mem
      exact binds
    | cons first later => exact Nat.le_trans tighter (parts.binds kind mem)
  · intro fuel enough
    have primary := parts.primary fuel enough
    cases later with
    | nil => exact primary
    | cons first later => exact primary
  · intro fuel floor left kinds last post small head enough same andThen
    rw [append_assoc]
    rw [length_append, length_cons] at enough
    apply parts.behind fuel floor left (sign :: behind ++ kinds) last post (by omega) rfl (by simp; omega) same
    intro fuel val more same
    obtain ⟨fuel, rfl⟩ : ∃ less, fuel = less + 1 := ⟨fuel - 1, by omega⟩
    rw [length_append, length_cons] at more
    exact step fuel floor val kinds last post small head (by omega) same fun val same =>
      andThen fuel val (by omega) same

/-- An operation whose left operand binds no more weakly than itself, and whose right operand binds
more strongly. -/
theorem operation (first : Reads kinds left op.kind lefts) (second : Reads kinds' right next rights)
    (tighter : op.precedence ≤ lefts) (tightest : op.precedence < rights)
    (weak : next.precedence ≤ op.precedence) :
    Reads (kinds ++ op.kind :: kinds') (op.make left right mark) next op.precedence := by
  apply first.extend tighter (Nat.le_refl _)
  intro fuel floor val kinds last post small head enough same andThen
  have operand : Takes (· = kinds.headD last) _ _ (Parse.readRight fuel op.precedence) :=
    head ▸ second.readRight weak tightest (by omega)
  rw [readOperators_succ]
  apply Takes.operator ⟨Nat.ne_of_gt op.precedence_bounds.1, small⟩
  intro line
  have completes (found : Expr) (same' : found.unmarked = right.unmarked) : Takes (· = last) kinds post
      (node (op.make val found) line >>= readOperators fuel floor) := by
    apply Takes.node
    intro mark
    exact andThen _ (op.unmarked_make same same' _ _)
  have whole := operand.bind completes fun _ follows => congrArg _ follows
  cases op with
  | symbol op =>
    dsimp only [Infix.kind]
    rw [BinaryOp.ofOperator?_operator]
    exact Takes.advance (by simp) whole
  | word => exact Takes.advance (by simp [Infix.kind]) whole

end Reads

/-! Expressions between brackets. -/

abbrev lines (count : Nat) : List Kind := replicate count .newline

def closes : Kind → Bool
  | .newline | .comma | .rightParen | .rightBracket | .rightBrace => true
  | _ => false

/-- Tokens that are read as an expression wherever brackets, commas and lines end it. -/
structure Inside (kinds : List Kind) (expr : Expr) : Prop where
  starts : ∃ kind later, kinds = kind :: later ∧ Expr.starts kind = true
  takes : ∀ fuel, 8 * kinds.length + 1 < fuel →
    Takes (closes · = true) kinds (·.unmarked = expr.unmarked) (readExpr fuel)

theorem closes_weak (closing : closes next = true) :
    next.precedence = 0 ∧ next ≠ .leftParen ∧ next ≠ .doubleColon := by
  cases next <;> simp_all [closes, Kind.precedence]

theorem Inside.of_reads (starts : ∃ kind later, kinds = kind :: later ∧ Expr.starts kind = true)
    (reads : ∀ next, closes next = true → Reads kinds expr next level) : Inside kinds expr where
  starts := starts
  takes _ enough file nodes tokens token rest same closing :=
    (reads token.kind closing).readExpr (closes_weak closing).1 enough file nodes tokens token rest same rfl

theorem Inside.solid (inside : Inside kinds expr) (behind : List Kind) (kind : Kind)
    (away : Expr.starts other = false) :
    (kinds ++ behind).headD kind ≠ other := by
  obtain ⟨first, later, rfl, starts⟩ := inside.starts
  rintro rfl
  exact absurd starts (by simpa using away)

/-- Expressions that are separated by commas. Lines may end around each but the first one. -/
inductive Items : List Kind → List Expr → Prop where
  | last {kinds : List Kind} {expr : Expr} (after : Nat) (inside : Inside kinds expr) :
    Items (kinds ++ lines after) [expr]
  | more {kinds later : List Kind} {expr : Expr} {exprs : List Expr} (after before : Nat)
    (inside : Inside kinds expr)
    (rest : Items later exprs) :
      Items (kinds ++ (lines after ++ .comma :: (lines before ++ later))) (expr :: exprs)

theorem closes_lines (after : Nat) (closing : closes (behind.headD next) = true) :
    closes ((lines after ++ behind).headD next) = true := by
  cases after with
  | zero => exact closing
  | succ => rfl

theorem readItems_takes (items : Items kinds exprs) (before : Nat)
    (ends : next = .rightParen ∨ next = .rightBrace)
    (enough : 8 * (kinds.length + before) + 2 < fuel) :
    Takes (· = next) (lines before ++ kinds) (Expr.unmarkedList · = Expr.unmarkedList exprs)
      (readItems fuel) := by
  have closing : closes next = true ∧ next ≠ .comma ∧ next ≠ .newline := by
    rcases ends with rfl | rfl <;> exact ⟨rfl, by simp, by simp⟩
  obtain ⟨closing, noComma, noLine⟩ := closing
  induction items generalizing fuel before with
  | last after inside =>
    obtain ⟨fuel, rfl⟩ : ∃ less, fuel = less + 1 := ⟨fuel - 1, by omega⟩
    rw [length_append] at enough
    unfold readItems
    apply Takes.skipNewlines before fun _ _ => inside.solid _ _ rfl
    rw [← append_nil (lines after)]
    refine (inside.takes fuel (by omega)).bind ?_ (by rintro _ rfl; exact closes_lines after closing)
    intro val same
    apply Takes.skipNewlines after (by rintro _ rfl; exact noLine)
    apply Takes.accept_other (by rintro _ rfl; exact noComma)
    exact .pure (by simp [Expr.unmarkedList, same])
  | more after between inside rest ih =>
    obtain ⟨fuel, rfl⟩ : ∃ less, fuel = less + 1 := ⟨fuel - 1, by omega⟩
    simp only [length_append, length_cons, length_replicate] at enough
    unfold readItems
    apply Takes.skipNewlines before fun _ _ => inside.solid _ _ rfl
    refine (inside.takes fuel (by omega)).bind ?_ fun _ _ => closes_lines after rfl
    intro val same
    apply Takes.skipNewlines after (by simp)
    apply Takes.accept (by simp)
    rw [if_pos rfl]
    apply (ih between (by omega)).finish
    intro values same'
    rw [Expr.unmarkedList, Expr.unmarkedList, same, same']

inductive Arguments : List Kind → List Expr → Prop where
  | none (before : Nat) : Arguments (lines before) []
  | some {kinds : List Kind} {exprs : List Expr} (before : Nat) (items : Items kinds exprs) :
    Arguments (lines before ++ kinds) exprs

theorem Items.solid (items : Items kinds exprs) (behind : List Kind) (kind : Kind)
    (away : Expr.starts other = false) :
    (kinds ++ behind).headD kind ≠ other := by
  cases items with
  | last _ inside => exact append_assoc _ _ behind ▸ inside.solid _ _ away
  | more _ _ inside => exact append_assoc _ _ behind ▸ inside.solid _ _ away

theorem readArguments_takes (given : Arguments kinds args) (enough : 8 * kinds.length + 3 < fuel) :
    Takes (fun _ => True) (.leftParen :: (kinds ++ [.rightParen])) (Expr.unmarkedList · =
      Expr.unmarkedList args)
      (readArguments fuel) := by
  obtain ⟨fuel, rfl⟩ : ∃ less, fuel = less + 1 := ⟨fuel - 1, by omega⟩
  unfold readArguments
  apply Takes.expect (by simp)
  extract_lets complete
  have completes (values : List Expr) (same : Expr.unmarkedList values = Expr.unmarkedList args) :
      Takes (fun _ => True) [.rightParen] (Expr.unmarkedList · = Expr.unmarkedList args) (complete values) := by
    apply Takes.expect (by simp)
    exact .pure same
  cases given with
  | none before =>
    apply Takes.skipNewlines before (by simp)
    apply Takes.check
    rw [decide_eq_true rfl, if_pos rfl]
    exact completes [] rfl
  | some before items =>
    rw [length_append] at enough
    rw [append_assoc]
    apply Takes.skipNewlines before fun _ _ => items.solid _ _ rfl
    apply Takes.check_other fun _ _ => items.solid _ _ rfl
    exact (readItems_takes items 0 (.inl rfl) (by omega)).bind completes fun _ _ => rfl

/-! Accesses. -/

namespace Reads
variable {mark : Mark} {inner : List Kind}

theorem member (reads : Reads kinds expr .dot 5) (uncalled : next ≠ .leftParen) :
    Reads (kinds ++ [.dot, .word field]) (.member mark expr field) next 5 := by
  apply reads.extend (Nat.le_refl 5) (Nat.le_refl 5)
  intro fuel floor left kinds last post small head enough same andThen
  rw [readOperators_succ]
  apply Takes.operator ⟨by decide, small⟩
  intro line
  apply Takes.advance (by simp)
  apply Takes.word
  apply Takes.check_other (by rintro _ rfl; exact head ▸ uncalled)
  apply Takes.node
  intro mark
  apply andThen
  simp [Expr.unmarked, same]

theorem index (reads : Reads kinds expr .leftBracket 5) (inside : Inside inner off) :
    Reads (kinds ++ .leftBracket :: (inner ++ [.rightBracket])) (.index mark expr off) next 5 := by
  apply reads.extend (Nat.le_refl 5) (Nat.le_refl 5)
  intro fuel floor left kinds last post small head enough same andThen
  rw [length_append] at enough
  rw [readOperators_succ]
  apply Takes.operator ⟨by decide, small⟩
  intro line
  apply Takes.advance (by simp)
  rw [append_assoc]
  refine (inside.takes fuel (by omega)).bind ?_ fun _ _ => rfl
  intro found same'
  apply Takes.expect (by simp)
  apply Takes.node
  intro mark
  apply andThen
  simp [Expr.unmarked, same, same']

theorem method (reads : Reads kinds expr .dot 5) (given : Arguments inner args) :
    Reads (kinds ++ .dot :: .word callee :: .leftParen :: (inner ++ [.rightParen]))
      (.method mark expr callee args) next 5 := by
  apply reads.extend (Nat.le_refl 5) (Nat.le_refl 5)
  intro fuel floor left kinds last post small head enough same andThen
  simp only [length_append, length_cons] at enough
  rw [readOperators_succ]
  apply Takes.operator ⟨by decide, small⟩
  intro line
  apply Takes.advance (by simp)
  apply Takes.word
  apply Takes.check
  rw [decide_eq_true rfl, if_pos rfl]
  refine (readArguments_takes given (by omega)).bind ?_ fun _ _ => trivial
  intro found same'
  apply Takes.node
  intro mark
  apply andThen
  simp [Expr.unmarked, same, same']

end Reads

/-! Primaries. -/

/-- Tokens that are read as a primary, whatever fuel beyond them there is. -/
def Primary (kinds : List Kind) (expr : Expr) (next : Kind) : Prop :=
  ∀ fuel, 8 * kinds.length ≤ fuel + 1 → Takes (· = next) kinds (·.unmarked = expr.unmarked) (readPrimary (fuel + 1))

theorem Reads.of_primary (takes : Primary kinds expr next) (some : kinds ≠ []) :
    Reads kinds expr next 5 := by
  refine ⟨expr, kinds, [], (append_nil _).symm, fun _ => rfl, by simp, ?_, ?_⟩
  · intro fuel enough
    have := length_pos_iff.mpr some
    obtain ⟨fuel, rfl⟩ : ∃ less, fuel = less + 1 := ⟨fuel - 1, by omega⟩
    exact takes fuel enough
  · intro fuel floor left kinds last post _ _ enough same andThen
    rw [length_nil, Nat.zero_add] at enough
    exact andThen fuel left enough same

variable {mark : Mark}

theorem name_primary (uncalled : next ≠ .leftParen) (bare : next ≠ .doubleColon) :
    Primary [.word text] (.name mark text) next := by
  intro fuel _
  rw [readPrimary_succ]
  apply Takes.first
  intro line
  apply Takes.advance (by simp)
  apply Takes.check_other (by rintro _ rfl; exact uncalled)
  apply Takes.accept_other (by rintro _ rfl; exact bare)
  rw [if_neg (by decide)]
  exact .lastNode fun _ => rfl

theorem literal_primary (alone : val.Alone kind) : Primary [kind] (.literal mark val) next := by
  intro fuel _
  rw [readPrimary_succ]
  apply Takes.first
  intro line
  cases alone <;> exact Takes.advance (by simp) (.lastNode fun _ => rfl)

theorem number_primary (given : Literal.ofToken? negated kind = some val) :
    Primary ((if negated then [.operator .minus] else []) ++ [kind]) (.literal mark val) next := by
  have numeric : kind.isNumeric = true ∧ kind ≠ .eof := by cases kind <;> simp_all [Literal.ofToken?, Kind.isNumeric]
  intro fuel _
  rw [readPrimary_succ]
  cases negated with
  | true =>
    apply Takes.first
    intro line
    apply Takes.cursor
    intro cursor ahead _ _ second
    rw [if_pos (by rw [second]; exact numeric.1)]
    apply Takes.advance (by simp)
    apply Takes.numeric given
    apply Takes.advance numeric.2
    exact .lastNode fun _ => rfl
  | false =>
    have read (line : Nat) : Takes (· = next) [kind] (·.unmarked = (Expr.literal mark val).unmarked)
        (Parse.numeric false >>= fun val => advance >>= fun _ => node (.literal · val) line) := by
      apply Takes.numeric given
      apply Takes.advance numeric.2
      exact .lastNode fun _ => rfl
    apply Takes.first
    intro line
    cases kind with
    | integer | half | float | double => exact read line
    | _ => simp [Literal.ofToken?] at given

theorem paren_primary (before after : Nat) (inside : Inside kinds expr) :
    Primary (.leftParen :: (lines before ++ (kinds ++ (lines after ++ [.rightParen])))) expr next :=
      by
  intro fuel enough
  simp only [length_append, length_cons] at enough
  rw [readPrimary_succ]
  apply Takes.first
  intro line
  apply Takes.advance (by simp)
  apply Takes.skipNewlines before fun _ _ => inside.solid _ _ rfl
  refine (inside.takes fuel (by omega)).bind ?_ fun _ _ => closes_lines after rfl
  intro val same
  apply Takes.skipNewlines after (by simp)
  apply Takes.expect (by simp)
  exact .pure same

end Parse
end TernLang
