import Mathlib.Data.List.Induction
import TernLang.Proofs.Syntax.Climbing

/-! Operands with operators between them. They are read as the only tree over them in which
operations that bind more weakly are above the others, and operations that bind alike are nested to
the left. -/
namespace TernLang.Parse

open List

variable {next : Token.Kind} {kinds : List Token.Kind}

/-- The tokens of a name, a literal or an expression in parentheses, with any accesses behind it. -/
inductive IsOperand : List Token.Kind → Expr → Prop where
  | name (mark : Mark) (text : String) : IsOperand [.word text] (.name mark text)
  | literal {val : Literal} {kind : Token.Kind} (mark : Mark) (alone : val.Alone kind) :
    IsOperand [kind] (.literal mark val)
  | number {negated : Bool} {kind : Token.Kind} {val : Literal} (mark : Mark)
    (given : Literal.ofToken? negated kind = some val) :
    IsOperand ((if negated then [.operator .minus] else []) ++ [kind]) (.literal mark val)
  | paren {kinds : List Token.Kind} {expr : Expr} (before after : Nat)
    (inside : Inside kinds expr) :
    IsOperand (.leftParen :: (lines before ++ (kinds ++ (lines after ++ [.rightParen])))) expr
  | member {kinds : List Token.Kind} {expr : Expr} (mark : Mark) (field : String)
    (operand : IsOperand kinds expr) :
    IsOperand (kinds ++ [.dot, .word field]) (.member mark expr field)
  | method {kinds inner : List Token.Kind} {expr : Expr} {args : List Expr} (mark : Mark)
    (callee : String)
    (operand : IsOperand kinds expr) (given : Arguments inner args) :
    IsOperand (kinds ++ .dot :: .word callee :: .leftParen :: (inner ++ [.rightParen]))
      (.method mark expr callee args)
  | index {kinds inner : List Token.Kind} {expr off : Expr} (mark : Mark)
    (operand : IsOperand kinds expr)
    (inside : Inside inner off) :
    IsOperand (kinds ++ .leftBracket :: (inner ++ [.rightBracket])) (.index mark expr off)

/-- The token takes an operand that ends in a name further. -/
def goesOn (kinds : List Token.Kind) : Token.Kind → Bool
  | .leftParen => match kinds.getLast? with
    | some (.word _) => true
    | _ => false
  | .doubleColon => match kinds with
    | [.word _] => true
    | _ => false
  | _ => false

theorem goesOn_closes (closing : closes next = true) : goesOn kinds next = false := by
  cases next <;> first | rfl | contradiction

theorem IsOperand.reads (operand : IsOperand kinds expr) (apart : goesOn kinds next = false) :
    Reads kinds expr next 5 := by
  induction operand generalizing next with
  | name =>
    refine .of_primary (name_primary ?_ ?_) (by simp)
    all_goals
      rintro rfl
      contradiction
  | literal _ alone => exact .of_primary (literal_primary alone) (by simp)
  | number _ given => exact .of_primary (number_primary given) (by simp)
  | paren before after inside => exact .of_primary (paren_primary before after inside) (by simp)
  | member _ _ _ ih =>
    refine (ih rfl).member ?_
    rintro rfl
    simp [goesOn] at apart
  | method _ _ _ given ih => exact (ih rfl).method given
  | index _ _ inside ih => exact (ih rfl).index inside

theorem IsOperand.starts (operand : IsOperand kinds expr) :
    ∃ kind later, kinds = kind :: later ∧ Expr.starts kind = true := by
  induction operand with
  | name | paren => exact ⟨_, _, rfl, rfl⟩
  | literal _ alone => cases alone <;> exact ⟨_, _, rfl, rfl⟩
  | @number negated kind _ _ given =>
    cases negated with
    | true => exact ⟨_, _, rfl, rfl⟩
    | false => cases kind <;> first | exact ⟨_, _, rfl, rfl⟩ | simp [Literal.ofToken?] at given
  | member _ _ _ ih | method _ _ _ _ ih | index _ _ _ ih =>
    obtain ⟨kind, later, rfl, first⟩ := ih
    exact ⟨kind, _, rfl, first⟩

structure Operand where
  kinds : List Token.Kind
  expr : Expr
  isOperand : IsOperand kinds expr

/-- The tokens of operands with operators between them. -/
def sequence (first : Operand) (rest : List (Infix × Operand)) : List Token.Kind :=
  first.kinds ++ rest.flatMap fun entry => entry.1.kind :: entry.2.kinds

/-- A way to put parentheses around operations. -/
inductive Tree where
  | operand (leaf : Operand)
  | operation (op : Infix) (left right : Tree)

namespace Tree
variable {tree tree' : Tree}

/-- A word between operands is called with both. -/
def expr : Tree → Expr
  | operand leaf => leaf.expr
  | operation op left right => op.make left.expr right.expr ⟨0, 0⟩

def first : Tree → Operand
  | operand leaf => leaf
  | operation _ left _ => left.first

def rest : Tree → List (Infix × Operand)
  | operand _ => []
  | operation op left right => left.rest ++ (op, right.first) :: right.rest

/-- How strongly the root binds; operands bind more strongly than all operators. -/
def level : Tree → Nat
  | operand _ => 5
  | operation op _ _ => op.precedence

/-- No operation binds more strongly than its left operand does, and its right operand binds more
strongly. -/
def Ordered : Tree → Prop
  | operand _ => True
  | operation op left right => left.Ordered ∧ right.Ordered ∧ op.precedence ≤ left.level ∧ op.precedence < right.level

theorem reads (ordered : tree.Ordered)
    (apart : goesOn ((tree.rest.map Prod.snd).getLastD tree.first).kinds next = false)
    (weak : next.precedence ≤ tree.level) :
    Reads (sequence tree.first tree.rest) tree.expr next tree.level := by
  induction tree generalizing next with
  | operand leaf => simpa [sequence, rest, first, expr, level] using leaf.isOperand.reads apart
  | operation op left right lefts rights =>
    obtain ⟨ordered, ordered', tighter, tightest⟩ := ordered
    have separate (kinds : List Token.Kind) : goesOn kinds op.kind = false := by cases op <;> rfl
    have first := lefts ordered (separate _) tighter
    have second := rights ordered' (by simpa [rest, getLast?_cons] using apart)
      (Nat.le_trans weak (Nat.le_of_lt tightest))
    simpa [sequence, rest, Tree.first, expr, level] using first.operation op second tighter tightest weak

theorem inside (ordered : tree.Ordered) : Inside (sequence tree.first tree.rest) tree.expr := by
  have reads (next : Token.Kind) (closing : closes next = true) : Reads _ tree.expr next tree.level :=
    tree.reads ordered (goesOn_closes closing) ((closes_weak closing).1 ▸ Nat.zero_le _)
  obtain ⟨kind, later, same, starts⟩ := tree.first.isOperand.starts
  exact .of_reads ⟨kind, _, by rw [sequence, same]; rfl, starts⟩ reads

/-! There is one ordered tree over given operands and operators. -/

theorem Ordered.level_le (ordered : tree.Ordered) :
    ∀ entry ∈ tree.rest, tree.level ≤ entry.1.precedence := by
  induction tree with
  | operand => simp [rest]
  | operation op left right lefts rights =>
    obtain ⟨ordered, ordered', tighter, tightest⟩ := ordered
    intro entry mem
    rcases mem_append.mp mem with mem | mem
    · exact Nat.le_trans tighter (lefts ordered entry mem)
    · rcases mem_cons.mp mem with rfl | mem
      · exact Nat.le_refl _
      · exact Nat.le_trans (Nat.le_of_lt tightest) (rights ordered' entry mem)

theorem Ordered.root_last (ordered : (operation op left right).Ordered)
    (ordered' : (operation op' left' right').Ordered) (lefts : left'.rest = left.rest ++ middle)
    (rights : (op, right.first) :: right.rest = middle ++ (op', right'.first) :: right'.rest) :
    middle = [] := by
  cases middle with
  | nil => rfl
  | cons entry middle =>
    rw [cons_append, cons.injEq] at rights
    obtain ⟨rfl, same⟩ := rights
    obtain ⟨-, below, -, tightest⟩ := ordered
    obtain ⟨above, -, tighter, -⟩ := ordered'
    have above : _ ≤ op.precedence := above.level_le (op, right.first) (by simp [lefts])
    have below : _ ≤ op'.precedence := below.level_le (op', right'.first) (by simp [same])
    omega

theorem Ordered.unique (ordered : tree.Ordered) (ordered' : tree'.Ordered)
    (front : tree.first = tree'.first) (behind : tree.rest = tree'.rest) : tree = tree' := by
  induction tree generalizing tree' with
  | operand leaf =>
    cases tree' with
    | operand leaf' => exact congrArg operand front
    | operation => simp [rest] at behind
  | operation op left right lefts rights =>
    cases tree' with
    | operand leaf => simp [rest] at behind
    | operation op' left' right' =>
      have split : left.rest = left'.rest ∧ (op, right.first) :: right.rest = (op', right'.first) :: right'.rest := by
        rcases append_eq_append_iff.mp behind with ⟨middle, here, there⟩ | ⟨middle, here, there⟩
        · cases ordered.root_last ordered' here there
          exact ⟨by simpa using here.symm, there⟩
        · cases ordered'.root_last ordered here there
          exact ⟨by simpa using here, there.symm⟩
      obtain ⟨before, split⟩ := split
      obtain ⟨root, after⟩ := cons.inj split
      obtain ⟨rfl, next⟩ := Prod.mk.inj root
      rw [lefts ordered.1 ordered'.1 front before, rights ordered.2.1 ordered'.2.1 next after]

/-- One more operation at the end. -/
def add (op : Infix) (leaf : Operand) : Tree → Tree
  | operand first => operation op (operand first) (operand leaf)
  | operation root left right =>
    if op.precedence ≤ root.precedence then operation op (operation root left right) (operand leaf)
    else operation root left (right.add op leaf)

theorem add_reading (op : Infix) (leaf : Operand) (tree : Tree) :
    (tree.add op leaf).first = tree.first ∧
      (tree.add op leaf).rest = tree.rest ++ [(op, leaf)] := by
  induction tree with
  | operand => exact ⟨rfl, rfl⟩
  | operation root left right _ ih =>
    rw [add]
    split
    · exact ⟨rfl, rfl⟩
    · exact ⟨rfl, by simp [rest, ih]⟩

theorem Ordered.add (ordered : tree.Ordered) (op : Infix) (leaf : Operand) :
    (tree.add op leaf).Ordered ∧
      ((tree.add op leaf).level = op.precedence ∨ (tree.add op leaf).level = tree.level) := by
  have bound := op.precedence_bounds.2
  induction tree with
  | operand => exact ⟨⟨trivial, trivial, Nat.le_of_lt bound, bound⟩, .inl rfl⟩
  | operation root left right _ ih =>
    rw [Tree.add]
    split
    · next weaker => exact ⟨⟨ordered, trivial, weaker, bound⟩, .inl rfl⟩
    · next stronger =>
      obtain ⟨ordered, ordered', tighter, tightest⟩ := ordered
      obtain ⟨grown, same⟩ := ih ordered'
      exact ⟨⟨ordered, grown, tighter, by omega⟩, .inr rfl⟩

theorem exists_ordered (first : Operand) (rest : List (Infix × Operand)) :
    ∃ tree : Tree, tree.Ordered ∧ tree.first = first ∧ tree.rest = rest := by
  induction rest using reverseRecOn with
  | nil => exact ⟨operand first, trivial, rfl, rfl⟩
  | append_singleton rest entry ih =>
    obtain ⟨tree, ordered, front, behind⟩ := ih
    obtain ⟨front', behind'⟩ := tree.add_reading entry.1 entry.2
    exact ⟨_, (ordered.add entry.1 entry.2).1, front'.trans front, by rw [behind', behind]⟩

end Tree

/-- Operands with operators between them are read up to the next token that does not bind, as the
only ordered tree. -/
theorem expression_climbs (first : Operand) (rest : List (Infix × Operand)) (next : Token.Kind)
    (ends : next.precedence = 0)
    (apart : goesOn ((rest.map Prod.snd).getLastD first).kinds next = false) :
    ∃ tree : Tree,
      (∀ other : Tree, other.Ordered ∧ other.first = first ∧ other.rest = rest ↔ other = tree) ∧
      Inside (sequence first rest) tree.expr ∧
      Takes (· = next) (sequence first rest) (·.unmarked = tree.expr.unmarked) expression := by
  obtain ⟨tree, ordered, rfl, rfl⟩ := Tree.exists_ordered first rest
  refine ⟨tree, fun other => ⟨?_, ?_⟩, tree.inside ordered, ?_⟩
  · rintro ⟨ordered', front, behind⟩
    exact ordered'.unique ordered front behind
  · rintro rfl
    exact ⟨ordered, rfl, rfl⟩
  · apply Takes.budget
    intro fuel enough
    exact (tree.reads ordered apart (ends ▸ Nat.zero_le _)).readExpr ends (by omega)

def Operand.ofName (text : String) : Operand := ⟨_, _, .name ⟨0, 0⟩ text⟩

/-- `a - b max c * d.size == e`, where a word binds like a sum. -/
theorem mixed_climbs : Token.Kind.newline.precedence = 0 ∧ Takes (· = .newline)
    [.word "a", .operator .minus, .word "b", .word "max", .word "c", .operator .star, .word "d",
      .dot, .word "size",
      .operator .equal, .word "e"]
    (·.unmarked = .binary ⟨0, 0⟩ .equal
      (.call ⟨0, 0⟩ none "max" [.binary ⟨0, 0⟩ .subtract (.name ⟨0, 0⟩ "a") (.name ⟨0, 0⟩ "b"),
        .binary ⟨0, 0⟩ .multiply (.name ⟨0, 0⟩ "c") (.member ⟨0, 0⟩ (.name ⟨0, 0⟩ "d") "size")])
      (.name ⟨0, 0⟩ "e")) expression := by
  refine ⟨rfl, ?_⟩
  obtain ⟨tree, unique, -, takes⟩ := expression_climbs (.ofName "a") [(.symbol .subtract, .ofName "b"),
    (.word "max", .ofName "c"), (.symbol .multiply, ⟨_, _, .member ⟨0, 0⟩ "size" (.name ⟨0, 0⟩ "d")⟩),
    (.symbol .equal, .ofName "e")] .newline rfl rfl
  obtain rfl := (unique (.operation (.symbol .equal) (.operation (.word "max")
    (.operation (.symbol .subtract) (.operand (.ofName "a")) (.operand (.ofName "b")))
    (.operation (.symbol .multiply) (.operand (.ofName "c"))
      (.operand ⟨_, _, .member ⟨0, 0⟩ "size" (.name ⟨0, 0⟩ "d")⟩)))
    (.operand (.ofName "e")))).mp
    ⟨by simp [Tree.Ordered, Tree.level, Infix.precedence, Infix.kind, Token.Kind.precedence,
      BinaryOp.operator, Operator.precedence], rfl, rfl⟩
  exact takes

/-- An opening parenthesis has no precedence either, but it calls the name in front of it. -/
theorem name_goesOn : Token.Kind.leftParen.precedence = 0 ∧
    ¬ Takes (· = .leftParen) [.word "a"] (·.unmarked = .name ⟨0, 0⟩ "a") expression := by
  refine ⟨rfl, fun takes => ?_⟩
  obtain ⟨val, nodes, same, runs⟩ := takes ⟨"a.tn"⟩ 0 [⟨.word "a", ⟨1, 1⟩⟩] ⟨.leftParen, ⟨1, 2⟩⟩
    [⟨.word "b", ⟨1, 3⟩⟩, ⟨.rightParen, ⟨1, 4⟩⟩, ⟨.eof, ⟨1, 5⟩⟩] rfl rfl
  cases runs

end TernLang.Parse
