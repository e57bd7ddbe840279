import Mathlib
import TernLang.Proofs.Syntax.Numbering
import TernLang.Syntax.Copy

/-! Copies of expressions. A copy has the next numbers in turn. It is the original node by node, but
for named constants: a copy for another program has their values, and what is left of them is
undeclared or lies on a cycle. -/
namespace TernLang.Expr
open Relation Std.Do List

set_option mvcgen.warning false

/-- The node alone: its line, and all but its number and its parts. -/
def head : Expr → Expr
  | literal mark val => literal ⟨0, mark.line⟩ val
  | name mark text => name ⟨0, mark.line⟩ text
  | addressOf mark _ => addressOf ⟨0, mark.line⟩ hole
  | load mark _ => load ⟨0, mark.line⟩ hole
  | index mark _ _ => index ⟨0, mark.line⟩ hole hole
  | member mark _ field => member ⟨0, mark.line⟩ hole field
  | call mark scope callee _ => call ⟨0, mark.line⟩ scope callee []
  | method mark _ callee _ => method ⟨0, mark.line⟩ hole callee []
  | not mark _ => not ⟨0, mark.line⟩ hole
  | cast mark target _ => cast ⟨0, mark.line⟩ target hole
  | function mark callee params => function ⟨0, mark.line⟩ callee params
  | sizeOf mark ty => sizeOf ⟨0, mark.line⟩ ty
  | allocate mark ty count => allocate ⟨0, mark.line⟩ ty count
  | allocateMany mark ty _ => allocateMany ⟨0, mark.line⟩ ty hole
  | array mark _ => array ⟨0, mark.line⟩ []
  | constant mark label => constant ⟨0, mark.line⟩ label
  | qualified mark scope label => qualified ⟨0, mark.line⟩ scope label
  | binary mark op _ _ => binary ⟨0, mark.line⟩ op hole hole
where
  hole : Expr := name ⟨0, 0⟩ ""

def constant? : Expr → Option String
  | constant _ label => some label
  | _ => none

/-- Copies, node by node, inside the values of some constants. A constant stands for a copy of its
value, unless it has none or is one of those. -/
inductive Expands (value? : String → Option Expr) : (expanding : List String) →
    (exprs copies : List Expr) → Prop
  | nil (expanding : List String) : Expands value? expanding [] []
  | node {expanding : List String} {expr copy : Expr} {exprs copies : List Expr} :
    copy.head = expr.head →
    (∀ label, expr.constant? = some label → label ∈ expanding ∨ value? label = none) →
    Expands value? expanding expr.children copy.children → Expands value? expanding exprs copies →
    Expands value? expanding (expr :: exprs) (copy :: copies)
  | value {expanding : List String} {expr value copy : Expr} {exprs copies : List Expr}
    {label : String} :
    expr.constant? = some label → label ∉ expanding → value? label = some value →
    Expands value? (label :: expanding) [value] [copy] → Expands value? expanding exprs copies →
    Expands value? expanding (expr :: exprs) (copy :: copies)

/-- The copies are numbered in turn. -/
structure Copied (value? : String → Option Expr) (expanding : List String) (first : Nat)
    (exprs copies : List Expr) (next : Nat) :
    Prop where
  numbered : Numbered first (nodesList copies) next
  expands : Expands value? expanding exprs copies

section
variable {value? : String → Option Expr} {expanding : List String} {first middle next : Nat}
  {expr copy : Expr} {exprs others copies later : List Expr}

theorem Expands.append (first : Expands value? expanding exprs copies)
    (rest : Expands value? expanding others later) :
    Expands value? expanding (exprs ++ others) (copies ++ later) := by
  induction first with
  | nil => exact rest
  | node same kept parts _ _ ih => exact .node same kept parts (ih rest)
  | value named new declared inner _ _ ih => exact .value named new declared inner (ih rest)

namespace Copied

@[grind .] theorem nil (value? : String → Option Expr) (expanding : List String) (first : Nat) :
    Copied value? expanding first [] [] first := ⟨.nil first, .nil expanding⟩

theorem append (here : Copied value? expanding first exprs copies middle)
    (rest : Copied value? expanding middle others later next) :
    Copied value? expanding first (exprs ++ others) (copies ++ later) next where
  numbered := nodesList_append copies later ▸ here.numbered.append rest.numbered
  expands := here.expands.append rest.expands

theorem cons (here : Copied value? expanding first [expr] [copy] middle)
    (rest : Copied value? expanding middle exprs copies next) :
    Copied value? expanding first (expr :: exprs) (copy :: copies) next := here.append rest

theorem node (parts : Copied value? expanding first expr.children copy.children copy.mark.id)
    (same : copy.head = expr.head)
    (kept : ∀ label, expr.constant? = some label → label ∈ expanding ∨ value? label = none)
    (last : next = copy.mark.id + 1) :
    Copied value? expanding first [expr] [copy] next where
  numbered := by
    rw [last, nodesList, nodesList, append_nil]
    exact parts.numbered.node
  expands := .node same kept parts.expands (.nil expanding)

grind_pattern append => Copied value? expanding first exprs copies middle,
  Copied value? expanding middle others later next,
  exprs ++ others
grind_pattern cons => Copied value? expanding first [expr] [copy] middle,
  Copied value? expanding middle exprs copies next,
  expr :: exprs
grind_pattern node => Copied value? expanding first [expr] [copy] next

end Copied
end

attribute [grind =] children mark head constant?

/-! Copying, as triples over the counter. -/

/-- From the given number the action makes what is stated. -/
abbrev Makes {α : Type} (first : Nat) (post : α → Nat → Prop) (action : StateM Nat α) : Prop :=
  ⦃fun next => ⌜next = first⌝⦄ action ⦃⇓ val next => ⌜post val next⌝⦄

theorem makes_iff {α : Type} {post : α → Nat → Prop} {action : StateM Nat α} :
    Makes first post action ↔ post (action.run first).1 (action.run first).2 := by
  refine ⟨fun makes => makes first rfl, fun holds next same => ?_⟩
  cases same
  exact holds

@[spec] theorem fresh_spec {line : Nat} :
    ⦃fun next => Q.1 (make ⟨next, line⟩) (next + 1)⦄ fresh make line ⦃Q⦄ := fun _ holds => holds

section
variable {value? : String → Option Expr} {expanding : List String}
  {constant : Mark → String → StateM Nat Expr}

theorem copyListWith_makes (each : ∀ item ∈ items, ∀ first, Makes first
      (Copied value? expanding first [item] [·]) (item.copyWith constant)) (first : Nat) :
    Makes first (Copied value? expanding first items) (copyListWith constant items) := by
  induction items generalizing first with
  | nil =>
    mvcgen -trivial [copyListWith]
    grind -ring -linarith
  | cons item items ih =>
    obtain ⟨here, rest⟩ := forall_mem_cons.mp each
    have others := ih rest
    mvcgen -trivial [copyListWith, here, others]
    clear here others
    grind -ring -linarith

theorem copyWith_makes (constants : ∀ mark label first, Makes first (Copied value? expanding first
      [.constant mark label] [·]) (constant mark label)) (expr : Expr) (first : Nat) :
    Makes first (Copied value? expanding first [expr] [·]) (expr.copyWith constant) := by
  induction expr using Expr.induct generalizing first with | step expr below =>
  have lists {items : List Expr} (parts : ∀ item ∈ items, item ∈ expr.children) :=
    copyListWith_makes fun item mem => below item (parts item mem)
  cases expr <;> rw [copyWith] <;> mvcgen -trivial [below, lists, constants] <;> clear below lists constants <;>
    grind -ring -linarith

theorem keepConstant_makes {label : String} (kept : label ∈ expanding ∨ value? label = none)
    (mark : Mark) (first : Nat) :
    Makes first (Copied value? expanding first [.constant mark label] [·])
      (keepConstant mark label) := by
  mvcgen -trivial [keepConstant]
  grind -ring -linarith

/-- The budget never decides what stays, if it covers the constants that are not being expanded. -/
theorem expandConstant_makes {labels : List String}
    (table : ∀ label, value? label ≠ none → label ∈ labels) (fuel : Nat) (apart : expanding.Nodup)
    (known : expanding ⊆ labels) (enough : labels.length ≤ fuel + expanding.length) (mark : Mark)
    (label : String) (first : Nat) :
    Makes first (Copied value? expanding first [.constant mark label] [·])
      (expandConstant value? fuel expanding mark label) := by
  induction fuel generalizing expanding mark label first with
  | zero =>
    refine keepConstant_makes (or_iff_not_imp_right.mpr fun declared => ?_) mark first
    exact ((apart.subperm known).perm_of_length_le (by omega)).mem_iff.mpr (table label declared)
  | succ fuel ih =>
    rw [expandConstant]
    split
    · next inside => exact keepConstant_makes (.inl (contains_iff_mem.mp inside)) mark first
    · next outside =>
      rw [contains_iff_mem] at outside
      split
      · next undeclared => exact keepConstant_makes (.inr undeclared) mark first
      · next val declared =>
        have inner := ih (apart.cons outside) (cons_subset.mpr ⟨table label (by simp [declared]), known⟩)
          (by rw [length_cons]; omega)
        obtain ⟨numbered, expands⟩ := makes_iff.mp (copyWith_makes inner val first)
        exact makes_iff.mpr ⟨numbered, .value rfl outside declared expands (.nil _)⟩

end

theorem copyOut_makes (constants : List (String × Expr)) (expr : Expr) (first : Nat) :
    Makes first (Copied (constants.lookup ·) [] first [expr] [·]) (expr.copyOut constants) := by
  have table (label : String) (declared : constants.lookup label ≠ none) : label ∈ constants.map (·.1) := by
    obtain ⟨entry, mem, same⟩ := lookup_isSome_iff.mp (Option.isSome_iff_ne_none.mpr declared)
    exact mem_map.mpr ⟨entry, mem, (beq_iff_eq.mp same).symm⟩
  exact copyWith_makes (expandConstant_makes table constants.length .nil (nil_subset _) (by simp)) expr first

/-! What is left of constants. -/

/-- The value of one constant names the other. -/
def Uses (value? : String → Option Expr) (label other : String) : Prop :=
  ∃ val, value? label = some val ∧ ∃ node ∈ val.nodes, node.constant? = some other

theorem constant?_head (expr : Expr) : expr.head.constant? = expr.constant? := by cases expr <;> rfl

theorem Expands.left (expands : Expands value? expanding exprs copies)
    (inside : ∀ outer ∈ expanding, ∀ node ∈ nodesList exprs, ∀ label ∈ node.constant?,
      TransGen (Uses value?) outer label) :
    ∀ node ∈ nodesList copies, ∀ label ∈ node.constant?, value? label = none ∨
      TransGen (Uses value?) label label := by
  induction expands with
  | nil => exact forall_mem_nil _
  | @node expanding expr copy exprs copies same kept _ _ parts rest =>
    simp only [nodesList, nodes_eq, forall_mem_append, forall_mem_singleton] at inside ⊢
    refine ⟨⟨parts fun outer mem => (inside outer mem).1.1, fun label left => ?_⟩,
      rest fun outer mem => (inside outer mem).2⟩
    rw [← constant?_head, same, constant?_head] at left
    exact (kept label left).elim (fun mem => .inr ((inside label mem).1.2 label left)) .inl
  | @value expanding expr val copy exprs copies label named _ declared _ _ inner rest =>
    have here := fun outer mem => (forall_mem_append.mp (inside outer mem)).1 expr expr.mem_nodes_self label named
    simp only [nodesList, append_nil] at inner
    refine forall_mem_append.mpr ⟨inner fun outer mem node part other names => ?_,
      rest fun outer mem => (forall_mem_append.mp (inside outer mem)).2⟩
    have uses : Uses value? label other := ⟨val, declared, node, part, names⟩
    rcases mem_cons.mp mem with rfl | mem
    · exact .single uses
    · exact (here outer mem).tail uses

/-- A copy for another program has new nodes only. It is the original with the values of constants,
node by node; a constant that is left has no value, or needs itself. -/
theorem copyOut_expands (constants : List (String × Expr)) (expr : Expr) (first : Nat) :
    let value? := (constants.lookup ·)
    ∃ copy next, (expr.copyOut constants).run first = (copy, next) ∧
    Numbered first copy.nodes next ∧ Expands value? [] [expr] [copy] ∧
      (∀ node ∈ copy.nodes, ∀ label ∈ node.constant?, value? label = none ∨ TransGen (Uses value?) label label) ∧
      ((∀ label, ¬TransGen (Uses value?) label label) →
        ∀ node ∈ copy.nodes, ∀ label ∈ node.constant?, value? label = none) := by
  intro value?
  obtain ⟨numbered, expands⟩ := makes_iff.mp (copyOut_makes constants expr first)
  have left := expands.left (forall_mem_nil _)
  simp only [nodesList, append_nil] at numbered left
  exact ⟨_, _, rfl, numbered, expands, left,
    fun acyclic node mem label names => (left node mem label names).resolve_right (acyclic label)⟩

end TernLang.Expr
