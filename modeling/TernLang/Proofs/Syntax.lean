import TernLang.Syntax

/-! Induction over syntax trees by the direct parts of a node. -/
namespace TernLang

/-- What holds of an expression if it holds of its parts holds of all expressions. -/
theorem Expr.induct {motive : Expr → Prop}
    (step : ∀ expr, (∀ child ∈ expr.children, motive child) → motive expr) (expr : Expr) :
    motive expr := by
  apply @Expr.rec motive (∀ child ∈ ·, motive child)
  case nil | cons => simp_all
  all_goals
    intros
    apply step
    simp_all [children]

def Stmt.blocks : Stmt → List (List Stmt)
  | branch _ _ _ body | loop _ _ _ body => [body]
  | branchElse _ _ _ body otherwise => [body, otherwise]
  | declare .. | define .. | leave .. | assign .. | call .. | method .. | delete .. => []

/-- What holds of a statement if it holds of those in its blocks holds of all statements. -/
theorem Stmt.induct {motive : Stmt → Prop}
    (step : ∀ stmt, (∀ block ∈ stmt.blocks, ∀ inner ∈ block, motive inner) → motive stmt)
    (stmt : Stmt) : motive stmt := by
  apply @Stmt.rec motive (∀ inner ∈ ·, motive inner)
  case nil | cons => simp_all
  all_goals
    intros
    apply step
    simp_all [blocks]

/-! All nodes of an expression and all expressions of a block. -/

theorem Expr.mem_nodes_self (expr : Expr) : expr ∈ expr.nodes := by
  cases expr <;> simp [nodes]

theorem Expr.nodesList_eq (exprs : List Expr) : nodesList exprs = exprs.flatMap nodes := by
  induction exprs <;> simp_all [nodesList]

theorem Expr.mem_nodesList : node ∈ nodesList exprs ↔ ∃ expr ∈ exprs, node ∈ expr.nodes := by simp [nodesList_eq]

theorem Expr.mem_nodes_iff {expr node : Expr} :
    node ∈ expr.nodes ↔ node = expr ∨ ∃ child ∈ expr.children, node ∈ child.nodes := by
  cases expr <;> simp [nodes, children, mem_nodesList, or_comm, or_left_comm]

theorem Expr.nodes_child {expr child : Expr} (part : child ∈ expr.children) :
    child.nodes ⊆ expr.nodes :=
  fun _ mem => mem_nodes_iff.mpr (.inr ⟨child, part, mem⟩)

theorem Expr.nodes_trans {expr node : Expr} (mem : node ∈ expr.nodes) :
    node.nodes ⊆ expr.nodes := by
  induction expr using Expr.induct with | step expr ih =>
  rcases mem_nodes_iff.mp mem with rfl | ⟨child, part, inside⟩
  · exact List.Subset.refl _
  · exact List.Subset.trans (ih child part inside) (nodes_child part)

theorem Stmt.rootsList_block {stmt : Stmt} (part : block ∈ stmt.blocks) :
    rootsList block ⊆ stmt.roots := by
  intro root mem
  cases stmt with
  | declare | define | leave | assign | call | method | delete => simp [blocks] at part
  | branch | loop =>
    obtain rfl : block = _ := by simpa [blocks] using part
    simp [roots, mem]
  | branchElse =>
    simp only [blocks, List.mem_cons, List.not_mem_nil, or_false] at part
    rcases part with rfl | rfl <;> simp [roots, mem]

end TernLang
