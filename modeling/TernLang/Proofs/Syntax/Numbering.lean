import TernLang.Proofs.Syntax

/-! The numbers of nodes. A list of expressions is numbered in turn, parts before wholes, if its
nodes have consecutive numbers in their order. -/
namespace TernLang.Expr

theorem nodes_eq (expr : Expr) : expr.nodes = nodesList expr.children ++ [expr] := by
  cases expr <;> simp [nodes, nodesList, children]

theorem nodesList_append (exprs others : List Expr) :
    nodesList (exprs ++ others) = nodesList exprs ++ nodesList others := by
  simp [nodesList_eq]

/-- The nodes have the numbers from the first on, in their order. -/
def Numbered (first : Nat) (nodes : List Expr) (next : Nat) : Prop :=
  nodes.map (·.mark.id) = List.range' first nodes.length ∧ next = first + nodes.length

variable {first middle next : Nat} {nodes others : List Expr}

theorem Numbered.nil (first : Nat) : Numbered first [] first := ⟨rfl, rfl⟩

theorem Numbered.append (before : Numbered first nodes middle)
    (after : Numbered middle others next) :
    Numbered first (nodes ++ others) next := by
  obtain ⟨ids, rfl⟩ := before
  obtain ⟨later, rfl⟩ := after
  refine ⟨?_, by rw [List.length_append, Nat.add_assoc]⟩
  rw [List.map_append, ids, later, List.length_append, List.range'_append_1]

theorem Numbered.node {expr : Expr}
    (parts : Numbered first (nodesList expr.children) expr.mark.id) :
    Numbered first expr.nodes (expr.mark.id + 1) := by
  rw [nodes_eq]
  exact parts.append ⟨rfl, rfl⟩

end TernLang.Expr
