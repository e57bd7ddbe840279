/-! Maps from natural numbers to values, as binary trees. A key is found in as many steps as
it has digits in base two, so that large keys cost little and unused ones nothing. -/
namespace TernLang

/-- The root has key zero. Below it, key `2 * k + 1` is key `k` of the first subtree and
`2 * k + 2` is key `k` of the second. -/
inductive Sparse (α : Type) where
  | empty
  | node (root : Option α) (odd even : Sparse α)

namespace Sparse
variable {α : Type}

instance : Inhabited (Sparse α) := ⟨empty⟩

def get? : Sparse α → Nat → Option α
  | empty, _ => none
  | node root _ _, 0 => root
  | node _ odd even, key + 1 => if key % 2 = 0 then odd.get? (key / 2) else even.get? (key / 2)

/-- Root and subtrees; those of the empty map are empty. -/
def parts : Sparse α → Option α × Sparse α × Sparse α
  | empty => (none, empty, empty)
  | node root odd even => (root, odd, even)

/-- Write below a tree of a given depth. -/
def setWithin : (depth : Nat) → Sparse α → Nat → Option α → Sparse α
  | 0, map, _, _ => map
  | depth + 1, map, key, val =>
    let (root, odd, even) := map.parts
    match key with
    | 0 => node val odd even
    | key + 1 =>
      if key % 2 = 0 then node root (setWithin depth odd (key / 2) val) even
      else node root odd (setWithin depth even (key / 2) val)

/-- Give a key a value, or take its value away. -/
def set (map : Sparse α) (key : Nat) (val : Option α) : Sparse α :=
  setWithin ((key + 1).log2 + 1) map key val

def insert (map : Sparse α) (key : Nat) (val : α) : Sparse α := map.set key (some val)

def erase (map : Sparse α) (key : Nat) : Sparse α := map.set key none

@[simp] theorem get?_empty (key : Nat) : (empty : Sparse α).get? key = none := rfl

theorem get?_setWithin (depth : Nat) (map : Sparse α) (key other : Nat) (val : Option α)
    (deep : (key + 1).log2 < depth) :
    (setWithin depth map key val).get? other = if other = key then val else map.get? other := by
  induction depth generalizing map key other with
  | zero => omega
  | succ depth ih =>
    cases key with
    | zero => cases map <;> cases other <;> simp [setWithin, parts, get?]
    | succ key =>
      have half : (key / 2 + 1).log2 < depth := by
        rw [Nat.log2_def, if_pos (by omega), show (key + 1 + 1) / 2 = key / 2 + 1 by omega] at deep
        omega
      cases other with
      | zero => by_cases parity : key % 2 = 0 <;> cases map <;> simp [setWithin, parts, get?, parity]
      | succ other =>
        have halves (alike : other % 2 = key % 2) : (other / 2 = key / 2) = (other + 1 = key + 1) :=
          propext (by omega)
        have apart (unlike : other % 2 ≠ key % 2) : other ≠ key := by omega
        rcases Nat.mod_two_eq_zero_or_one key with parity | parity <;>
          rcases Nat.mod_two_eq_zero_or_one other with parity' | parity' <;> cases map <;>
          simp [setWithin, parts, get?, ih _ _ _ half, halves, apart, parity, parity']

/-- Writing changes one key. -/
theorem get?_set (map : Sparse α) (key other : Nat) (val : Option α) :
    (map.set key val).get? other = if other = key then val else map.get? other :=
  get?_setWithin _ map key other val (Nat.lt_succ_self _)

@[simp] theorem get?_insert (map : Sparse α) (key other : Nat) (val : α) :
    (map.insert key val).get? other = if other = key then some val else map.get? other :=
  get?_set map key other (some val)

@[simp] theorem get?_erase (map : Sparse α) (key other : Nat) :
    (map.erase key).get? other = if other = key then none else map.get? other :=
  get?_set map key other none

end Sparse
end TernLang
