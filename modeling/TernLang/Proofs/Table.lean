import TernLang.Scope

/-! Looking up what was put into a table, and the variables of a scope. -/
namespace TernLang

open List

namespace Table
variable {κ α : Type} [DecidableEq κ] {entries : List (κ × α)}

theorem get?_insert (table : Table κ α) (key other : κ) (val : α) :
    (table.insert key val).get? other = if other = key then some val else table.get? other := by
  split
  · next same => rw [same, get?_insert_self]
  · next ne => exact get?_insert_of_ne ne table val

theorem get?_insertNew (table : Table κ α) (key other : κ) (val : α) :
    (table.insertNew key val).get? other =
      (table.get? other).or (if other = key then some val else none) := by
  unfold insertNew
  split
  · next there =>
    cases found : table.get? other with
    | some _ => rfl
    | none =>
      rw [if_neg, Option.or_none]
      rintro rfl
      simp [contains, found] at there
  · next absent =>
    rw [get?_insert]
    split
    · next same =>
      rw [same]
      simp only [contains, Option.not_isSome_iff_eq_none] at absent
      rw [absent, Option.none_or]
    · rw [Option.or_none]

theorem mem_of_find (found : find key entries = some val) : (key, val) ∈ entries := by
  induction entries with
  | nil => contradiction
  | cons entry rest ih =>
    obtain ⟨k, a⟩ := entry
    simp only [find] at found
    split at found
    · next same =>
      cases found
      simp [same]
    · exact mem_cons_of_mem _ (ih found)

theorem mem_put (mem : entry ∈ put key val entries) : entry = (key, val) ∨ entry ∈ entries := by
  induction entries with
  | nil => exact .inl (mem_singleton.mp mem)
  | cons first rest ih =>
    obtain ⟨k, a⟩ := first
    simp only [put] at mem
    split at mem
    · next same =>
      subst same
      rcases mem_cons.mp mem with rfl | mem
      · exact .inl rfl
      · exact .inr (mem_cons_of_mem _ mem)
    · rcases mem_cons.mp mem with rfl | mem
      · exact .inr mem_cons_self
      · exact (ih mem).imp id (mem_cons_of_mem _)

end Table

namespace Scope

/-- All variables, hidden ones included. -/
def all (scope : Scope) : List Variable := (scope.locals :: scope.outer).flatMap Table.values

theorem mem_all {scope : Scope} (found : scope.lookup? name = some var) : var ∈ scope.all := by
  obtain ⟨table, mem, found⟩ := exists_of_findSome?_eq_some found
  exact mem_flatMap.mpr ⟨table, mem, mem_map.mpr ⟨_, Table.mem_of_find found, rfl⟩⟩

end Scope

end TernLang
