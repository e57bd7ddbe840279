import TernLang.Batch
import TernLang.Proofs.Success

/-! Work in batches gives what work item by item gives. -/
namespace TernLang.Batch

open List

variable {ε α β : Type}

def slice (items : List α) (first last : Nat) : List α := (items.drop first).take (last - first)

theorem slice_append (items : List α) (le : first ≤ middle) (le' : middle ≤ last) :
    slice items first middle ++ slice items middle last = slice items first last := by
  unfold slice
  have split : last - first = (middle - first) + (last - middle) := by omega
  have drops : items.drop middle = (items.drop first).drop (middle - first) := by
    rw [drop_drop]
    congr 1
    omega
  rw [split, drops, take_add]

theorem slice_full (items : List α) : slice items 0 items.length = items := by simp [slice]

/-- Ranges that follow each other from one place to another, none of them empty. -/
inductive Tiles : Nat → Nat → List (Nat × Nat) → Prop where
  | nil (place : Nat) : Tiles place place []
  | cons {first middle last : Nat} {rest : List (Nat × Nat)} : first < middle →
    Tiles middle last rest →
    Tiles first last ((first, middle) :: rest)

namespace Tiles
variable {first middle last : Nat} {early late : List (Nat × Nat)}

theorem append (front : Tiles first middle early) (back : Tiles middle last late) :
    Tiles first last (early ++ late) := by
  induction front with
  | nil => exact back
  | cons filled _ ih => exact .cons filled (ih back)

theorem le (tiles : Tiles first last early) : first ≤ last := by
  induction tiles with
  | nil => exact Nat.le_refl _
  | cons filled _ ih => exact Nat.le_trans (Nat.le_of_lt filled) ih

/-- Neighbours may be empty before empty ranges are dropped. -/
theorem filter_singleton (le : first ≤ last) :
    Tiles first last ([(first, last)].filter fun (first, last) => decide (first < last)) := by
  rcases Nat.lt_or_eq_of_le le with less | rfl
  · rw [filter_cons_of_pos (by simpa using less)]
    exact .cons less (.nil last)
  · rw [filter_cons_of_neg (by simp)]
    exact .nil first

theorem filled (tiles : Tiles first last early) : ∀ range ∈ early, range.1 < range.2 := by
  induction tiles with
  | nil => exact forall_mem_nil _
  | cons filled _ ih => exact forall_mem_cons.mpr ⟨filled, ih⟩

theorem flatMap_slice (tiles : Tiles first last early) (items : List α) :
    early.flatMap (fun range => slice items range.1 range.2) = slice items first last := by
  induction tiles with
  | nil => simp [slice]
  | cons filled rest ih => rw [flatMap_cons, ih, slice_append items (Nat.le_of_lt filled) rest.le]

/-- Every number is in one of the ranges, and they come in order. -/
theorem flatMap_range' (tiles : Tiles first last early) :
    early.flatMap (fun range => range' range.1 (range.2 - range.1)) = range' first (last - first) :=
      by
  induction tiles with
  | nil => simp
  | @cons first middle last _ filled rest ih =>
    have le := rest.le
    rw [flatMap_cons, ih, show last - first = (middle - first) + (last - middle) by omega,
      ← range'_append_1, show first + (middle - first) = middle by omega]

end Tiles

/-- Ranges follow each other and leave nothing out. -/
theorem tiles_ranges (total asked : Nat) : Tiles 0 total (ranges total asked) := by
  obtain ⟨count, some⟩ : ∃ count, workers asked = count + 1 := ⟨workers asked - 1, by unfold workers; omega⟩
  unfold ranges
  rw [some]
  extract_lets all share range
  have bounded : count * share ≤ total :=
    Nat.le_trans (Nat.mul_le_mul_right share (Nat.le_succ count)) (Nat.mul_div_le total (count + 1))
  have others (worker : Nat) (less : worker < count) : range worker = (worker * share, worker * share + share) := by
    simp only [range, Prod.mk.injEq, true_and]
    exact if_neg (show ¬worker + 1 = count + 1 by omega)
  have early (worker : Nat) (le : worker ≤ count) :
      Tiles 0 (worker * share)
      (((List.range worker).map range).filter fun (first, last) => decide (first < last)) := by
    induction worker with
    | zero =>
      rw [Nat.zero_mul]
      exact .nil 0
    | succ worker ih =>
      rw [range_succ, map_append, filter_append, map_singleton, others worker le, Nat.succ_mul]
      exact (ih (Nat.le_of_succ_le le)).append (.filter_singleton (Nat.le_add_right _ _))
  have late : range count = (count * share, total) := by simp only [range, all, if_true]
  rw [range_succ, map_append, filter_append, map_singleton, late]
  exact (early count (Nat.le_refl _)).append (.filter_singleton bounded)

theorem length_ranges (total asked : Nat) : (ranges total asked).length ≤ workers asked := by
  refine Nat.le_trans (length_filter_le ..) (Nat.le_of_eq ?_)
  rw [length_map, length_range]

variable {work : α → Except ε β} {results : List β} {items : List α}

theorem collect_ok (collects : collect (items.map work) = .ok results) :
    Forall₂ (fun item res => work item = .ok res) items results := by
  induction items generalizing results with
  | nil =>
    cases collects
    exact .nil
  | cons item items ih =>
    rw [map_cons] at collects
    cases here : work item with
    | error cause =>
      rw [here] at collects
      contradiction
    | ok res =>
      rw [here, collect] at collects
      cases there : collect (items.map work) with
      | error cause =>
        rw [there] at collects
        contradiction
      | ok rest =>
        rw [there] at collects
        cases collects
        exact .cons here (ih there)

/-- The number of workers does not show. -/
theorem run_eq (asked : Nat) (items : List α) (work : α → Except ε β) :
    Batch.run asked items work = collect (items.map work) := by
  unfold Batch.run
  extract_lets batches
  have whole : batches.flatten = items.map work := by
    calc batches.flatten =
      (ranges items.length asked).flatMap (fun range => (slice items range.1 range.2).map work) :=
          (flatMap_def ..).symm
      _ = ((ranges items.length asked).flatMap (fun range => slice items range.1 range.2)).map work :=
          (map_flatMap ..).symm
      _ = items.map work := by
          rw [(tiles_ranges items.length asked).flatMap_slice, slice_full]
  rw [whole]

theorem run_ok (run : Batch.run asked items work = .ok results) :
    Forall₂ (fun item res => work item = .ok res) items results :=
  collect_ok (run_eq asked items work ▸ run)

theorem exists_of_run_ok (run : Batch.run asked items work = .ok results) :
    ∀ item ∈ items, ∃ res, work item = .ok res :=
  fun item mem => (exists_of_forall₂ (run_ok run) item mem).imp fun _ found => found.2

end TernLang.Batch
