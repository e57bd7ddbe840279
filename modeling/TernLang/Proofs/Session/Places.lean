import TernLang.Proofs.Session.Imports
import TernLang.Proofs.Table

/-! The files of a disk. A path is followed by names that hold no slash and are no dots, so where it
leads to has one path without detours, and two places never have the same one. What can be loaded is
among the nodes of the disk. -/
namespace TernLang

open List

namespace Text

theorem segments_eq_splitOn (separator : Char) (text : List Char) :
    segments separator text = text.splitOn separator := by
  induction text with
  | nil => rfl
  | cons c rest ih =>
    rw [segments, splitOn, splitOnP_cons_eq_if_modifyHead, ← splitOn, ← ih]
    simp only [beq_iff_eq]
    split
    · rfl
    · cases pieces : segments separator rest with
      | nil => exact absurd pieces (segments_ne_nil separator rest)
      | cons piece others => rfl

theorem separator_not_mem (mem : piece ∈ segments separator text) : separator ∉ piece := by
  induction text generalizing piece with
  | nil =>
    rw [mem_singleton.mp mem]
    exact not_mem_nil
  | cons c rest ih =>
    rw [segments] at mem
    split at mem
    · rcases mem_cons.mp mem with rfl | mem
      · exact not_mem_nil
      · exact ih mem
    · next other =>
      split at mem
      · next none => exact absurd none (segments_ne_nil separator rest)
      · next first pieces cut =>
        rw [cut] at ih
        rcases mem_cons.mp mem with rfl | mem
        · exact not_mem_cons_of_ne_of_not_mem (Ne.symm other) (ih mem_cons_self)
        · exact ih (mem_cons_of_mem _ mem)

end Text

namespace Disk

structure Regular (name : String) : Prop where
  spoken : Path.silent name.toList = false
  forward : name.toList ≠ ['.', '.']
  whole : '/' ∉ name.toList

variable {disk : Disk} {place other : Place} {path file : Path} {library : Option Path}

theorem enter_regular (regular : ∀ name ∈ place, Regular name) (whole : '/' ∉ piece) :
    ∀ name ∈ enter place piece, Regular name := by
  unfold enter
  split
  · exact regular
  · next spoken =>
    split
    · exact fun name mem => regular name (dropLast_subset _ mem)
    · next forward =>
      refine forall_mem_append.mpr ⟨regular, forall_mem_singleton.mpr ⟨?_, ?_, ?_⟩⟩
      · rw [String.toList_ofList]
        exact Bool.eq_false_iff.mpr spoken
      · rw [String.toList_ofList]
        exact fun same => forward (beq_iff_eq.mpr same)
      · rwa [String.toList_ofList]

theorem walk_regular (regular : ∀ name ∈ place, Regular name)
    (whole : ∀ piece ∈ pieces, '/' ∉ piece) (walks : disk.walk place pieces = .ok other) :
    (∀ name ∈ other, Regular name) ∧ (disk.node? other).isSome := by
  induction pieces generalizing place with
  | nil =>
    unfold walk at walks
    split at walks
    · next there =>
      cases walks
      exact ⟨regular, there⟩
    · contradiction
  | cons piece rest ih =>
    obtain ⟨first, later⟩ := forall_mem_cons.mp whole
    unfold walk at walks
    split at walks
    · contradiction
    · contradiction
    · exact ih (enter_regular regular first) later walks

theorem canonical?_regular (here : ∀ name ∈ disk.here, Regular name)
    (leads : disk.canonical? path = some file) :
    ∃ place, file = pathOf place ∧ (∀ name ∈ place, Regular name) ∧ (disk.node? place).isSome := by
  rw [canonical?, Option.map_eq_some_iff] at leads
  obtain ⟨place, located, rfl⟩ := leads
  refine ⟨place, rfl, ?_⟩
  have walks := Success.ok_of_toOption located
  unfold locate at walks
  split at walks
  · contradiction
  · refine walk_regular ?_ (fun _ => Text.separator_not_mem) walks
    unfold start
    split
    · exact forall_mem_nil _
    · exact here

theorem names_regular (here : ∀ name ∈ disk.here, Regular name)
    (names : (disk.sources library).Names file) :
    ∃ place, file = pathOf place ∧ (∀ name ∈ place, Regular name) ∧ (disk.node? place).isSome := by
  rcases names with ⟨path, leads⟩ | ⟨directory, name, found⟩
  · exact canonical?_regular here leads
  · simp only [Disk.sources, Option.bind_eq_some_iff] at found
    obtain ⟨candidate, -, leads⟩ := found
    exact canonical?_regular here leads

theorem components_pathOf (regular : ∀ name ∈ place, Regular name) :
    (pathOf place).components = .root :: place.map .name := by
  have chars : (pathOf place).text.toList = '/' :: intercalate ['/'] (place.map String.toList) := by
    rw [pathOf, String.toList_append, String.toList_intercalate]
    rfl
  have pieces : ((Text.segments '/' (intercalate ['/'] (place.map String.toList))).filter (! Path.silent ·)).map
      Path.Component.ofPiece = place.map .name := by
    cases place with
    | nil => rfl
    | cons first rest =>
      rw [Text.segments_eq_splitOn, splitOn_intercalate, filter_eq_self.mpr, map_map]
      · apply map_congr_left
        intro name mem
        simp [Path.Component.ofPiece, (regular name mem).forward]
      · simpa using fun name mem => (regular name mem).spoken
      · simpa using fun name mem => (regular name mem).whole
      · simp
  rw [Path.components, Path.split, chars]
  exact congrArg (Path.Component.root :: ·) pieces

theorem pathOf_injective (regular : ∀ name ∈ place, Regular name)
    (alike : ∀ name ∈ other, Regular name) (same : (pathOf place).same (pathOf other)) :
    place = other := by
  rw [Path.same_iff, components_pathOf regular, components_pathOf alike, cons.injEq] at same
  exact map_injective_iff.mpr (fun _ _ => Path.Component.name.inj) same.2

theorem text?_root (disk : Disk) : disk.text? (pathOf []) = none := rfl

/-- The imports of the files of a disk are bounded by their number. -/
theorem sources_finite (library : Option Path) (here : ∀ name ∈ disk.here, Regular name) :
    (disk.sources library).Finite (disk.nodes.keys.map pathOf) where
  known file names reads := by
    obtain ⟨place, rfl, -, there⟩ := names_regular here names
    cases place with
    | nil =>
      change (disk.text? (pathOf [])).isSome at reads
      rw [text?_root] at reads
      contradiction
    | cons first rest =>
      obtain ⟨node, found⟩ := Option.isSome_iff_exists.mp there
      exact mem_map_of_mem (mem_map_of_mem (Table.mem_of_find found))
  enough := by
    simp [Table.keys, Disk.sources, Table.size]
  single file other names alike same := by
    obtain ⟨place, rfl, regular, -⟩ := names_regular here names
    obtain ⟨place', rfl, regular', -⟩ := names_regular here alike
    rw [pathOf_injective regular regular' same]

def ofFiles (files : List (String × String)) : Disk :=
  files.foldl (fun disk entry => disk.put [entry.1] entry.2.toUTF8) {}

end Disk
end TernLang
