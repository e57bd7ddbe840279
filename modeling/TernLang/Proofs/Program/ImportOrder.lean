import TernLang.Proofs.Program.Outcome

/-! Two imports in either order. One order succeeds just if the other does, and both add the same
declarations. A clash is never between two declarations of one file, so a file that is reached on
several ways merges once. -/
namespace TernLang

open List

namespace Program
variable {prog first second between after after' left : Program} {isPublic : Bool} {cause : Error}

def MergesBoth (prog first second : Program) (isPublic : Bool) (after : Program) : Prop :=
  ∃ between, prog.merge first isPublic = (.ok (), between) ∧ between.merge second isPublic = (.ok (), after)

theorem MergesBoth.extends (merges : prog.MergesBoth first second isPublic after) :
    Extends isPublic (first.offers ++ second.offers) prog after := by
  obtain ⟨between, early, late⟩ := merges
  exact (merge_extends early).trans (merge_extends late)

theorem mergesBoth_iff : (∃ after, prog.MergesBoth first second isPublic after) ↔
    Key.Admits prog.keys (first.offers ++ second.offers) := by
  have there {between : Program} (merges : prog.merge first isPublic = (.ok (), between)) (key : Key) :
      key ∈ prog.keys ++ first.offers ↔ key ∈ between.keys := by
    rw [mem_append, (merge_extends merges).mem_keys]
  rw [Key.admits_append]
  constructor
  · rintro ⟨after, between, early, late⟩
    exact ⟨(merge_ok_iff isPublic).mp ⟨between, early⟩,
      ((merge_ok_iff isPublic).mp ⟨after, late⟩).congr (there early) fun _ => .rfl⟩
  · rintro ⟨early, late⟩
    obtain ⟨between, merges⟩ := (merge_ok_iff isPublic).mpr early
    obtain ⟨after, later⟩ := (merge_ok_iff isPublic).mpr
      (late.congr (fun key => (there merges key).symm) fun _ => .rfl)
    exact ⟨after, between, merges, later⟩

theorem Extends.same_added (extends_ : Extends isPublic offered prog after)
    (extends' : Extends isPublic offered' prog after')
    (same : ∀ key, key ∈ offered ↔ key ∈ offered') (cat : Category) : ∃ added added' : List Key,
      after.entries cat = prog.entries cat ++ added.map (⟨·, isPublic⟩) ∧
      after'.entries cat = prog.entries cat ++ added'.map (⟨·, isPublic⟩) ∧
      added.Perm added' ∧ added.Nodup ∧ ∀ key ∈ added, key ∉ prog.keys := by
  obtain ⟨added, nodup, mem, entries⟩ := extends_.entries
  obtain ⟨added', nodup', mem', entries'⟩ := extends'.entries
  refine ⟨_, _, entries cat, entries' cat, ?_, nodup.filter _, fun key there => ?_⟩
  · apply Perm.filter
    rw [perm_ext_iff_of_nodup nodup nodup']
    intro key
    rw [mem, mem', same]
  · exact ((mem key).mp (mem_filter.mp there).1).2

/-- A declaration that stops the second merge was not offered by the first program, and is not from
the file of the one that it clashes with. -/
theorem merge_clash (early : prog.merge first isPublic = (.ok (), between))
    (late : between.merge second isPublic = (.error cause, left)) :
    ∃ key ∈ second.offers, ∃ taken ∈ left.keys, key.Clashes taken ∧ key ∉ prog.keys ∧
      key ∉ first.offers ∧
      ∀ shared : Program, shared.Consistent → key ∈ shared.offers → taken ∉ shared.offers := by
  have outcome := merge_outcome between second isPublic
  rw [late] at outcome
  cases outcome with
  | @stopped done rest key taken _ loc cat split extends_ new there clash =>
    have unknown : key ∉ prog.keys ∧ key ∉ first.offers := by
      rw [extends_.mem_keys, (merge_extends early).mem_keys] at new
      tauto
    refine ⟨key, ?_, taken, there, clash, unknown.1, unknown.2, fun shared consistent mine yours => ?_⟩
    · rw [split]
      exact mem_append_right _ mem_cons_self
    · exact new (consistent.offers_apart mine yours clash ▸ there)

/-- The order of two imports does not matter, and no file clashes with itself. -/
theorem merge_order (prog first second : Program) (isPublic : Bool) :
    ((∃ after, prog.MergesBoth first second isPublic after) ↔
      ∃ after, prog.MergesBoth second first isPublic after) ∧
    (∀ after after', prog.MergesBoth first second isPublic after →
      prog.MergesBoth second first isPublic after' →
      after.functions = prog.functions ∧ after'.functions = prog.functions ∧
      ∀ cat, ∃ added added' : List Key,
        after.entries cat = prog.entries cat ++ added.map (⟨·, isPublic⟩) ∧
        after'.entries cat = prog.entries cat ++ added'.map (⟨·, isPublic⟩) ∧
        added.Perm added' ∧ added.Nodup ∧ ∀ key ∈ added, key ∉ prog.keys) ∧
    ∀ between cause left, prog.merge first isPublic = (.ok (), between) →
      between.merge second isPublic = (.error cause, left) →
      ∃ key ∈ second.offers, ∃ taken ∈ left.keys, key.Clashes taken ∧ key ∉ prog.keys ∧
        key ∉ first.offers ∧
        ∀ shared : Program, shared.Consistent → key ∈ shared.offers → taken ∉ shared.offers := by
  have same (key : Key) : key ∈ first.offers ++ second.offers ↔ key ∈ second.offers ++ first.offers := by
    rw [mem_append, mem_append, or_comm]
  refine ⟨?_, fun after after' merges merges' => ?_, fun _ _ _ => merge_clash⟩
  · rw [mergesBoth_iff, mergesBoth_iff]
    exact ⟨fun admits => admits.congr (fun _ => .rfl) fun key => (same key).symm,
      fun admits => admits.congr (fun _ => .rfl) same⟩
  · exact ⟨merges.extends.functions, merges'.extends.functions, merges.extends.same_added merges'.extends same⟩

/-- `public struct L(x int)` with the shapes, which it passes on. -/
def leftWay : Program :=
  ((ofKinds "left.tn" [.keyword .visible, .keyword .struct, .word "L", .leftParen, .word "x",
  .word "int", .rightParen, .newline, .eof]).merge shapes true).2

/-- `public struct R(x int)` with the shapes, which it passes on. -/
def rightWay : Program :=
  ((ofKinds "right.tn" [.keyword .visible, .keyword .struct, .word "R", .leftParen, .word "x",
  .word "int", .rightParen, .newline, .eof]).merge shapes true).2

/-- The shapes are reached on two ways, and are merged once. -/
theorem ways_order : ∃ after after',
    MergesBoth { file := ⟨"top.tn"⟩ } leftWay rightWay false after ∧
    MergesBoth { file := ⟨"top.tn"⟩ } rightWay leftWay false after' ∧
    after.valueNames = ["L", "S", "R", "T"] ∧ after'.valueNames = ["R", "S", "L", "T"] ∧ ∃ added added' : List Key,
      after.entries .struct = added.map (⟨·, false⟩) ∧ after'.entries .struct = added'.map (⟨·, false⟩) ∧
      added.Perm added' ∧ added.Nodup := by
  have merges (first second : Program)
    (early : (({ file := ⟨"top.tn"⟩ } : Program).merge first false).1.toOption = some ())
      (late : (((({ file := ⟨"top.tn"⟩ } : Program).merge first false).2).merge second false).1.toOption = some ()) :
      MergesBoth { file := ⟨"top.tn"⟩ } first second false
        (((({ file := ⟨"top.tn"⟩ } : Program).merge first false).2).merge second false).2 :=
    ⟨_, Prod.ext (Success.ok_of_toOption early) rfl, Prod.ext (Success.ok_of_toOption late) rfl⟩
  have one := merges leftWay rightWay (by decide +kernel) (by decide +kernel)
  have other := merges rightWay leftWay (by decide +kernel) (by decide +kernel)
  obtain ⟨-, -, tables⟩ := (merge_order { file := ⟨"top.tn"⟩ } leftWay rightWay false).2.1 _ _ one other
  obtain ⟨added, added', here, there, perm, nodup, -⟩ := tables .struct
  exact ⟨_, _, one, other, by decide +kernel, by decide +kernel, added, added', here, there, perm, nodup⟩

end Program
end TernLang
