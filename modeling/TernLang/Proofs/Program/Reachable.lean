import TernLang.Proofs.Program.Reading

/-! Programs as they come about: texts are read into a program, and others are merged in. Whatever
the order and wherever a failure stops it, the tables stay consistent. -/
namespace TernLang

namespace Merge

def Consistently (before after : Program) : Prop := before.Consistent → after.Consistent

theorem Consistently.refl (prog : Program) : Consistently prog prog := id

theorem Consistently.trans (a b c : Program) (first : Consistently a b)
    (second : Consistently b c) :
    Consistently a c := second ∘ first

variable (isPublic : Bool)

theorem asImported_consistent (consistent : cls.Consistent old) (off : Nat) :
    (asImported isPublic off cls).Consistent off where
  fields := consistent.fields
  methods := by
    simp only [asImported, List.map_map]
    exact (List.filter_sublist.map Function.signature).nodup consistent.methods
  offsets := by
    intro method mem
    obtain ⟨_, -, rfl⟩ := List.mem_map.mp mem
    rfl

theorem addExternal_consistently (ext : External) : Relates Consistently (addExternal ext) :=
  addExternal_relates .refl fun _ noValue noFunction noExternal consistent =>
    consistent.addExternal ext noValue (Program.notMem_signatures.mpr ⟨noFunction, noExternal⟩)

theorem steps_consistently (others : other.Consistent) :
    ∀ step ∈ steps other isPublic, Relates Consistently step := by
  have quiet {step : Merge Unit} (quiet : Quiet step) : Relates Consistently step :=
    quiet.relates fun _ _ same consistent => consistent.of_sameTables same
  refine forall_steps (quiet (quiet_dependencies _)) (quiet (quiet_libraries _)) (quiet (quiet_record _))
    (fun _ _ _ => quiet (quiet_record _)) (fun _ _ _ => addExternal_consistently _)
    (fun _ _ _ => addExternal_consistently _)
    ?_ ?_ ?_ ?_ ?_ ?_
  case refine_2 =>
    intro cls mem _
    obtain ⟨idx, found⟩ := List.mem_iff_getElem?.mp mem
    have inside := asImported_consistent isPublic (others.classes idx cls found)
    exact addOnce_relates .refl fun _ free consistent => consistent.addClass _ free (inside _)
  case refine_3 =>
    exact fun _ const _ _ => addOnce_relates .refl fun _ free consistent =>
      consistent.addConstant { const with value := _, isPublic } free _
  all_goals
    intros
    exact addOnce_relates .refl fun _ free consistent => consistent.addValue free rfl rfl consistent.classes

end Merge

namespace Program

theorem Consistent.merge {prog other : Program} (consistent : prog.Consistent)
    (others : other.Consistent) (isPublic : Bool) : (prog.merge other isPublic).2.Consistent := by
  rw [Program.merge, Merge.all_eq_inOrder]
  exact Merge.inOrder_relates Merge.Consistently.refl Merge.Consistently.trans
    (Merge.steps_consistently isPublic others) prog consistent

theorem consistent_fresh (file : Path) : ({ file } : Program).Consistent where
  values := .nil
  apart := fun _ mem => nomatch mem
  callables := .nil
  classes := fun _ _ found => nomatch found
  free := fun _ mem => nomatch mem

/-- Programs that reading token lists and merging such programs lead to, failures included. -/
inductive Reachable : Program → Prop where
  | fresh (file : Path) : Reachable { file }
  | read {prog : Program} (tokens : List Token) : Reachable prog →
    Reachable (prog.addTokens tokens).1
  | merged {prog other : Program} (isPublic : Bool) : Reachable prog → Reachable other →
    Reachable (prog.merge other isPublic).2

/-- What a new program has and every declaration and every merge keep, all programs have. -/
theorem Reachable.keeps {motive : Program → Prop} (fresh : ∀ file, motive { file })
    (declares : ∀ before after, motive before → before.Declares after → motive after)
    (merges : ∀ prog other isPublic, motive prog → motive other →
      motive (prog.merge other isPublic).2) (reachable : Reachable prog) : motive prog := by
  induction reachable with
  | fresh file => exact fresh file
  | read tokens _ holds => exact addTokens_keeps declares tokens holds
  | merged isPublic _ _ holds others => exact merges _ _ isPublic holds others

/-- A name stands for one declaration in every program that comes about. -/
theorem reachable_consistent {prog : Program} (reachable : Reachable prog) : prog.Consistent := by
  apply reachable.keeps
  · exact consistent_fresh
  · intro before after consistent declares
    exact consistent.declares declares
  · intro prog other isPublic consistent others
    exact consistent.merge others isPublic

def ofKinds (name : String) (kinds : List Token.Kind) : Program :=
  (Program.addTokens { file := ⟨name⟩ } (kinds.map (⟨·, {}⟩))).1

/-- `public struct S(x int)` and `public type T = int`. -/
def shapes : Program := ofKinds "shapes.tn" [
  .keyword .visible, .keyword .struct, .word "S", .leftParen, .word "x", .word "int", .rightParen, .newline,
  .keyword .visible, .keyword .typeAlias, .word "T", .operator .assign, .word "int", .eof]

/-- `type T = byte`, which clashes with the type above. -/
def importer : Program :=
  ofKinds "main.tn" [.keyword .typeAlias, .word "T", .operator .assign, .word "byte", .eof]

/-- The type clashes; the structure was merged before. -/
theorem clash_consistent : (importer.merge shapes true).1.toOption = none ∧
    (importer.merge shapes true).2.valueNames = ["S", "T"] ∧
      Reachable (importer.merge shapes true).2 ∧
    (importer.merge shapes true).2.Consistent :=
  have reachable : Reachable (importer.merge shapes true).2 :=
    .merged true (.read _ (.fresh _)) (.read _ (.fresh _))
  ⟨by decide +kernel, by decide +kernel, reachable, reachable_consistent reachable⟩

end Program
end TernLang
