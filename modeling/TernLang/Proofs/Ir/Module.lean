import TernLang.Proofs.Table

/-! A module that grows while bodies are lowered: strings and declarations are added, and what
is there stays. -/
namespace TernLang.Ir

def IsTextName (name : String) : Prop := ∃ idx : Nat, name = ".str." ++ toString idx

/-- The module after more strings and declarations. -/
structure Module.Extends (before after : Module) : Prop where
  structs : after.structs = before.structs
  globals : ∀ name, (before.globals.get? name).isSome → (after.globals.get? name).isSome
  storage : ∀ name, ¬IsTextName name → after.globals.get? name = before.globals.get? name
  functions : ∀ sym fn, before.function? sym = some fn → after.function? sym = some fn
  bodies : ∀ sym fn, after.function? sym = some fn →
    before.function? sym = some fn ∨ fn.isDeclaration

namespace Module.Extends

variable (mod : Module)

theorem refl : mod.Extends mod := ⟨rfl, fun _ => id, fun _ _ => rfl, fun _ _ => id, fun _ _ => .inl⟩

theorem trans {a b c : Module} (first : a.Extends b) (second : b.Extends c) : a.Extends c where
  structs := second.structs.trans first.structs
  globals name there := second.globals name (first.globals name there)
  storage name noText := (second.storage name noText).trans (first.storage name noText)
  functions sym fn there := second.functions sym fn (first.functions sym fn there)
  bodies sym fn there := (second.bodies sym fn there).elim (first.bodies sym fn) .inr

theorem declare (sym : String) (ty : FunctionType) :
    mod.Extends (mod.declare sym ty) where
  structs := rfl
  globals _ := id
  storage _ _ := rfl
  functions other fn there := by
    simp only [Module.declare, Module.function?, Table.get?_insertNew] at there ⊢
    rw [there, Option.some_or]
  bodies other fn there := by
    simp only [Module.declare, Module.function?, Table.get?_insertNew] at there ⊢
    rcases Option.or_eq_some_iff.mp there with old | ⟨-, new⟩
    · exact .inl old
    · split at new
      · cases new
        exact .inr rfl
      · contradiction

theorem addString (text : String) : mod.Extends (mod.addString text).1 where
  structs := rfl
  globals name there := by
    simp only [Module.addString, Table.get?_insert]
    split
    · rfl
    · exact there
  storage name noText := by
    exact Table.get?_insert_of_ne (fun same => noText ⟨_, same⟩) ..
  functions _ _ := id
  bodies _ _ := .inl

end Module.Extends

end TernLang.Ir
