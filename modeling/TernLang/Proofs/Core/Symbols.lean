import TernLang.Proofs.Core.Typing
import TernLang.Proofs.Typing.Symbols

/-! Symbols of functions. No name contains a dollar sign, so a symbol tells the name of a function
and the types of its parameters, and no two functions share one. -/
namespace TernLang.Core

/-- Names and parameters as a parser accepts them, and at most one entry of the program. -/
structure WellNamed (prog : Program) : Prop where
  plain : ∀ fn ∈ prog.functions, '$' ∉ fn.name.toList
  distinct : prog.functions.Pairwise fun f g => ¬ (f.name = g.name ∧ f.paramTypes = g.paramTypes)
  entry : prog.functions.Pairwise fun f g => ¬ (f.name = "main" ∧ g.name = "main")

theorem written_of_core (core : isCoreFunction fn) : ∀ type ∈ fn.paramTypes, type.Written := by
  have all : ∀ scalar ∈ Scalar.all, scalar.type.Written := by decide +kernel
  obtain ⟨params, types⟩ := paramTypes_core core
  rw [types, List.forall_mem_map]
  exact fun scalar _ => all scalar scalar.mem_all

/-- Every function of a program of the core has a symbol of its own. -/
theorem symbols_nodup (core : IsCore prog) (named : WellNamed prog) :
    (prog.functions.map fun fn => (Signature.ofFunction fn none).symbol).Nodup := by
  refine List.pairwise_map.mpr ((named.distinct.and named.entry).imp_of_mem ?_)
  rintro f g memF memG ⟨differ, entry⟩ same
  rcases mangle_inj (named.plain f memF) (named.plain g memG) (written_of_core (core.functions f memF))
    (written_of_core (core.functions g memG)) same with both | alike
  · exact entry both
  · exact differ alike

end TernLang.Core
