import TernLang.Proofs.Lowering.WellTyped

/-! Values in memory. Wherever code allocates, loads, stores, addresses or passes something, its
type has values; only an array literal may start with an item that has none. -/
namespace TernLang

/-- `void`, or an array of it. -/
def IrType.holdsVoid : IrType → Bool
  | void => true
  | array elem _ => elem.holdsVoid
  | _ => false

namespace Ir

theorem Module.holdsVoid_of_isSized {mod : Module} {ty : IrType} (sized : mod.isSized ty) :
    ty.holdsVoid = false := by
  induction ty with
  | void => contradiction
  | array elem count ih => exact ih sized
  | _ => rfl

/-- Types of what is allocated, loaded, stored, addressed or passed as an argument. -/
def Instruction.kept : Instruction → List IrType
  | alloca _ ty | load _ ty _ | elementPtr _ ty _ _ => [ty]
  | store val _ => [val.type]
  | call _ _ _ args => args.map (·.type)
  | _ => []

theorem Instruction.Checked.kept {mod : Module} {fn : Function} {instr : Instruction}
    (checked : instr.Checked mod fn) : ∀ ty ∈ instr.kept, mod.isSized ty := by
  intro ty mem
  have fits := checked.fits
  cases instr with
  | alloca => exact List.mem_singleton.mp mem ▸ fits
  | load | elementPtr | store => exact List.mem_singleton.mp mem ▸ fits.1
  | call res callee sig args =>
    obtain ⟨arg, passed, rfl⟩ := List.mem_map.mp mem
    exact (checked.operands arg (List.mem_cons_of_mem _ passed)).sized
  | binary | compare | cast | extractValue | insertValue => contradiction

/-- Types without values that the code of a function keeps in memory or passes. -/
def Function.voids (fn : Function) : List IrType :=
  (fn.code.flatMap Instruction.kept).filter IrType.holdsVoid

end Ir

namespace Lowering

/-- No code keeps `void` or arrays of it, if no array literal starts with an item without value;
aliases and foreign functions leave the built-in types and the routines alone. -/
theorem lower_voidless {prog : Program} {mod : Ir.Module} {workers : Nat}
    (reachable : prog.Reachable) (plain : prog.Plain) (spares : prog.SparesRoutines)
    (solid : prog.SolidArrays) (lowers : prog.lower workers = .ok mod) :
    ∀ sym fn, mod.function? sym = some fn → fn.voids = [] := by
  obtain ⟨prototypes, start, defines⟩ := lower_prototypes (Program.reachable_consistent reachable) plain spares lowers
  have checks := defineAll_checks (List.Subset.refl _) solid start defines
  intro sym fn found
  refine List.filter_eq_nil_iff.mpr fun ty mem => ?_
  obtain ⟨instr, there, kept⟩ := List.mem_flatMap.mp mem
  have sized := ((checks.functions sym fn found).1.code instr there).kept ty kept
  rw [Ir.Module.holdsVoid_of_isSized sized]
  exact Bool.false_ne_true

/-- `def f()` and `def main() int`, which calls it and then has an array literal of one item. -/
def listing (ty : String) (item : List Token.Kind) : Program := .ofKinds "list.tn" ([
  .keyword .function, .word "f", .leftParen, .rightParen, .leftBrace, .newline, .rightBrace, .newline,
  .keyword .function, .word "main", .leftParen, .rightParen, .word "int", .leftBrace, .newline,
  .word "f", .leftParen, .rightParen, .newline,
  .word "xs", .operator .star, .word ty, .operator .assign, .leftBrace] ++ item ++ [.rightBrace, .newline,
  .keyword .returning, .integer .int 0, .newline, .rightBrace, .newline, .eof])

theorem listing_voidless : ∃ mod body, (listing "int" [.integer .int 7]).lower 1 = .ok mod ∧
    mod.function? "main" = some body ∧ body.isDeclaration = false ∧ body.voids = [] := by
  obtain ⟨mod, body, lowers, found, given⟩ : ∃ mod body, (listing "int" [.integer .int 7]).lower 1 = .ok mod ∧
      mod.function? "main" = some body ∧ body.isDeclaration = false := exists_body (by decide +kernel)
  have plain : (listing "int" [.integer .int 7]).Plain := by
    have aliases : (listing "int" [.integer .int 7]).aliases.isEmpty := by decide +kernel
    have enums : (listing "int" [.integer .int 7]).enums.isEmpty := by decide +kernel
    rw [List.isEmpty_iff] at aliases enums
    exact ⟨fun _ => by rw [Program.alias?, aliases]; rfl, fun _ => by rw [Program.enum?, enums]; rfl⟩
  exact ⟨mod, body, lowers, found, given, lower_voidless (.read _ (.fresh _)) plain (by decide +kernel)
    (solidArrays_of_startsKnown plain (by decide +kernel)) lowers "main" body found⟩

/-- An array literal of a call of `f`: the array is allocated, its item addressed and stored. -/
theorem listing_void :
    (((listing "void" [.word "f", .leftParen, .rightParen]).lower 1).toOption.bind
      (·.function? "main")).map
    (·.voids) = some [.array .void 1, .array .void 1, .void] := by
  decide +kernel

end Lowering
end TernLang
