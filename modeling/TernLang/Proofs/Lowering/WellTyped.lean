import TernLang.Proofs.Lowering.CheckedStmt

/-! Lowered programs are well typed. Prototypes equip the module with all that bodies name; each
body is checked code, and defining one body after the other keeps what the earlier ones rely on. -/
namespace TernLang

open List

/-- Foreign functions do not take the names of the routines that lowering calls. -/
def Program.SparesRoutines (prog : Program) : Prop :=
  ∀ ext ∈ prog.externals, ext.isMangled = false → ext.name ≠ "malloc" ∧ ext.name ≠ "free"

instance (prog : Program) : Decidable prog.SparesRoutines :=
  inferInstanceAs (Decidable (∀ ext ∈ prog.externals, ext.isMangled = false → ext.name ≠ "malloc" ∧
    ext.name ≠ "free"))

namespace Lowering

open Ir (Instruction)
open Success

variable {prog : Program} {ctx : Context} {s s' : State} {u : Unit} {mod mod' : Ir.Module}
  {exit : Option ExitSlot} {loc : Location}

/-! Functions. -/

theorem laidOut_checked (equipped : Equipped prog s.module) (scope : s.scope = {}) (sym : String)
    (ty : Ir.FunctionType) : Checked prog { s with builder := laidOut sym ty } where
  equipped := equipped
  code := ⟨forall_mem_nil _, forall_mem_nil _⟩
  current := show bodyBlock < 3 by decide
  scope := by
    rw [scope]
    exact forall_mem_nil _

theorem storeParams_moves (checked : Checked ctx.program s) (solid : Forall₂ (Solid ctx.program loc)
      (fields.map (·.type)) (s.builder.function.type.params.drop idx))
    (run : (storeParams ctx idx fields).run s = .ok (u, s')) :
    Moves ctx.program s s' ∧ Variables.ofScope s'.scope =
      fields.foldl (fun vars field => vars.declare field.name field.type) (.ofScope s.scope) := by
  induction fields generalizing s idx with
  | nil =>
    obtain ⟨-, rfl⟩ := run_pure_ok.mp run
    exact ⟨(Leads.refl checked).moves, rfl⟩
  | cons field fields ih =>
    obtain ⟨lowered, found, -, run⟩ := storeParams_cons_ok run
    have lowers : ctx.program.Lowers field.type lowered := ⟨_, found⟩
    obtain ⟨first, rest, ⟨given, notVoid⟩, others, dropped⟩ := forall₂_cons_left_iff.mp solid
    obtain rfl := lowers.unique ⟨_, given⟩
    have here : s.builder.function.type.params[idx]? = some lowered := by
      rw [← head?_drop, dropped, head?_cons]
    have tail : s.builder.function.type.params.drop (idx + 1) = rest := by
      rw [← tail_drop, dropped, tail_cons]
    have sized := checked.equipped.sized lowers notVoid
    have argument : Carried s ⟨.argument idx, lowered⟩ := ⟨sized, here⟩
    obtain ⟨stored, slot⟩ := withSlot_leads checked sized argument
    have declared := withVariable_moves stored.checked field.name ⟨_, field.type⟩ ⟨rfl, slot, lowers.resolves⟩
    have first := stored.moves.trans declared
    rw [← tail] at others
    obtain ⟨second, scope⟩ := ih first.checked others run
    refine ⟨first.trans second, ?_⟩
    rw [scope, Variables.ofScope_withVariable, stored.scope, foldl_cons]

/-- The result is kept in a slot of its type if there is one. -/
def Returns (res : IrType) : Option ExitSlot → Prop
  | none => res = .void
  | some slot => slot.type = res ∧ res ≠ .void

theorem prepareExit_leads (checked : Checked ctx.program s) {res : IrType}
    (lowers : ctx.program.Lowers ctx.function.result res)
    (run : (prepareExit ctx).run s = .ok (exit, s')) :
    Leads ctx.program s s' ∧ ExitThere { ctx with exit } s' ∧ Returns res exit := by
  obtain ⟨lowered, found, kind⟩ := prepareExit_ok run
  obtain rfl := lowers.unique ⟨_, found⟩
  rcases kind with ⟨rfl, rfl, rfl⟩ | ⟨notVoid, rfl, rfl⟩
  · exact ⟨.refl checked, nofun, rfl⟩
  · have sized := checked.equipped.sized lowers notVoid
    obtain ⟨leads, slot⟩ := withSlot_leads checked sized (.zero sized)
    refine ⟨leads, ?_, rfl, notVoid⟩
    rintro _ ⟨⟩
    exact ⟨rfl, slot⟩

theorem returned_leads (checked : Checked ctx.program s) (kept : ExitThere { ctx with exit } s)
    (small : quitBlock < s.builder.function.blocks.length)
    (lowers : ctx.program.Lowers ctx.function.result s.builder.function.type.result)
    (returns : Returns s.builder.function.type.result exit) :
    Leads ctx.program s (s.returned exit) := by
  have moved := position_leads checked small
  cases exit with
  | none =>
    refine moved.trans (terminate_leads moved.checked ⟨by simp [Ir.Terminator.operands], ?_⟩)
    exact returns
  | some slot =>
    obtain ⟨same, notVoid⟩ := returns
    obtain ⟨ptr, carried⟩ := kept slot rfl
    have sized : s.module.isSized slot.type := checked.equipped.sized (same ▸ lowers) (same ▸ notVoid)
    obtain ⟨loaded, val⟩ := emit_leads moved.checked (.load · slot.type slot.pointer) rfl rfl sized
      (by simpa [Instruction.operands] using moved.carried carried) ⟨sized, ptr⟩
    refine (moved.trans loaded).trans (terminate_leads loaded.checked ⟨?_, ?_⟩)
    · simp only [Ir.Terminator.operands, mem_singleton, forall_eq]
      exact val
    · exact same.trans (congrArg Ir.FunctionType.result (moved.trans loaded).within.type.symm)

variable {sym name : String}

/-- A whole function is checked code. -/
theorem lowerFunction_checked {ty : Ir.FunctionType} (start : s.builder = .start sym ty)
    (scope : s.scope = {}) (equipped : Equipped ctx.program s.module)
    (params : Forall₂ (Solid ctx.program loc) (ctx.function.params.map (·.type)) ty.params)
    (res : ctx.program.Lowers ctx.function.result ty.result)
    (solid : ctx.program.SolidBlock (.ofFields ctx.function.params) ctx.function.body)
    (run : (lowerFunction ctx).run s = .ok (u, s')) :
    s.module.Keeps s'.module ∧ Checked ctx.program s' := by
  obtain ⟨s₁, exit, s₂, left, s₃, s₄, stores, prepares, lowers, ends, rfl⟩ := lowerFunction_ok start run
  have laid := laidOut_checked equipped scope sym ty
  obtain ⟨stored, declared⟩ := storeParams_moves laid params stores
  obtain ⟨prepared, kept, typed⟩ := prepareExit_leads stored.checked res prepares
  have vars : Variables.ofScope s₂.scope = .ofFields ctx.function.params := by
    rw [prepared.scope, declared]
    rw [scope]
    rfl
  have body := lowerBlock_moves (fun stmt _ => steps { ctx with exit } stmt) prepared.checked kept
    (vars ▸ solid) lowers
  have ended : Leads ctx.program s₃ s₄ := by
    cases left with
    | true => exact ends ▸ .refl body.checked
    | false => exact ends ▸ branch_leads body.checked quitBlock
  have whole := ((stored.trans prepared.moves).trans body).trans ended.moves
  have three : 3 ≤ s₄.builder.function.blocks.length := whole.within.count
  have entered := position_leads whole.checked (show entryBlock < _ by exact Nat.lt_of_lt_of_le (by decide) three)
  have jumped := entered.trans (branch_leads entered.checked bodyBlock)
  have after := (body.trans ended.moves).trans jumped.moves
  have all := whole.trans jumped.moves
  have same : _ = ty := all.within.type
  have returns := returned_leads jumped.checked (kept.mono after.within after.keeps)
    (Nat.lt_of_lt_of_le (Nat.lt_of_lt_of_le (by decide) three) jumped.within.count) (same ▸ res) (same ▸ typed)
  exact ⟨(all.trans returns.moves).keeps, returns.checked⟩

/-! Prototypes. -/

theorem mangle_ne {params : List TypeName} (plain : '$' ∉ sym.toList)
    (other : sym ≠ "main") : mangle name params ≠ sym := by
  rintro rfl
  unfold mangle at plain other
  split at plain
  · next main =>
    rw [if_pos main] at other
    exact other main
  · simp at plain

theorem ofExternal_ne (spares : prog.SparesRoutines) (mem : ext ∈ prog.externals)
    (routine : sym = "malloc" ∨ sym = "free") : (Signature.ofExternal ext).symbol ≠ sym := by
  simp only [Signature.ofExternal]
  cases kind : ext.isMangled with
  | true =>
    rcases routine with rfl | rfl <;> exact mangle_ne (by decide) (by decide)
  | false =>
    obtain ⟨malloc, free⟩ := spares ext mem kind
    rcases routine with rfl | rfl <;> assumption

theorem symbolOf_ne (entry : Function × Option Class) (routine : sym = "malloc" ∨ sym = "free") :
    symbolOf entry ≠ sym := by
  rcases routine with rfl | rfl <;> exact mangle_ne (by decide) (by decide)

theorem globals_keyed (globals : List Ir.Global) (keyed : mod.Keyed) :
    (globals.foldl (fun m g => { m with globals := m.globals.insert g.name g }) mod).Keyed := by
  induction globals generalizing mod with
  | nil => exact keyed
  | cons global rest ih => exact ih (keyed.insert rfl)

theorem globals_isSome {storages : List Storage} (lowers : Forall₂ (fun storage global =>
      lowerStorage prog storage = .ok global) storages globals)
    (there : (mod.globals.get? name).isSome ∨ name ∈ storages.map (·.symbol)) :
    ((globals.foldl (fun m g => { m with globals := m.globals.insert g.name g }) mod).globals.get?
      name).isSome := by
  induction lowers generalizing mod with
  | nil => exact there.resolve_right not_mem_nil
  | @cons storage global storages globals here later ih =>
    rw [map_cons, mem_cons] at there
    have named := (lowerStorage_ok here).2
    apply ih
    by_cases same : name = global.name
    · simp [same]
    · rw [Table.get?_insert_of_ne same]
      rcases there with there | there | there
      · exact .inl there
      · exact absurd (there.trans named.symm) same
      · exact .inr there

/-! Modules. -/

/-- The module is equipped, and its functions are checked. -/
structure Checks (prog : Program) (mod : Ir.Module) : Prop where
  equipped : Equipped prog mod
  functions : ∀ sym fn, mod.function? sym = some fn →
    fn.Checked mod ∧ fn.registers.Nodup

theorem checked_declaration {fn : Ir.Function} (declared : fn.isDeclaration) :
    fn.Checked mod ∧ fn.registers.Nodup := by
  have none : fn.blocks = [] := by simpa [Ir.Function.isDeclaration] using declared
  exact ⟨.declaration none, by simp [Ir.Function.registers, none]⟩

theorem Checks.extend (checks : Checks prog mod) (more : mod.Extends mod')
    (equipped : Equipped prog mod') : Checks prog mod' where
  equipped := equipped
  functions sym fn found := by
    rcases more.bodies sym fn found with old | declared
    · exact (checks.functions sym fn old).imp (·.keep more.keeps) id
    · exact checked_declaration declared

theorem Checks.putFunction (checks : Checks prog mod) (checked : fn.Checked mod)
    (unique : fn.registers.Nodup) (ordinary : fn.symbol ≠ "malloc" ∧ fn.symbol ≠ "free") :
    Checks prog (mod.putFunction fn) where
  equipped := checks.equipped.keep (mod.keeps_putFunction fn) checks.equipped.keyed
    (checks.equipped.malloc.putFunction fun same => absurd same ordinary.1)
    (checks.equipped.free.putFunction fun same => absurd same ordinary.2)
  functions sym other found := by
    have keeps := mod.keeps_putFunction fn
    simp only [Ir.Module.putFunction, Ir.Module.function?, Table.get?_insert] at found
    split at found
    · cases found
      exact ⟨checked.keep keeps, unique⟩
    · exact (checks.functions sym other found).imp (·.keep keeps) id

theorem lower_prototypes (consistent : prog.Consistent) (plain : prog.Plain)
    (spares : prog.SparesRoutines) {workers : Nat} (lowers : prog.lower workers = .ok mod) :
    ∃ prototypes, Checks prog prototypes ∧
      defineAll prog (allFunctions prog) prototypes = .ok mod := by
  obtain ⟨structs, instances, globals, externals, prototypes, first, second, third, fourth, declares, defines⟩ :=
    lower_ok lowers
  refine ⟨prototypes, ?_, defines⟩
  obtain ⟨sameStructs, sameGlobals⟩ := declareAll_keeps declares
  rw [(externals_keep externals _).1, globals_structs] at sameStructs
  rw [(externals_keep externals _).2] at sameGlobals
  have fresh : ∀ {sym : String} {fn : Ir.Function},
      (globals.foldl (fun m g => { m with globals := m.globals.insert g.name g }) instances).function? sym ≠
        some fn := by
    intro sym fn found
    rw [Ir.Module.function?, globals_functions, (lowerInstances_ok second).1, (lowerStructures_ok first).1] at found
    contradiction
  have keyed : instances.Keyed := by
    intro name global found
    rw [(lowerInstances_ok second).2, (lowerStructures_ok first).2] at found
    contradiction
  have unassigned : ∀ {sym : String} {ty : Ir.FunctionType}, sym = "malloc" ∨ sym = "free" →
      Assigns prototypes sym ty := by
    intro sym ty routine
    refine declareAll_assigns declares (fun entry _ same => absurd same (symbolOf_ne entry routine)) ?_
    refine externals_assign (Batch.run_ok fourth)
      (fun ext mem same => absurd same (ofExternal_ne spares mem routine)) ?_
    exact fun fn found => absurd found fresh
  constructor
  · constructor
    · exact consistent
    · exact plain
    · exact (hasStructs_instances consistent first second).congr sameStructs
    · intro name global found
      rw [sameGlobals] at found
      exact globals_keyed globals keyed name global found
    · intro storage mem
      obtain ⟨global, here⟩ := Batch.exists_of_run_ok third storage mem
      rw [sameGlobals]
      exact ⟨globals_isSome (Batch.run_ok third) (.inr (mem_map_of_mem mem)), global.type, _,
        (lowerStorage_ok here).1.1⟩
    · intro entry mem
      obtain ⟨ty, typed⟩ := declareAll_types declares entry mem
      exact ⟨declareAll_isSome declares (.inr (mem_map_of_mem mem)), _, ty, typed⟩
    · intro ext mem
      obtain ⟨res, here⟩ := Batch.exists_of_run_ok fourth ext mem
      refine ⟨declareAll_isSome declares (.inl ?_), _, res.2, (lowerExternal_ok here).2⟩
      exact externals_isSome (Batch.run_ok fourth) (.inr (mem_map_of_mem mem))
    · exact unassigned (.inl rfl)
    · exact unassigned (.inr rfl)
  · intro sym fn found
    have none : Bodiless prototypes sym :=
      declareAll_bodiless (externals_bodiless externals fun fn found => absurd found fresh) declares
    exact checked_declaration (none fn found)

theorem defineAll_checks (sub : functions ⊆ allFunctions prog) (solid : prog.SolidArrays)
    (checks : Checks prog mod) (run : defineAll prog functions mod = .ok mod') :
    Checks prog mod' := by
  refine defineAll_induct run checks fun entry mem given before ty final typed lowers checks => ?_
  -- That registers are defined once does not depend on types.
  obtain ⟨graph, -, sym, -, more⟩ := lowerFunction_ssaGraph rfl rfl (functionType_count typed) lowers
  obtain ⟨params, res, -, -⟩ := functionType_ok typed
  rw [Signature.declaredParams_ofFunction] at params
  obtain ⟨-, checked⟩ :=
    lowerFunction_checked rfl rfl checks.equipped params ⟨_, res⟩ (solid _ (sub mem) given) lowers
  refine (checks.extend more checked.equipped).putFunction checked.code graph.registers ?_
  rw [sym]
  exact ⟨symbolOf_ne entry (.inl rfl), symbolOf_ne entry (.inr rfl)⟩

/-- Lowered programs are well typed, and name only structs that they define: if no alias and no
enumeration is named like a built-in type, no foreign function like a routine, and no array literal
starts with an item without value. -/
theorem lower_wellTyped {workers : Nat} (reachable : prog.Reachable) (plain : prog.Plain)
    (spares : prog.SparesRoutines) (solid : prog.SolidArrays)
    (lowers : prog.lower workers = .ok mod) :
    mod.WellTyped ∧ mod.NamesStructs := by
  obtain ⟨prototypes, start, defines⟩ := lower_prototypes (Program.reachable_consistent reachable) plain spares lowers
  have checks := defineAll_checks (Subset.refl _) solid start defines
  constructor
  · intro sym fn found
    obtain ⟨checked, unique⟩ := checks.functions sym fn found
    exact checked.wellTyped unique checks.equipped.keyed
  · intro sym fn found block there instr mem ty named name inner
    obtain ⟨checked, -⟩ := checks.functions sym fn found
    exact (checked.code instr (mem_flatMap.mpr ⟨block, there, mem⟩)).structs named inner

theorem solidArrays_of_startsKnown (plain : prog.Plain) (known : prog.startsKnown) :
    prog.SolidArrays := by
  simp only [Program.startsKnown, all_eq_true, mem_append, mem_map, mem_flatMap] at known
  intro entry mem _ vars expr stands mark first rest ty contains typed void
  have starts := contains.startsKnown (fun constant there => known _ (.inl ⟨constant, there, rfl⟩))
    (known expr (.inr ⟨entry, mem, stands.mem_roots⟩))
  cases first with
  | literal inner val =>
    cases typed
    obtain ⟨lowered, lowers, solid⟩ : ∃ lowered, prog.Lowers val.type lowered ∧ lowered ≠ .void := by
      cases val with
      | bool => exact ⟨_, plain.lowers .bool, by decide⟩
      | integer kind => exact ⟨_, plain.lowers (.integer kind), nofun⟩
      | half => exact ⟨_, plain.lowers .half, by decide⟩
      | float => exact ⟨_, plain.lowers .float, by decide⟩
      | double => exact ⟨_, plain.lowers .double, by decide⟩
      | string =>
        obtain ⟨_, resolves⟩ := (plain.lowers (.integer .ubyte)).resolves
        exact ⟨_, resolves.pointer.lowers_address rfl, by decide⟩
      | null => exact ⟨_, plain.lowers .pointer, by decide⟩
    exact solid (lowers.eq_void void)
  | _ => contradiction

/-- A structure on the heap and an array on the stack. -/
def pairs : Program := .ofKinds "pairs.tn" [
  .keyword .struct, .word "P", .leftParen, .word "a", .word "long", .comma, .word "b", .word "int",
    .rightParen, .newline,
  .keyword .function, .word "main", .leftParen, .rightParen, .word "int", .leftBrace, .newline,
  .word "xs", .operator .star, .word "int", .operator .assign,
  .leftBrace, .integer .int 4, .comma, .integer .int 2, .rightBrace, .newline,
  .word "p", .operator .star, .word "P", .operator .assign, .keyword .allocate, .word "P", .newline,
  .word "p", .dot, .word "b", .operator .assign, .word "xs", .leftBracket, .integer .int 1, .rightBracket, .newline,
  .keyword .delete, .word "p", .newline,
  .keyword .returning, .word "xs", .leftBracket, .integer .int 0, .rightBracket, .newline,
  .rightBrace, .newline, .eof]

theorem pairs_wellTyped : ∃ mod body, pairs.lower 1 = .ok mod ∧ mod.function? "main" = some body ∧
    body.isDeclaration = false ∧ mod.WellTyped ∧ mod.NamesStructs := by
  obtain ⟨mod, body, lowers, found, given⟩ : ∃ mod body, pairs.lower 1 = .ok mod ∧
      mod.function? "main" = some body ∧ body.isDeclaration = false := exists_body (by decide +kernel)
  have reachable : pairs.Reachable := .read _ (.fresh _)
  have plain : pairs.Plain := by
    have aliases : pairs.aliases.isEmpty := by decide +kernel
    have enums : pairs.enums.isEmpty := by decide +kernel
    rw [List.isEmpty_iff] at aliases enums
    exact ⟨fun _ => by rw [Program.alias?, aliases]; rfl, fun _ => by rw [Program.enum?, enums]; rfl⟩
  have spares : pairs.SparesRoutines := by decide +kernel
  have solid := solidArrays_of_startsKnown plain (by decide +kernel)
  obtain ⟨wellTyped, structs⟩ := lower_wellTyped reachable plain spares solid lowers
  exact ⟨mod, body, lowers, found, given, wellTyped, structs⟩

end Lowering
end TernLang
