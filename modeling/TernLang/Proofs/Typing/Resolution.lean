import TernLang.Proofs.Typing.Aliases

/-! What resolving a type does. A chain of aliases goes from a name behind leading stars to its
binding. Where no alias contains itself in a slice element or a signature, resolving fails just if a
chain comes back to one of its aliases, and otherwise replaces all aliases until none is left. -/
namespace TernLang

open List
open Relation (ReflTransGen TransGen)

namespace Program

/-- No cycle of aliases goes through a slice element or a signature. -/
def Guarded (prog : Program) : Prop :=
  ∀ name entry inner, prog.alias? name = some entry → inner ∈ entry.binding.innerNames →
    ¬ ReflTransGen prog.Mentions inner name

/-- The types at the positions of a type and of the bindings that are put into it. -/
inductive Position (prog : Program) (ty : TypeName) : TypeName → Prop where
  | self : Position prog ty ty
  | target {target : TypeName} : Position prog ty (.pointer target) → Position prog ty target
  | element {element : TypeName} : Position prog ty (.array element) → Position prog ty element
  | param {params : List TypeName} {result param : TypeName} {stdcall variadic : Bool} :
    Position prog ty (.function params result stdcall variadic) → param ∈ params →
      Position prog ty param
  | result {params : List TypeName} {result : TypeName} {stdcall variadic : Bool} :
    Position prog ty (.function params result stdcall variadic) → Position prog ty result
  | binding {name : String} {entry : Alias} : Position prog ty (.named name) →
    prog.alias? name = some entry →
    Position prog ty entry.binding

/-- From some position on, a chain comes to an alias again. -/
def Revisits (prog : Program) (ty : TypeName) : Prop :=
  ∃ start labels stars last, prog.Position ty start ∧ prog.Chain start labels stars last ∧ ¬ labels.Nodup

variable {prog : Program} {ty start last : TypeName} {name label : String}
  {labels visited : List String} {fuel depth stars : Nat} {loc : Location} {cause : Error}

/-! Positions. -/

theorem Position.named (pos : prog.Position ty start) (mem : name ∈ start.names) :
    prog.Position ty (.named name) := by
  induction start using TypeName.induct with
  | named inner => exact mem_singleton.mp mem ▸ pos
  | pointer tgt ih => exact ih pos.target mem
  | array elem ih => exact ih pos.element mem
  | function params res stdcall variadic each ih =>
    rcases mem_append.mp mem with inside | last
    · obtain ⟨param, among, inside⟩ := TypeName.mem_namesList.mp inside
      exact each param among (pos.param among) inside
    · exact ih pos.result last

theorem Position.reaches (pos : prog.Position ty (.named name))
    (reaches : ReflTransGen prog.Mentions name label) :
    prog.Position ty (.named label) := by
  induction reaches with
  | refl => exact pos
  | tail _ step ih =>
    obtain ⟨entry, known, inside⟩ := step
    exact (ih.binding known).named inside

theorem Position.mem_names (pos : prog.Position ty start) (mem : name ∈ start.names) :
    ∃ first ∈ ty.names, ReflTransGen prog.Mentions first name := by
  induction pos generalizing name with
  | self => exact ⟨name, mem, .refl⟩
  | target _ ih => exact ih mem
  | element _ ih => exact ih mem
  | param _ among ih => exact ih (mem_append_left _ (TypeName.mem_namesList.mpr ⟨_, among, mem⟩))
  | result _ ih => exact ih (mem_append_right _ mem)
  | binding _ known ih =>
    obtain ⟨first, there, reaches⟩ := ih mem_cons_self
    exact ⟨first, there, reaches.tail ⟨_, known, mem⟩⟩

/-! Chains. -/

theorem Chain.mem_labels (chain : prog.Chain start labels stars last) (mem : label ∈ labels) :
    prog.LeadsTo start label := by
  induction chain with
  | start => exact nomatch mem
  | star _ ih => exact ih mem
  | @bound name entry _ _ _ known _ ih =>
    rcases mem_cons.mp mem with rfl | later
    · exact ⟨label, mem_cons_self, .refl⟩
    · exact (ih later).bound known

theorem Chain.circles (chain : prog.Chain start labels stars last) (again : ¬ labels.Nodup) :
    ∃ label, prog.Circles start label := by
  induction chain with
  | start => exact absurd nodup_nil again
  | star _ ih => exact ih again
  | @bound name entry _ labels _ known chain ih =>
    have step {inner : String} (inside : inner ∈ entry.binding.names) : prog.Mentions name inner :=
      ⟨entry, known, inside⟩
    by_cases twice : name ∈ labels
    · obtain ⟨first, inside, reaches⟩ := chain.mem_labels twice
      exact ⟨name, ⟨name, mem_cons_self, .refl⟩, .head' (step inside) reaches⟩
    · obtain ⟨label, reaches, cycle⟩ := ih fun once => again (nodup_cons.mpr ⟨twice, once⟩)
      exact ⟨label, reaches.bound known, cycle⟩

theorem chain_or_mem_innerNames (mem : name ∈ start.names) :
    (∃ stars, prog.Chain start [] stars (.named name)) ∨ name ∈ start.innerNames := by
  induction start using TypeName.induct with
  | named inner => exact .inl ⟨0, mem_singleton.mp mem ▸ .start _⟩
  | pointer tgt ih => exact (ih mem).imp (.imp' (· + 1) fun _ => .star) id
  | array elem => exact .inr mem
  | function params res stdcall variadic => exact .inr mem

theorem Guarded.chain (guarded : prog.Guarded) (ways : TransGen prog.Mentions name label)
    (back : ReflTransGen prog.Mentions label name) :
    ∃ later stars, prog.Chain (.named name) (name :: later) stars (.named label) := by
  have first {name inner : String} (step : prog.Mentions name inner) (back : ReflTransGen prog.Mentions inner name) :
      ∃ stars, prog.Chain (.named name) [name] stars (.named inner) := by
    obtain ⟨entry, known, inside⟩ := step
    rcases chain_or_mem_innerNames inside with ⟨stars, chain⟩ | inside
    · exact ⟨stars, .bound known chain⟩
    · exact absurd back (guarded name entry inner known inside)
  induction ways using TransGen.head_induction_on with
  | single step => exact ⟨[], first step back⟩
  | head step ways ih =>
    obtain ⟨later, stars, chain⟩ := ih (back.tail step)
    obtain ⟨stars, start⟩ := first step (ways.to_reflTransGen.trans back)
    exact ⟨_, _, start.trans chain⟩

theorem Guarded.circles_iff (guarded : prog.Guarded) :
    (∃ label, prog.Circles ty label) ↔ prog.Revisits ty := by
  constructor
  · rintro ⟨label, ⟨name, mem, reaches⟩, cycle⟩
    obtain ⟨later, stars, chain⟩ := guarded.chain cycle .refl
    obtain ⟨_, ⟨entry, known, -⟩, -⟩ := TransGen.head'_iff.mp cycle
    have twice := chain.trans (.bound known (.start _))
    exact ⟨_, _, _, _, (Position.self.named mem).reaches reaches, twice, by simp⟩
  · rintro ⟨start, labels, stars, last, pos, chain, again⟩
    obtain ⟨label, ⟨name, mem, reaches⟩, cycle⟩ := chain.circles again
    obtain ⟨first, there, before⟩ := pos.mem_names mem
    exact ⟨label, ⟨first, there, before.trans reaches⟩, cycle⟩

/-! Calls that are nested deep enough. -/

/-- Where the failure is not this one, steps that differ only where it occurs do the same. -/
theorem bind_congr_error {α β : Type} {failure : Error} {act act' : Except Error α}
    {next next' : α → Except Error β} (bounded : (act >>= next) ≠ .error failure)
    (same : act ≠ .error failure → act' = act)
    (onward : ∀ res, next res ≠ .error failure → next' res = next res) :
    (act' >>= next') = (act >>= next) := by
  cases act with
  | error cause =>
    rw [same fun failed => bounded (failed ▸ rfl)]
    rfl
  | ok res =>
    rw [same nofun]
    exact onward res bounded

theorem resolveParts_congr {failure : Error} {resolve resolve' : TypeName → Except Error TypeName}
    (same : ∀ part ∈ ty.parts, resolve part ≠ .error failure → resolve' part = resolve part)
    (bounded : ty.resolveParts resolve ≠ .error failure) :
    ty.resolveParts resolve' = ty.resolveParts resolve := by
  cases ty with
  | named | pointer => rfl
  | array elem => exact bind_congr_error bounded (same elem mem_cons_self) fun _ _ => rfl
  | function params res stdcall variadic =>
    obtain ⟨each, last⟩ := forall_mem_append.mp same
    have list : params.mapM resolve ≠ .error failure → params.mapM resolve' = params.mapM resolve := by
      clear same bounded
      intro bounded
      induction params with
      | nil => rfl
      | cons param params ih =>
        obtain ⟨first, each⟩ := forall_mem_cons.mp each
        rw [mapM_cons] at bounded ⊢
        rw [mapM_cons]
        exact bind_congr_error bounded first fun _ bounded => bind_congr_error bounded (ih each) fun _ _ => rfl
    exact bind_congr_error bounded list fun _ bounded =>
      bind_congr_error bounded (last res mem_cons_self) fun _ _ => rfl

theorem resolveWithin_more (bounded : prog.resolveWithin loc depth ty ≠ .error (.alias .endless))
    (more : depth ≤ deeper) :
    prog.resolveWithin loc deeper ty = prog.resolveWithin loc depth ty := by
  induction depth generalizing deeper ty with
  | zero => contradiction
  | succ depth ih =>
    obtain ⟨deeper, rfl⟩ := Nat.exists_eq_add_one_of_ne_zero (Nat.ne_of_gt (Nat.lt_of_lt_of_le depth.succ_pos more))
    rw [resolveWithin] at bounded ⊢
    rw [resolveWithin]
    refine bind_congr_error bounded (fun _ => rfl) ?_
    rintro ⟨stars, rest⟩ bounded
    refine bind_congr_error bounded (fun bounded => ?_) fun _ _ => rfl
    exact resolveParts_congr (fun part _ bounded => ih bounded (Nat.le_of_succ_le_succ more)) bounded

theorem Guarded.from (guarded : prog.Guarded) (ty : TypeName) : prog.GuardedFrom ty :=
  fun name entry inner _ => guarded name entry inner

theorem Guarded.error (guarded : prog.Guarded) (failed : prog.resolve loc ty = .error cause) :
    ∃ label, cause = .recursiveAlias loc label :=
  (resolveWithin_error failed (guarded.from ty) (budget_lt prog ty)).imp fun _ => And.left

theorem Guarded.bounded (guarded : prog.Guarded) (ty : TypeName) :
    prog.resolve loc ty ≠ .error (.alias .endless) := by
  intro failed
  obtain ⟨label, same⟩ := guarded.error failed
  contradiction

/-- Slices and signatures are resolved part by part. -/
theorem Guarded.resolve_parts (guarded : prog.Guarded) (plain : ty.bareName? = none)
    (bare : ty.unstar = (0, ty)) :
    prog.resolve loc ty = ty.resolveParts (prog.resolve loc) := by
  have follows : prog.followAliases loc prog.aliases.length 0 [] ty = .ok (0, ty) := by
    unfold followAliases
    rw [bare]
    dsimp only
    rw [plain]
    rfl
  have start : prog.resolve loc ty =
      ty.resolveParts (prog.resolveWithin loc (prog.resolveDepth ty - 1)) := by
    rw [resolve, resolveDepth, resolveWithin, follows]
    exact bind_pure (ty.resolveParts _)
  have bounded : ty.resolveParts (prog.resolve loc) ≠ .error (.alias .endless) := by
    intro failed
    obtain ⟨part, -, failed⟩ := TypeName.resolveParts_error failed (congrArg Prod.fst bare)
    exact guarded.bounded part failed
  rw [start]
  refine resolveParts_congr (fun part mem bounded => ?_) bounded
  have shallow := TypeName.nesting_lt_of_mem_parts mem
  exact resolveWithin_more bounded (by unfold resolveDepth; omega)

theorem followAliases_star (fuel stars : Nat) (visited : List String) (ty : TypeName) :
    prog.followAliases loc fuel (stars + 1) visited ty =
      (fun (count, rest) => (count + 1, rest)) <$> prog.followAliases loc fuel stars visited ty :=
        by
  induction fuel generalizing stars visited ty with
  | zero =>
    unfold followAliases
    split
    · rw [Nat.add_right_comm]
      rfl
    · split <;> rfl
  | succ fuel ih =>
    unfold followAliases
    split
    · rw [Nat.add_right_comm]
      rfl
    · split
      · rfl
      · rw [Nat.add_right_comm]
        exact ih ..

theorem followAliases_pointer (fuel stars : Nat) (visited : List String) (tgt : TypeName) :
    prog.followAliases loc fuel stars visited (.pointer tgt) =
      prog.followAliases loc fuel (stars + 1) visited tgt := by
  have shift : (TypeName.pointer tgt).unstar = (tgt.unstar.1 + 1, tgt.unstar.2) := rfl
  unfold followAliases
  rw [shift, Nat.add_right_comm stars 1]
  rfl

theorem resolve_star (tgt : TypeName) :
    prog.resolve loc (.pointer tgt) = .pointer <$> prog.resolve loc tgt := by
  have same : prog.resolveDepth (.pointer tgt) = prog.resolveDepth tgt := rfl
  rw [resolve, resolve, same, resolveDepth, resolveWithin, resolveWithin, followAliases_pointer, followAliases_star]
  cases prog.followAliases loc prog.aliases.length 0 [] tgt with
  | error cause => rfl
  | ok found =>
    simp only [bind, Except.bind, Functor.map, Except.map]
    cases found.2.resolveParts (prog.resolveWithin loc _) with
    | error cause => rfl
    | ok inner => simp only [TypeName.starred_eq, Function.iterate_succ_apply', pure, Except.pure]

/-- Resolving replaces aliases, wherever they stand and with all stars, until none is left. It ends,
however deep its calls may nest, and fails just where a chain comes to an alias again. -/
theorem resolve_replaces_all (guarded : prog.Guarded) (loc : Location) (ty : TypeName) :
    (∀ depth, prog.resolveDepth ty ≤ depth →
      prog.resolveWithin loc depth ty = prog.resolve loc ty) ∧
    ((∃ cause, prog.resolve loc ty = .error cause) ↔ prog.Revisits ty) ∧
    (∀ cause, prog.resolve loc ty = .error cause → ∃ label, cause = .recursiveAlias loc label) ∧
    (∀ resolved, prog.resolve loc ty = .ok resolved ↔
      ∃ rounds, prog.unfold^[rounds] ty = resolved ∧ prog.Unaliased resolved) ∧
    prog.resolve loc (.pointer ty) = .pointer <$> prog.resolve loc ty ∧
    prog.resolve loc (.array ty) = .array <$> prog.resolve loc ty ∧
    (∀ params stdcall variadic, prog.resolve loc (.function params ty stdcall variadic) = do
      let params ← params.mapM (prog.resolve loc)
      return .function params (← prog.resolve loc ty) stdcall variadic) ∧
    (∀ labels stars last resolved, prog.Chain ty labels stars last →
      (prog.resolve loc ty = .ok resolved ↔
        ∃ inner, prog.resolve loc last = .ok inner ∧ resolved = TypeName.pointer^[stars] inner)) ∧
    ∀ resolved, prog.resolve loc ty = .ok resolved → prog.resolve loc resolved = .ok resolved := by
  refine ⟨fun _ => resolveWithin_more (guarded.bounded ty), ?_, fun cause => guarded.error, fun _ => resolve_iff,
    resolve_star ty, guarded.resolve_parts rfl rfl, fun _ _ _ => guarded.resolve_parts rfl rfl,
    fun _ _ _ _ => Chain.resolve, fun _ => resolve_resolved⟩
  rw [← guarded.circles_iff]
  constructor
  · rintro ⟨cause, failed⟩
    exact resolve_error failed
  · rintro ⟨label, circles⟩
    cases outcome : prog.resolve loc ty with
    | ok resolved => exact absurd circles (exists_resolve_iff.mp ⟨resolved, outcome⟩ label)
    | error cause => exact ⟨cause, rfl⟩

/-- There are no cycles through slice elements and signatures where the names in these have a
smaller rank. -/
theorem Guarded.of_rank (rank : String → Nat)
    (falls : ∀ entry ∈ prog.aliases, (∀ inner ∈ entry.binding.names, rank inner ≤ rank entry.name) ∧
      ∀ inner ∈ entry.binding.innerNames, rank inner < rank entry.name) : prog.Guarded := by
  have along {name : String} {entry : Alias} (known : prog.alias? name = some entry) :
      (∀ inner ∈ entry.binding.names, rank inner ≤ rank name) ∧
      ∀ inner ∈ entry.binding.innerNames, rank inner < rank name := by
    have same : entry.name = name := by simpa using find?_some known
    exact same ▸ falls entry (mem_of_find?_eq_some known)
  have below {first last : String} (reaches : ReflTransGen prog.Mentions first last) : rank last ≤ rank first := by
    induction reaches with
    | refl => exact Nat.le_refl _
    | tail _ step ih =>
      obtain ⟨entry, known, inside⟩ := step
      exact Nat.le_trans ((along known).1 _ inside) ih
  intro name entry inner known inside reaches
  exact absurd ((along known).2 inner inside) (Nat.not_lt.mpr (below reaches))

/-- `type Size = ulong`, `type Callback = *def(Size) *Size`, `type Ring = *Loop` and
`type Loop = *Ring`. -/
def rings : Program where
  file := ⟨"rings.tn"⟩
  aliases := [⟨"Size", .named "ulong", false, 1, ⟨"rings.tn"⟩⟩,
    ⟨"Callback", .pointer (.function [.named "Size"] (.pointer (.named "Size")) false false), false, 2, ⟨"rings.tn"⟩⟩,
    ⟨"Ring", .pointer (.named "Loop"), false, 3, ⟨"rings.tn"⟩⟩,
    ⟨"Loop", .pointer (.named "Ring"), false, 4, ⟨"rings.tn"⟩⟩]

theorem rings_replaced : rings.Guarded ∧ rings.Revisits (.array (.named "Ring")) ∧
    rings.resolve ⟨⟨"rings.tn"⟩, 5⟩ (.array (.named "Callback")) =
      .ok (.array
        (.pointer (.function [.named "ulong"] (.pointer (.named "ulong")) false false))) := by
  have guarded : rings.Guarded := .of_rank (if · = "Callback" then 1 else 0) (by decide)
  have ring := resolve_replaces_all guarded ⟨⟨"rings.tn"⟩, 5⟩ (.array (.named "Ring"))
  have callback := resolve_replaces_all guarded ⟨⟨"rings.tn"⟩, 5⟩ (.array (.named "Callback"))
  refine ⟨guarded, ring.2.1.mp ⟨.recursiveAlias ⟨⟨"rings.tn"⟩, 5⟩ "Ring", rfl⟩, ?_⟩
  exact (callback.2.2.2.1 _).mpr ⟨2, by decide, by unfold Unaliased; decide⟩

end Program
end TernLang
