import Mathlib.Data.Finset.Card
import Mathlib.Data.List.Perm.Subperm
import Mathlib.Logic.Function.Iterate
import Mathlib.Logic.Relation
import TernLang.Proofs.TypeName.Names

/-! Resolving aliases. Replacing all aliases of a type at once, again and again, comes to an end
just if none of them contains itself; then the loop over stars and bindings, called again for slice
elements and signatures, gives what is left. -/
namespace TernLang

open Success List
open Relation (ReflTransGen TransGen)

namespace TypeName
variable {type part : TypeName} {types : List TypeName} {name : String}

/-- The names in slice elements and in signatures. -/
def innerNames : TypeName → List String
  | named _ => []
  | pointer tgt => tgt.innerNames
  | type => type.names

/-- Slice elements and the types in a signature. -/
def parts : TypeName → List TypeName
  | array elem => [elem]
  | function params res _ _ => params ++ [res]
  | _ => []

theorem starred_eq (type : TypeName) (stars : Nat) : type.starred stars = pointer^[stars] type := by
  induction stars generalizing type with
  | zero => rfl
  | succ stars ih => exact ih _

theorem names_starred (type : TypeName) (stars : Nat) :
    (type.starred stars).names = type.names := by
  induction stars generalizing type with
  | zero => rfl
  | succ stars ih => exact ih _

theorem names_unstar (type : TypeName) : type.unstar.2.names = type.names := by
  induction type using induct with
  | pointer tgt ih => exact ih
  | named | array | function => rfl

theorem unstar_unstar (type : TypeName) : type.unstar.2.unstar.1 = 0 := by
  induction type using induct with
  | pointer tgt ih => exact ih
  | named | array | function => rfl

theorem nesting_le_nestingList (mem : type ∈ types) : type.nesting ≤ nestingList types := by
  induction types with
  | nil => contradiction
  | cons first types ih =>
    rcases mem_cons.mp mem with rfl | later
    · exact Nat.le_max_left ..
    · exact Nat.le_trans (ih later) (Nat.le_max_right ..)

theorem nesting_lt_of_mem_parts (mem : part ∈ type.parts) : part.nesting < type.nesting := by
  cases type with
  | named | pointer => contradiction
  | array elem => exact mem_singleton.mp mem ▸ Nat.lt_succ_self _
  | function params res =>
    rcases mem_append.mp mem with param | last
    · exact Nat.lt_succ_of_le (Nat.le_trans (nesting_le_nestingList param) (Nat.le_max_left ..))
    · exact mem_singleton.mp last ▸ Nat.lt_succ_of_le (Nat.le_max_right ..)

theorem mem_innerNames_of_parts (mem : part ∈ type.parts) (inside : name ∈ part.names) :
    name ∈ type.innerNames := by
  cases type with
  | named | pointer => contradiction
  | array elem => exact mem_singleton.mp mem ▸ inside
  | function params res =>
    rcases mem_append.mp mem with param | last
    · exact mem_append_left _ (mem_namesList.mpr ⟨part, param, inside⟩)
    · exact mem_append_right _ (mem_singleton.mp last ▸ inside)

theorem mem_names_of_innerNames (inside : name ∈ type.innerNames) : name ∈ type.names := by
  induction type using induct with
  | named => contradiction
  | pointer tgt ih => exact ih inside
  | array | function => exact inside

theorem resolveParts_error {resolve : TypeName → Except Error TypeName}
    (failed : type.resolveParts resolve = .error cause) (bare : type.unstar.1 = 0) :
    ∃ part ∈ type.parts, resolve part = .error cause := by
  cases type with
  | named | pointer => contradiction
  | array elem =>
    rcases bind_error.mp failed with failed | ⟨_, -, done⟩
    · exact ⟨elem, mem_singleton_self _, failed⟩
    · contradiction
  | function params res =>
    rcases bind_error.mp failed with failed | ⟨_, -, failed⟩
    · obtain ⟨param, mem, failed⟩ := mapM_error failed
      exact ⟨param, mem_append_left _ mem, failed⟩
    · rcases bind_error.mp failed with failed | ⟨_, -, done⟩
      · exact ⟨res, mem_append_right _ (mem_singleton_self _), failed⟩
      · contradiction

end TypeName

namespace Program
variable {prog : Program} {name label : String} {loc here there : Location}
  {type resolved last rest : TypeName} {cause : Error} {fuel depth stars : Nat}
  {visited labels : List String}

/-- The second name stands in the binding of the first. -/
def Mentions (prog : Program) (name inner : String) : Prop :=
  ∃ entry, prog.alias? name = some entry ∧ inner ∈ entry.binding.names

/-- The name is come to from a name of the type. -/
def LeadsTo (prog : Program) (type : TypeName) (label : String) : Prop :=
  ∃ name ∈ type.names, ReflTransGen prog.Mentions name label

/-- The alias contains itself and is come to from a name of the type. -/
def Circles (prog : Program) (type : TypeName) (label : String) : Prop :=
  prog.LeadsTo type label ∧ TransGen prog.Mentions label label

/-- The type with the aliases in it replaced by their bindings. -/
def unfold (prog : Program) (type : TypeName) : TypeName :=
  type.mapNames fun name => ((prog.alias? name).map (·.binding)).getD (.named name)

def Unaliased (prog : Program) (type : TypeName) : Prop :=
  ∀ name ∈ type.names, prog.alias? name = none

/-- A chain from a type on: the aliases that are replaced, the number of stars in front of them, and
the type that is come to. -/
inductive Chain (prog : Program) : TypeName → List String → Nat → TypeName → Prop where
  | start (type : TypeName) : Chain prog type [] 0 type
  | star {tgt last : TypeName} {labels : List String} {stars : Nat} :
    Chain prog tgt labels stars last → Chain prog (.pointer tgt) labels (stars + 1) last
  | bound {name : String} {entry : Alias} {last : TypeName} {labels : List String} {stars : Nat} :
    prog.alias? name = some entry → Chain prog entry.binding labels stars last →
    Chain prog (.named name) (name :: labels) stars last

theorem alias?_name (known : prog.alias? name = some entry) : entry.name = name := by
  simpa using find?_some known

theorem mem_aliases (known : prog.alias? name = some entry) : name ∈ prog.aliases.map (·.name) :=
  alias?_name known ▸ mem_map_of_mem (mem_of_find?_eq_some known)

theorem Circles.mem_aliases (circles : prog.Circles type label) :
    label ∈ prog.aliases.map (·.name) := by
  obtain ⟨_, ⟨entry, known, -⟩, -⟩ := TransGen.head'_iff.mp circles.2
  exact Program.mem_aliases known

/-! Replacing all aliases at once. -/

theorem unfold_named (known : prog.alias? name = some entry) :
    prog.unfold (.named name) = entry.binding := by
  rw [unfold, TypeName.mapNames, known]
  rfl

theorem Unaliased.unfold (plain : prog.Unaliased type) : prog.unfold type = type := by
  have each : ∀ name ∈ type.names,
      ((prog.alias? name).map (·.binding)).getD (.named name) = .named name := by
    intro name mem
    rw [plain name mem]
    rfl
  rw [Program.unfold, TypeName.mapNames_congr each, TypeName.mapNames_named]

theorem Unaliased.iterate (plain : prog.Unaliased type) (rounds : Nat) :
    prog.unfold^[rounds] type = type :=
  Function.iterate_fixed plain.unfold rounds

/-- More rounds than enough change nothing. -/
theorem Unaliased.more {more : Nat} (plain : prog.Unaliased resolved)
    (same : prog.unfold^[rounds] type = resolved) (enough : rounds ≤ more) :
    prog.unfold^[more] type = resolved := by
  obtain ⟨extra, rfl⟩ := Nat.exists_eq_add_of_le enough
  rw [Nat.add_comm, Function.iterate_add_apply, same, plain.iterate]

theorem unaliased_stars (stars : Nat) :
    prog.Unaliased (TypeName.pointer^[stars] type) ↔ prog.Unaliased type := by
  rw [← TypeName.starred_eq, Unaliased, TypeName.names_starred, Unaliased]

theorem unaliased_named (plain : prog.alias? name = none) : prog.Unaliased (.named name) :=
  fun _ mem => mem_singleton.mp mem ▸ plain

theorem iterate_unfold (rounds : Nat) (type : TypeName) :
    prog.unfold^[rounds] type = type.mapNames fun name => prog.unfold^[rounds] (.named name) := by
  induction rounds generalizing type with
  | zero => exact type.mapNames_named.symm
  | succ rounds ih =>
    rw [Function.iterate_succ_apply, ih, unfold, TypeName.mapNames_mapNames]
    apply TypeName.mapNames_congr
    intro name _
    rw [← ih]
    rfl

theorem iterate_unfold_pointer (rounds : Nat) (tgt : TypeName) :
    prog.unfold^[rounds] (.pointer tgt) = .pointer (prog.unfold^[rounds] tgt) := by
  rw [iterate_unfold, TypeName.mapNames, ← iterate_unfold]

theorem iterate_unfold_array (rounds : Nat) (elem : TypeName) :
    prog.unfold^[rounds] (.array elem) = .array (prog.unfold^[rounds] elem) := by
  rw [iterate_unfold, TypeName.mapNames, ← iterate_unfold]

theorem iterate_unfold_function (rounds : Nat) (params : List TypeName) (res : TypeName)
    (stdcall variadic : Bool) : prog.unfold^[rounds] (.function params res stdcall variadic) =
      .function (params.map prog.unfold^[rounds]) (prog.unfold^[rounds] res) stdcall variadic := by
  rw [iterate_unfold, TypeName.mapNames, ← iterate_unfold, TypeName.mapNamesList_eq]
  exact congrArg (TypeName.function · _ _ _) (map_congr_left fun param _ => (iterate_unfold rounds param).symm)

theorem Circles.unfold (circles : prog.Circles type label) :
    prog.Circles (prog.unfold type) label := by
  obtain ⟨⟨name, mem, reaches⟩, cycle⟩ := circles
  obtain ⟨inner, ⟨entry, known, inside⟩, rest⟩ := TransGen.head'_iff.mp (cycle.trans_right reaches)
  refine ⟨⟨inner, TypeName.mem_names_mapNames.mpr ⟨name, mem, ?_⟩, rest⟩, cycle⟩
  rwa [known]

theorem Circles.iterate (circles : prog.Circles type label) (rounds : Nat) :
    prog.Circles (prog.unfold^[rounds] type) label := by
  induction rounds generalizing type with
  | zero => exact circles
  | succ rounds ih => exact ih circles.unfold

theorem Circles.not_unaliased (circles : prog.Circles type label) : ¬ prog.Unaliased type := by
  intro plain
  obtain ⟨⟨name, mem, reaches⟩, cycle⟩ := circles
  obtain ⟨inner, ⟨entry, known, -⟩, -⟩ := TransGen.head'_iff.mp (cycle.trans_right reaches)
  exact nomatch (plain name mem).symm.trans known

/-! Chains. -/

theorem Chain.trans {middle : TypeName} (chain : prog.Chain type labels stars middle)
    (onward : prog.Chain middle later more last) :
    prog.Chain type (labels ++ later) (stars + more) last := by
  induction chain with
  | start => rwa [Nat.zero_add]
  | star _ ih =>
    rw [Nat.add_right_comm]
    exact .star (ih onward)
  | bound known _ ih => exact .bound known (ih onward)

theorem Chain.unstar (type : TypeName) : prog.Chain type [] type.unstar.1 type.unstar.2 := by
  induction type using TypeName.induct with
  | pointer tgt ih => exact .star ih
  | named | array | function => exact .start _

theorem Chain.iterate (chain : prog.Chain type labels stars last) (rounds : Nat) :
    prog.unfold^[rounds + labels.length] type =
      TypeName.pointer^[stars] (prog.unfold^[rounds] last) := by
  induction chain with
  | start => rfl
  | star _ ih => rw [iterate_unfold_pointer, ih, Function.iterate_succ_apply']
  | bound known _ ih => rw [length_cons, ← Nat.add_assoc, Function.iterate_succ_apply, unfold_named known, ih]

theorem LeadsTo.bound (known : prog.alias? name = some entry)
    (reaches : prog.LeadsTo entry.binding label) :
    prog.LeadsTo (.named name) label := by
  obtain ⟨inner, inside, onward⟩ := reaches
  exact ⟨name, mem_cons_self, .head ⟨entry, known, inside⟩ onward⟩

theorem Chain.reaches (chain : prog.Chain type labels stars last)
    (reaches : prog.LeadsTo last label) :
    prog.LeadsTo type label := by
  induction chain with
  | start => exact reaches
  | star _ ih => exact ih reaches
  | bound known _ ih => exact (ih reaches).bound known

/-- What a chain comes to stands behind the stars of the type it starts from, or of some binding. -/
theorem Chain.origin (chain : prog.Chain type labels stars last) :
    (last.nesting = type.nesting ∧ last.innerNames = type.innerNames) ∨
      ∃ name entry, prog.LeadsTo type name ∧ prog.alias? name = some entry ∧
        last.nesting = entry.binding.nesting ∧ last.innerNames = entry.binding.innerNames := by
  induction chain with
  | start => exact .inl ⟨rfl, rfl⟩
  | star _ ih => exact ih
  | @bound name entry _ _ _ known _ ih =>
    rcases ih with ⟨deep, names⟩ | ⟨name, entry, reaches, there⟩
    · exact .inr ⟨name, entry, ⟨name, mem_cons_self, .refl⟩, known, deep, names⟩
    · exact .inr ⟨name, entry, reaches.bound known, there⟩

/-! Following aliases. -/

theorem named_of_alias (found : rest.bareName?.bind prog.alias? = some entry) :
    rest = .named entry.name ∧ prog.alias? entry.name = some entry := by
  obtain ⟨name, bare, known⟩ := Option.bind_eq_some_iff.mp found
  rw [alias?_name known]
  cases rest with
  | named => exact ⟨congrArg _ (Option.some.inj bare), known⟩
  | pointer | array | function => contradiction

theorem followAliases_ok
    (follows : prog.followAliases loc fuel stars visited type = .ok (total, rest)) :
    ∃ labels more, prog.Chain type labels more rest ∧ total = stars + more ∧ labels.length ≤ fuel ∧
      rest.bareName?.bind prog.alias? = none ∧ rest.unstar.1 = 0 := by
  induction fuel generalizing stars visited type with
  | zero =>
    unfold followAliases at follows
    split at follows
    · next plain =>
      cases follows
      exact ⟨[], _, .unstar type, rfl, Nat.le_refl _, plain, type.unstar_unstar⟩
    · split at follows <;> contradiction
  | succ fuel ih =>
    unfold followAliases at follows
    split at follows
    · next plain =>
      cases follows
      exact ⟨[], _, .unstar type, rfl, Nat.zero_le _, plain, type.unstar_unstar⟩
    · next entry known =>
      split at follows
      · contradiction
      · obtain ⟨labels, more, chain, rfl, short, final⟩ := ih follows
        obtain ⟨same, known⟩ := named_of_alias known
        have chain : prog.Chain type.unstar.2 (entry.name :: labels) more rest := same ▸ .bound known chain
        exact ⟨_, _, (Chain.unstar type).trans chain, Nat.add_assoc .., Nat.succ_le_succ short, final⟩

/-- No way through the aliases is longer than their table, so there is fuel until one is visited
again. -/
theorem followAliases_error (failed : prog.followAliases loc fuel stars visited type = .error cause)
    (enough : prog.aliases.length ≤ visited.length + fuel) (once : visited.Nodup)
    (passed : ∀ earlier ∈ visited, earlier ∈ prog.aliases.map (·.name) ∧
      ∀ name ∈ type.names, TransGen prog.Mentions earlier name) :
    ∃ label, cause = .recursiveAlias loc label ∧ prog.Circles type label := by
  have inside {type : TypeName} {entry : Alias} (known : type.unstar.2.bareName?.bind prog.alias? = some entry) :
      entry.name ∈ type.names := by
    rw [← type.names_unstar, (named_of_alias known).1]
    exact mem_cons_self
  induction fuel generalizing stars visited type with
  | zero =>
    unfold followAliases at failed
    split at failed
    · contradiction
    · next entry known =>
      have mem : entry.name ∈ visited := by
        by_contra new
        have listed : entry.name :: visited ⊆ prog.aliases.map (·.name) :=
          cons_subset.mpr ⟨mem_aliases (named_of_alias known).2, fun earlier mem => (passed earlier mem).1⟩
        have fits := (subperm_of_subset (nodup_cons.mpr ⟨new, once⟩) listed).length_le
        rw [length_cons, length_map] at fits
        omega
      rw [if_pos (contains_iff_mem.mpr mem)] at failed
      cases failed
      exact ⟨_, rfl, ⟨_, inside known, .refl⟩, (passed _ mem).2 _ (inside known)⟩
  | succ fuel ih =>
    unfold followAliases at failed
    split at failed
    · contradiction
    · next entry known =>
      split at failed
      · next mem =>
        cases failed
        have before := passed _ (contains_iff_mem.mp mem)
        exact ⟨_, rfl, ⟨_, inside known, .refl⟩, before.2 _ (inside known)⟩
      · next new =>
        have step {inner : String} (mem : inner ∈ entry.binding.names) : prog.Mentions entry.name inner :=
          ⟨entry, (named_of_alias known).2, mem⟩
        have ways : ∀ earlier ∈ entry.name :: visited, earlier ∈ prog.aliases.map (·.name) ∧
            ∀ inner ∈ entry.binding.names, TransGen prog.Mentions earlier inner := by
          refine forall_mem_cons.mpr ⟨⟨mem_aliases (named_of_alias known).2, fun _ mem => .single (step mem)⟩, ?_⟩
          exact fun earlier mem => ⟨(passed earlier mem).1, fun _ within =>
            ((passed earlier mem).2 _ (inside known)).tail (step within)⟩
        obtain ⟨label, same, ⟨inner, mem, reaches⟩, cycle⟩ := ih failed (by rw [length_cons]; omega)
          (nodup_cons.mpr ⟨mt contains_iff_mem.mpr new, once⟩) ways
        exact ⟨label, same, ⟨_, inside known, .head (step mem) reaches⟩, cycle⟩

/-! Nested calls. -/

/-- No cycle that is come to from the type goes through a slice element or a signature. -/
def GuardedFrom (prog : Program) (type : TypeName) : Prop :=
  ∀ name entry inner, prog.LeadsTo type name → prog.alias? name = some entry →
    inner ∈ entry.binding.innerNames → ¬ ReflTransGen prog.Mentions inner name

open Classical in
/-- The aliases that are come to from the type. -/
noncomputable def reached (prog : Program) (type : TypeName) : Finset String :=
  {name ∈ (prog.aliases.map (·.name)).toFinset | prog.LeadsTo type name}

/-- How deep calls for the type can nest: inside each alias that is come to, its slices and
signatures. -/
noncomputable def budget (prog : Program) (type : TypeName) : Nat :=
  type.nesting + (prog.reached type).card * TypeName.nestingList (prog.aliases.map (·.binding))

open Classical in
theorem mem_reached : name ∈ prog.reached type ↔
    name ∈ prog.aliases.map (·.name) ∧ prog.LeadsTo type name := by
  rw [reached, Finset.mem_filter, mem_toFinset]

theorem budget_lt (prog : Program) (type : TypeName) :
    prog.budget type < prog.resolveDepth type := by
  have few : (prog.reached type).card ≤ prog.aliases.length := by
    calc (prog.reached type).card
      _ ≤ (prog.aliases.map (·.name)).toFinset.card :=
        Finset.card_le_card fun _ mem => mem_toFinset.mpr (mem_reached.mp mem).1
      _ ≤ (prog.aliases.map (·.name)).length := toFinset_card_le _
      _ = prog.aliases.length := length_map _
  exact Nat.lt_succ_of_le (Nat.add_le_add_left (Nat.mul_le_mul_right _ few) _)

/-- A part of what a chain comes to reaches fewer aliases, or is itself nested less deep. -/
theorem Chain.budget_lt (chain : prog.Chain type labels stars rest)
    (guarded : prog.GuardedFrom type) (mem : part ∈ rest.parts) :
    prog.budget part < prog.budget type := by
  have onward {name : String} (reaches : prog.LeadsTo part name) : prog.LeadsTo type name := by
    obtain ⟨first, inside, reaches⟩ := reaches
    exact chain.reaches ⟨first,
      TypeName.mem_names_of_innerNames (TypeName.mem_innerNames_of_parts mem inside), reaches⟩
  have within : prog.reached part ⊆ prog.reached type := fun _ there =>
    mem_reached.mpr ((mem_reached.mp there).imp_right onward)
  have shallow := TypeName.nesting_lt_of_mem_parts mem
  unfold budget
  rcases chain.origin with ⟨deep, -⟩ | ⟨name, entry, reaches, known, deep, names⟩
  · have fewer := Nat.mul_le_mul_right (TypeName.nestingList (prog.aliases.map (·.binding)))
      (Finset.card_le_card within)
    omega
  · have apart : name ∉ prog.reached part := by
      intro there
      obtain ⟨first, inside, back⟩ := (mem_reached.mp there).2
      exact guarded name entry first reaches known (names ▸ TypeName.mem_innerNames_of_parts mem inside) back
    have listed : name ∈ prog.reached type := mem_reached.mpr ⟨mem_aliases known, reaches⟩
    have fewer := Finset.card_lt_card (Finset.ssubset_iff_subset_ne.mpr ⟨within, fun same => apart (same ▸ listed)⟩)
    have fewer := Nat.mul_le_mul_right (TypeName.nestingList (prog.aliases.map (·.binding))) (Nat.succ_le_of_lt fewer)
    have bound : entry.binding.nesting ≤ TypeName.nestingList (prog.aliases.map (·.binding)) :=
      TypeName.nesting_le_nestingList (mem_map_of_mem (mem_of_find?_eq_some known))
    rw [Nat.succ_mul] at fewer
    omega

/-- Where calls can nest deep enough, only an alias that is visited again makes them fail. -/
theorem resolveWithin_error (failed : prog.resolveWithin loc depth type = .error cause)
    (guarded : prog.GuardedFrom type) (enough : prog.budget type < depth) :
    ∃ label, cause = .recursiveAlias loc label ∧ prog.Circles type label := by
  induction depth generalizing type with
  | zero => contradiction
  | succ depth ih =>
    rw [resolveWithin, bind_error] at failed
    rcases failed with failed | ⟨⟨stars, rest⟩, follows, failed⟩
    · exact followAliases_error failed (Nat.le_add_left ..) nodup_nil (forall_mem_nil _)
    · obtain ⟨labels, _, chain, -, -, -, bare⟩ := followAliases_ok follows
      obtain ⟨part, mem, failed⟩ := TypeName.resolveParts_error ((bind_error.mp failed).resolve_right nofun) bare
      have onward {name : String} (reaches : prog.LeadsTo part name) : prog.LeadsTo type name := by
        obtain ⟨first, inside, reaches⟩ := reaches
        exact chain.reaches
          ⟨first, TypeName.mem_names_of_innerNames (TypeName.mem_innerNames_of_parts mem inside), reaches⟩
      obtain ⟨label, same, circles⟩ :=
        ih failed (fun name entry inner reaches => guarded name entry inner (onward reaches))
        (Nat.lt_of_lt_of_le (chain.budget_lt guarded mem) (Nat.le_of_lt_succ enough))
      exact ⟨label, same, onward circles.1, circles.2⟩

/-- Rounds that are enough for the parts are enough for the type. -/
theorem resolveParts_ok {resolve : TypeName → Except Error TypeName}
    (each : ∀ part resolved, resolve part = .ok resolved → prog.Unaliased resolved ∧
      prog.unfold^[rounds] part = resolved) (plain : rest.bareName?.bind prog.alias? = none)
    (resolves : rest.resolveParts resolve = .ok resolved) :
    prog.Unaliased resolved ∧ prog.unfold^[rounds] rest = resolved := by
  cases rest with
  | named name =>
    cases resolves
    exact ⟨unaliased_named plain, (unaliased_named plain).iterate _⟩
  | pointer => contradiction
  | array elem =>
    simp only [TypeName.resolveParts, bind_ok, pure_ok] at resolves
    obtain ⟨elem, resolves, rfl⟩ := resolves
    obtain ⟨plain, rfl⟩ := each _ _ resolves
    exact ⟨plain, iterate_unfold_array ..⟩
  | function params res stdcall variadic =>
    simp only [TypeName.resolveParts, bind_ok, pure_ok, mapM_ok] at resolves
    obtain ⟨found, resolves, res, last, rfl⟩ := resolves
    have list : (∀ param ∈ found, prog.Unaliased param) ∧ params.map prog.unfold^[rounds] = found := by
      clear plain
      induction resolves with
      | nil => exact ⟨forall_mem_nil _, rfl⟩
      | cons first _ ih =>
        obtain ⟨plain, rfl⟩ := each _ _ first
        exact ⟨forall_mem_cons.mpr ⟨plain, ih.1⟩, congrArg (_ :: ·) ih.2⟩
    obtain ⟨plain, rfl⟩ := each _ _ last
    obtain ⟨plains, rfl⟩ := list
    refine ⟨fun name mem => ?_, iterate_unfold_function ..⟩
    rcases mem_append.mp mem with inside | inside
    · obtain ⟨param, among, inside⟩ := TypeName.mem_namesList.mp inside
      exact plains param among name inside
    · exact plain name inside

theorem resolveWithin_ok (resolves : prog.resolveWithin loc depth type = .ok resolved) :
    prog.Unaliased resolved ∧ prog.unfold^[depth * prog.aliases.length] type = resolved := by
  induction depth generalizing type resolved with
  | zero => contradiction
  | succ depth ih =>
    simp only [resolveWithin, bind_ok, pure_ok, Prod.exists] at resolves
    obtain ⟨stars, rest, follows, inner, parts, rfl⟩ := resolves
    obtain ⟨labels, more, chain, rfl, short, plain, bare⟩ := followAliases_ok follows
    obtain ⟨settled, rfl⟩ := resolveParts_ok (fun _ _ => ih) plain parts
    have plain := (unaliased_stars more).mpr settled
    rw [TypeName.starred_eq, Nat.zero_add, Nat.succ_mul]
    exact ⟨plain, plain.more (chain.iterate _) (Nat.add_le_add_left short _)⟩

/-! Resolving types. -/

theorem resolve_error (failed : prog.resolve loc type = .error cause) :
    ∃ label, prog.Circles type label := by
  by_cases guarded : prog.GuardedFrom type
  · exact (resolveWithin_error failed guarded (budget_lt prog type)).imp fun _ => And.right
  · simp only [GuardedFrom, not_forall, not_not] at guarded
    obtain ⟨name, entry, inner, reaches, known, inside, back⟩ := guarded
    exact ⟨name, reaches, .head' ⟨entry, known, TypeName.mem_names_of_innerNames inside⟩ back⟩

/-- A type resolves to what is left when its aliases are replaced until there are none. -/
theorem resolve_iff : prog.resolve loc type = .ok resolved ↔
    ∃ rounds, prog.unfold^[rounds] type = resolved ∧ prog.Unaliased resolved := by
  refine ⟨fun resolves => ⟨_, (resolveWithin_ok resolves).symm⟩, ?_⟩
  rintro ⟨rounds, rfl, plain⟩
  cases outcome : prog.resolve loc type with
  | ok other =>
    obtain ⟨done, same⟩ := resolveWithin_ok outcome
    rw [← done.more same (Nat.le_max_left _ rounds), ← plain.more rfl (Nat.le_max_right ..)]
  | error cause =>
    obtain ⟨label, circles⟩ := resolve_error outcome
    exact absurd plain (circles.iterate rounds).not_unaliased

/-- A type resolves just if no alias in it contains itself. -/
theorem exists_resolve_iff : (∃ resolved, prog.resolve loc type = .ok resolved) ↔
    ∀ label, ¬ prog.Circles type label := by
  constructor
  · rintro ⟨resolved, resolves⟩ label circles
    obtain ⟨rounds, rfl, plain⟩ := resolve_iff.mp resolves
    exact (circles.iterate rounds).not_unaliased plain
  · intro sound
    cases outcome : prog.resolve loc type with
    | ok resolved => exact ⟨resolved, rfl⟩
    | error cause =>
      obtain ⟨label, circles⟩ := resolve_error outcome
      exact absurd circles (sound label)

theorem resolve_elsewhere (resolves : prog.resolve here type = .ok resolved) :
    prog.resolve there type = .ok resolved :=
  resolve_iff.mpr (resolve_iff.mp resolves)

theorem Unaliased.resolve (plain : prog.Unaliased type) : prog.resolve loc type = .ok type :=
  resolve_iff.mpr ⟨0, rfl, plain⟩

theorem resolve_plain (plain : prog.alias? name = none) :
    prog.resolve loc (.named name) = .ok (.named name) :=
  (unaliased_named plain).resolve

theorem resolve_resolved (resolves : prog.resolve here type = .ok resolved) :
    prog.resolve there resolved = .ok resolved := by
  obtain ⟨_, -, plain⟩ := resolve_iff.mp resolves
  exact plain.resolve

/-- What a type resolves to has the stars of the chain in front of what the chain's end resolves to.
-/
theorem Chain.resolve (chain : prog.Chain type labels stars last) :
    prog.resolve loc type = .ok resolved ↔
    ∃ inner, prog.resolve loc last = .ok inner ∧ resolved = TypeName.pointer^[stars] inner := by
  constructor
  · intro resolves
    obtain ⟨rounds, same, plain⟩ := resolve_iff.mp resolves
    have same := plain.more same (Nat.le_add_right rounds labels.length)
    rw [chain.iterate] at same
    subst same
    exact ⟨_, resolve_iff.mpr ⟨rounds, rfl, (unaliased_stars stars).mp plain⟩, rfl⟩
  · rintro ⟨inner, resolves, rfl⟩
    obtain ⟨rounds, rfl, plain⟩ := resolve_iff.mp resolves
    exact resolve_iff.mpr ⟨_, chain.iterate rounds, (unaliased_stars stars).mpr plain⟩

theorem resolve_bound (known : prog.alias? name = some entry) :
    prog.resolve loc (.named name) = .ok resolved ↔
      prog.resolve loc entry.binding = .ok resolved := by
  rw [(Chain.bound known (.start _)).resolve]
  simp

theorem resolve_pointer {tgt : TypeName} : prog.resolve loc (.pointer tgt) = .ok resolved ↔
    ∃ inner, prog.resolve loc tgt = .ok inner ∧ resolved = .pointer inner :=
  (Chain.star (.start _)).resolve

theorem resolve_array {elem : TypeName} : prog.resolve loc (.array elem) = .ok resolved ↔
    ∃ inner, prog.resolve loc elem = .ok inner ∧ resolved = .array inner := by
  simp only [resolve_iff, iterate_unfold_array]
  constructor
  · rintro ⟨rounds, rfl, plain⟩
    exact ⟨_, ⟨rounds, rfl, plain⟩, rfl⟩
  · rintro ⟨_, ⟨rounds, rfl, plain⟩, rfl⟩
    exact ⟨rounds, rfl, plain⟩

theorem resolve_function {params : List TypeName} {res : TypeName} {stdcall variadic : Bool} :
    prog.resolve loc (.function params res stdcall variadic) = .ok resolved ↔
      ∃ found inner, params.mapM (prog.resolve loc) = .ok found ∧
        prog.resolve loc res = .ok inner ∧ resolved = .function found inner stdcall variadic := by
  have onward {resolved : TypeName}
      (resolves : prog.resolve loc (.function params res stdcall variadic) = .ok resolved) :
      ∃ found inner, params.mapM (prog.resolve loc) = .ok found ∧
        prog.resolve loc res = .ok inner ∧ resolved = .function found inner stdcall variadic := by
    obtain ⟨rounds, rfl, plain⟩ := resolve_iff.mp resolves
    rw [iterate_unfold_function] at plain ⊢
    simp only [Unaliased, TypeName.names, forall_mem_append, TypeName.mem_namesList, mem_map] at plain
    refine ⟨_, _, ?_, resolve_iff.mpr ⟨rounds, rfl, plain.2⟩, rfl⟩
    rw [mapM_ok, forall₂_map_right_iff, forall₂_same]
    exact fun param mem => resolve_iff.mpr
      ⟨rounds, rfl, fun name inside => plain.1 name ⟨_, ⟨param, mem, rfl⟩, inside⟩⟩
  refine ⟨onward, ?_⟩
  rintro ⟨found, inner, each, last, rfl⟩
  have resolves : ∃ resolved, prog.resolve loc (.function params res stdcall variadic) = .ok resolved := by
    rw [exists_resolve_iff]
    rintro label ⟨⟨name, mem, reaches⟩, cycle⟩
    rcases mem_append.mp mem with inside | inside
    · obtain ⟨param, among, inside⟩ := TypeName.mem_namesList.mp inside
      obtain ⟨other, -, resolves⟩ := exists_of_forall₂ (mapM_ok.mp each) param among
      exact exists_resolve_iff.mp ⟨other, resolves⟩ label ⟨⟨name, inside, reaches⟩, cycle⟩
    · exact exists_resolve_iff.mp ⟨inner, last⟩ label ⟨⟨name, inside, reaches⟩, cycle⟩
  obtain ⟨resolved, resolves⟩ := resolves
  obtain ⟨_, _, same, ends, rfl⟩ := onward resolves
  obtain rfl := Except.ok.inj (each.symm.trans same)
  obtain rfl := Except.ok.inj (last.symm.trans ends)
  exact resolves

end Program
end TernLang
