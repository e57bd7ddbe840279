import TernLang.Proofs.Program.Entries

/-! The outcome of a merge. It succeeds just if every offered declaration that is new clashes with
no other one; then those that are new stand behind the tables, once each and with the visibility
asked for. Otherwise it stops at the first one that clashes, with what was taken before. -/
namespace TernLang
open Program

namespace Program
variable {prog other before after : Program} {isPublic : Bool} {offered : List Key} {key : Key}

/-- The declarations of a list that are new stand behind the others. -/
structure Extends (isPublic : Bool) (offered : List Key) (before after : Program) : Prop where
  functions : after.functions = before.functions
  entries : ∃ added : List Key, added.Nodup ∧
    (∀ key, key ∈ added ↔ key ∈ offered ∧ key ∉ before.keys) ∧
    ∀ cat, after.entries cat = before.entries cat ++
      (added.filter (·.category = cat)).map (⟨·, isPublic⟩)

theorem mem_keys_of_entries {added : List Key} (entries : ∀ cat, after.entries cat =
    before.entries cat ++ (added.filter (·.category = cat)).map (⟨·, isPublic⟩)) :
    key ∈ after.keys ↔ key ∈ before.keys ∨ key ∈ added := by
  simp only [mem_keys, entries, List.mem_append, List.mem_map, List.mem_filter, decide_eq_true_eq]
  constructor
  · rintro ⟨entry, old | ⟨found, ⟨mem, -⟩, rfl⟩, rfl⟩
    · exact .inl ⟨entry, old, rfl⟩
    · exact .inr mem
  · rintro (⟨entry, old, same⟩ | mem)
    · exact ⟨entry, .inl old, same⟩
    · exact ⟨⟨key, isPublic⟩, .inr ⟨key, ⟨mem, rfl⟩, rfl⟩, rfl⟩

namespace Extends

theorem of_sameTables (same : SameTables before after) : Extends isPublic [] before after where
  functions := same.functions
  entries := by
    refine ⟨[], List.nodup_nil, by simp, fun cat => ?_⟩
    rw [same.entries, List.filter_nil, List.map_nil, List.append_nil]

theorem mem_keys (extends_ : Extends isPublic offered before after) :
    key ∈ after.keys ↔ key ∈ before.keys ∨ key ∈ offered := by
  obtain ⟨added, -, mem, entries⟩ := extends_.entries
  rw [mem_keys_of_entries entries, mem]
  tauto

theorem trans (first : Extends isPublic offered a b) (second : Extends isPublic offered' b c) :
    Extends isPublic (offered ++ offered') a c where
  functions := second.functions.trans first.functions
  entries := by
    obtain ⟨early, early_nodup, early_mem, early_entries⟩ := first.entries
    obtain ⟨late, late_nodup, late_mem, late_entries⟩ := second.entries
    have between (key : Key) : key ∈ b.keys ↔ key ∈ a.keys ∨ key ∈ offered := first.mem_keys
    refine ⟨early ++ late, List.nodup_append.mpr ⟨early_nodup, late_nodup, ?_⟩, fun key => ?_, fun cat => ?_⟩
    · rintro key here _ there rfl
      exact ((late_mem key).mp there).2 ((between key).mpr (.inr ((early_mem key).mp here).1))
    · rw [List.mem_append, List.mem_append, early_mem, late_mem, between]
      tauto
    · rw [late_entries, early_entries, List.filter_append, List.map_append, List.append_assoc]

theorem again (extends_ : Extends isPublic offered before after) (there : key ∈ before.keys) :
    Extends isPublic (key :: offered) before after where
  functions := extends_.functions
  entries := by
    obtain ⟨added, nodup, mem, entries⟩ := extends_.entries
    refine ⟨added, nodup, fun other => ?_, entries⟩
    rw [mem, List.mem_cons]
    constructor
    · rintro ⟨mem, new⟩
      exact ⟨.inr mem, new⟩
    · rintro ⟨rfl | mem, new⟩
      · exact absurd there new
      · exact ⟨mem, new⟩

theorem one (fns : after.functions = before.functions) (new : key ∉ before.keys)
    (entries : ∀ cat, after.entries cat = before.entries cat ++ if key.category =
      cat then [⟨key, isPublic⟩] else []) : Extends isPublic [key] before after where
  functions := fns
  entries := by
    refine ⟨[key], List.nodup_singleton key, fun other => ?_, fun cat => ?_⟩
    · rw [List.mem_singleton]
      exact ⟨fun same => ⟨same, same ▸ new⟩, And.left⟩
    · rw [entries, List.filter_singleton]
      by_cases same : key.category = cat <;> simp [same]

end Extends
end Program

namespace Merge
open Program
variable {isPublic : Bool} {key : Key} {step : Merge Unit} {steps : List (Merge Unit)}
  {offered : List Key}

/-! One declaration. -/

/-- How a step treats the declaration that it offers. -/
structure Performs (isPublic : Bool) (key : Key) (step : Merge Unit) : Prop where
  known : ∀ prog, key ∈ prog.keys → step.run.run prog = (.ok (), prog)
  clash : ∀ prog, key ∉ prog.keys → ∀ taken ∈ prog.keys, key.Clashes taken → ∃ loc cat,
    step.run.run prog = (.error (.name loc (.importClash key.name cat)), prog)
  new : ∀ prog, (∀ other ∈ prog.keys, ¬ key.Clashes other) → ∃ after,
    step.run.run prog = (.ok (), after) ∧ Extends isPublic [key] prog after

theorem addOnce_performs {loc : Location} (val : key.isCallable = false)
    (fns : ∀ prog, (add prog).functions = prog.functions)
    (knows : ∀ prog, known prog ↔ key ∈ prog.keys := by simp [Program.mem_keys, Program.entries, Path.same_iff])
    (entries : ∀ prog cat, (add prog).entries cat = prog.entries cat ++
      if key.category = cat then [⟨key, isPublic⟩] else [] := by
      intro prog cat
      cases cat <;> simp [Program.entries, asImported]) :
    Performs isPublic key (addOnce known key.name loc add) where
  known prog there := by rw [run_addOnce, if_pos ((knows prog).mpr there)]
  clash prog new taken there clash := by
    rw [run_addOnce, if_neg (mt (knows prog).mp new)]
    cases free : prog.declared? key.name with
    | some cat => exact ⟨loc, cat, rfl⟩
    | none => exact absurd clash ((declared?_eq_none_iff val).mp free taken there)
  new prog free := by
    have new : key ∉ prog.keys := fun there => free key there (.refl key)
    rw [run_addOnce, if_neg (mt (knows prog).mp new), (declared?_eq_none_iff val).mpr free]
    exact ⟨add prog, rfl, .one (fns prog) new (entries prog)⟩

theorem addStructure_performs (isPublic : Bool) (struct : Structure) :
    Performs isPublic struct.key (addStructure isPublic struct) := addOnce_performs rfl fun _ => rfl

theorem addClass_performs (isPublic : Bool) (cls : Class) :
    Performs isPublic cls.key (addClass isPublic cls) :=
  addOnce_performs rfl fun _ => rfl

theorem addConstant_performs (isPublic : Bool) (values : List (String × Expr)) (const : Constant) :
    Performs isPublic const.key (addConstant isPublic values const) := by
  refine addOnce_performs rfl (fun _ => rfl) (by simp [mem_keys, entries, Path.same_iff]) fun prog cat => ?_
  rcases (const.value.copyOut values).run prog.nodes with ⟨val, nodes⟩
  cases cat <;> simp [entries]

theorem addGlobal_performs (isPublic : Bool) (glob : Global) :
    Performs isPublic glob.key (addGlobal isPublic glob) :=
  addOnce_performs rfl fun _ => rfl

theorem addAlias_performs (isPublic : Bool) (entry : Alias) :
    Performs isPublic entry.key (addAlias isPublic entry) :=
  addOnce_performs rfl fun _ => rfl

theorem addEnumeration_performs (isPublic : Bool) (enum_ : Enumeration) :
    Performs isPublic enum_.key (addEnumeration isPublic enum_) := addOnce_performs rfl fun _ => rfl

theorem knows_external (ext : External) (prog : Program) :
    (prog.externals.any fun e =>
      e.name == ext.name && e.origin.same ext.origin && e.params == ext.params) ↔
      ext.key ∈ prog.keys := by
  simp [mem_keys, entries, Path.same_iff, and_comm, and_left_comm]

theorem addExternal_performs (ext : External) :
    Performs ext.isPublic ext.key (addExternal ext) where
  known prog there := by rw [run_addExternal, if_pos ((knows_external ext prog).mpr there)]
  clash prog new taken there clash := by
    rw [run_addExternal, if_neg (mt (knows_external ext prog).mp new)]
    cases noValue : prog.valueNamed? ext.name with
    | some cat => exact ⟨_, cat, rfl⟩
    | none =>
      cases noFunction : prog.hasFunctionLike ext.name ext.params with
      | true => exact ⟨_, .function, rfl⟩
      | false =>
        cases noExternal : prog.hasExternalLike ext.name ext.params with
        | true => exact ⟨_, .external, rfl⟩
        | false =>
          exact absurd clash ((freeCallable_iff rfl).mp ⟨noValue, noFunction, noExternal⟩ taken there)
  new prog free := by
    have new : ext.key ∉ prog.keys := fun there => free ext.key there (.refl ext.key)
    have callable : ext.key.isCallable := rfl
    obtain ⟨noValue, noFunction, noExternal⟩ := (freeCallable_iff callable).mpr free
    simp only [External.key] at noValue noFunction noExternal
    refine ⟨{ prog with externals := prog.externals ++ [ext] }, ?_, .one rfl new fun cat => ?_⟩
    · rw [run_addExternal, if_neg (mt (knows_external ext prog).mp new)]
      simp only [noValue, noFunction, noExternal, Bool.false_eq_true, if_false]
    · cases cat <;> simp [entries]

/-! All declarations. -/

/-- Steps that offer declarations in turn, and quiet ones between them. -/
inductive Offers (isPublic : Bool) : List (Merge Unit) → List Key → Prop where
  | nil : Offers isPublic [] []
  | quiet {step : Merge Unit} {rest : List (Merge Unit)} {keys : List Key} :
    Quiet step → Offers isPublic rest keys → Offers isPublic (step :: rest) keys
  | offer {key : Key} {step : Merge Unit} {rest : List (Merge Unit)} {keys : List Key} :
    Performs isPublic key step → Offers isPublic rest keys →
      Offers isPublic (step :: rest) (key :: keys)

namespace Offers

theorem append (first : Offers isPublic steps offered) (second : Offers isPublic steps' offered') :
    Offers isPublic (steps ++ steps') (offered ++ offered') := by
  induction first with
  | nil => exact second
  | quiet silent _ ih => exact .quiet silent ih
  | offer performs _ ih => exact .offer performs ih

theorem map {α : Type} {key : α → Key} {step : α → Merge Unit}
    (each : ∀ item, Performs isPublic (key item) (step item)) (items : List α) :
    Offers isPublic (items.map step) (items.map key) := by
  induction items with
  | nil => exact .nil
  | cons item items ih => exact .offer (each item) ih

theorem quietMap {α : Type} {step : α → Merge Unit} (each : ∀ item, Quiet (step item))
    (items : List α) :
    Offers isPublic (items.map step) [] := by
  induction items with
  | nil => exact .nil
  | cons item items ih => exact .quiet (each item) ih

end Offers

theorem steps_offer (other : Program) (isPublic : Bool) :
    Offers isPublic (Merge.steps other isPublic) other.offers := by
  have deps : Offers isPublic [modify fun prog => other.dependencies.foldl addDependency prog] [] :=
    .quiet (quiet_dependencies other.dependencies) .nil
  have fns : Offers isPublic
      ((other.functions.filter (·.isPublic)).map fun f => addExternal (asExternal isPublic f))
      ((other.functions.filter (·.isPublic)).map fun f => { f.key with category := .external }) :=
    .map (fun f => addExternal_performs (asExternal isPublic f)) _
  have structures := Offers.map (addStructure_performs isPublic) (other.structures.filter (·.isPublic))
  have classes := Offers.map (addClass_performs isPublic) (other.classes.filter (·.isPublic))
  have externals : Offers isPublic
      ((other.externals.filter (·.isPublic)).map fun e => addExternal { e with isPublic })
      ((other.externals.filter (·.isPublic)).map External.key) :=
    .map (fun e => addExternal_performs { e with isPublic }) _
  have libraries : Offers isPublic [addLibraries other] [] := .quiet (quiet_libraries other) .nil
  have constants := Offers.map (addConstant_performs isPublic (other.constants.map fun c => (c.name, c.value)))
    (other.constants.filter (·.isPublic))
  have globals := Offers.map (addGlobal_performs isPublic) (other.globals.filter (·.isPublic))
  have aliases := Offers.map (addAlias_performs isPublic) (other.aliases.filter (·.isPublic))
  have enums := Offers.map (addEnumeration_performs isPublic) (other.enums.filter (·.isPublic))
  have itself : Offers isPublic [addRecord ⟨other.file, isPublic⟩] [] := .quiet (quiet_record _) .nil
  have records : Offers isPublic
      ((other.imports.filter (·.isPublic)).map fun r => addRecord ⟨r.file, isPublic⟩) [] :=
    .quietMap (fun r => quiet_record _) _
  have all := (((((((((deps.append fns).append structures).append classes).append externals).append
    libraries).append constants).append globals).append aliases).append enums).append (itself.append records)
  simpa only [Merge.steps, offers, List.nil_append, List.append_nil, List.append_assoc] using all

/-- All declarations of a list are taken, or those before the first one that clashes. -/
inductive Outcome (isPublic : Bool) (offered : List Key)
    (prog : Program) : Except Error Unit × Program → Prop where
  | taken {after : Program} : Key.Admits prog.keys offered → Extends isPublic offered prog after →
    Outcome isPublic offered prog (.ok (), after)
  | stopped {done rest : List Key} {key taken : Key} {left : Program} {loc : Location}
    {cat : Category} :
    offered = done ++ key :: rest → Extends isPublic done prog left → key ∉ left.keys →
      taken ∈ left.keys →
    key.Clashes taken →
      Outcome isPublic offered prog (.error (.name loc (.importClash key.name cat)), left)

theorem Outcome.after (admits : Key.Admits prog.keys done)
    (extends_ : Extends isPublic done prog between)
    (outcome : Outcome isPublic offered between res) :
    Outcome isPublic (done ++ offered) prog res := by
  cases outcome with
  | taken later rest =>
    have there (key : Key) : key ∈ prog.keys ++ done ↔ key ∈ between.keys := by
      rw [List.mem_append, extends_.mem_keys]
    exact .taken (Key.admits_append.mpr ⟨admits, later.congr there fun _ => .rfl⟩) (extends_.trans rest)
  | stopped split rest new there clash =>
    have split := congrArg (done ++ ·) split
    rw [← List.append_assoc] at split
    exact .stopped split (extends_.trans rest) new there clash

theorem inOrder_outcome (offers : Offers isPublic steps offered) (prog : Program) :
    Outcome isPublic offered prog ((inOrder steps).run.run prog) := by
  induction offers generalizing prog with
  | nil => exact .taken (.nil _) (.of_sameTables (.refl prog))
  | @quiet step rest keys silent _ ih =>
    obtain ⟨between, runs, same⟩ := silent prog
    rw [run_inOrder_cons, runs]
    exact (ih between).after (.nil _) (.of_sameTables same)
  | @offer key step rest keys performs _ ih =>
    rw [run_inOrder_cons]
    by_cases there : key ∈ prog.keys
    · rw [performs.known prog there]
      have admits : Key.Admits prog.keys [key] := by
        intro other mem new
        rw [List.mem_singleton.mp mem] at new
        exact absurd there new
      exact (ih prog).after admits ((Extends.of_sameTables (.refl prog)).again there)
    · by_cases clash : ∃ taken ∈ prog.keys, key.Clashes taken
      · obtain ⟨taken, mem, clash⟩ := clash
        obtain ⟨loc, cat, runs⟩ := performs.clash prog there taken mem clash
        rw [runs]
        exact .stopped (List.nil_append _).symm (.of_sameTables (.refl prog)) there mem clash
      · have free : ∀ other ∈ prog.keys, ¬ key.Clashes other := fun other mem clashes => clash ⟨other, mem, clashes⟩
        obtain ⟨between, runs, extends_⟩ := performs.new prog free
        rw [runs]
        have admits : Key.Admits prog.keys [key] := by
          intro other mem _ taken among clashes
          obtain rfl := List.mem_singleton.mp mem
          rcases List.mem_append.mp among with among | among
          · exact absurd clashes (free taken among)
          · exact (List.mem_singleton.mp among).symm
        exact (ih between).after admits extends_

end Merge

namespace Program
variable {prog other after : Program} {isPublic : Bool}

theorem merge_outcome (prog other : Program) (isPublic : Bool) :
    Merge.Outcome isPublic other.offers prog (prog.merge other isPublic) := by
  rw [merge, Merge.all_eq_inOrder]
  exact Merge.inOrder_outcome (Merge.steps_offer other isPublic) prog

theorem merge_extends (merges : prog.merge other isPublic = (.ok (), after)) :
    Extends isPublic other.offers prog after := by
  have outcome := merge_outcome prog other isPublic
  rw [merges] at outcome
  cases outcome with
  | taken _ extends_ => exact extends_

/-- A merge succeeds just if no new declaration clashes with another one. -/
theorem merge_ok_iff (isPublic : Bool) : (∃ after, prog.merge other isPublic = (.ok (), after)) ↔
    Key.Admits prog.keys other.offers := by
  have outcome := merge_outcome prog other isPublic
  constructor
  · rintro ⟨after, merges⟩
    rw [merges] at outcome
    cases outcome with
    | taken admits _ => exact admits
  · intro admits
    generalize prog.merge other isPublic = res at outcome
    cases outcome with
    | taken => exact ⟨_, rfl⟩
    | @stopped done rest key taken left loc cat split extends_ new there clash =>
      -- What stopped the merge is new, so it is what it clashes with.
      have offered : key ∈ other.offers := by
        rw [split]
        exact List.mem_append_right _ List.mem_cons_self
      have among : taken ∈ prog.keys ++ other.offers := by
        rw [split]
        rcases extends_.mem_keys.mp there with old | early
        · exact List.mem_append_left _ old
        · exact List.mem_append_right _ (List.mem_append_left _ early)
      have same := admits key offered (fun old => new (extends_.mem_keys.mpr (.inl old))) taken among clash
      exact absurd (same ▸ there) new

end Program
end TernLang
