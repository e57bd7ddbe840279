import TernLang.Proofs.Lowering.Definitions
import TernLang.Proofs.Session.Following
import TernLang.Session

/-! Linking. A run links everything that the files it loads have imported from, and an imported
function is looked up among all of it: first in the calling module, then in the order of linking.
What is found is the function of the file it was imported from, unless something else has taken its
symbol. -/
namespace TernLang
open Signature List

variable {cache : Cache} {file : Path}

theorem Cache.Sound.holds_unique (sound : cache.Sound) (here : cache.Holds file first)
    (there : cache.Holds file second) :
    first = second := by
  obtain ⟨place, found⟩ := mem_iff_getElem?.mp here.mem
  obtain ⟨place', found'⟩ := mem_iff_getElem?.mp there.mem
  have same := (sound.find?_eq found here.file).symm.trans (sound.find?_eq found' there.file)
  cases same
  exact Option.some.inj (found.symm.trans found')

/-! Looking symbols up. -/

/-- The program of a file, with the module it is lowered to. -/
abbrev Part := Program × Machine.Linked

def Part.IsOf (part : Part) (cache : Cache) (file : Path) : Prop :=
  ∃ entry, cache.Holds file entry ∧ entry.program = part.1

/-- The program has a function or method of its own with the symbol. -/
def Program.owns (sym : String) (prog : Program) : Bool :=
  (Lowering.ownSymbols (Lowering.allFunctions prog)).contains sym

/-- Where a symbol is looked up: in the calling module, then in all in the order of linking. -/
def owner? (parts : List Part) (home : Part) (sym : String) : Option Part :=
  (home :: parts).find? (·.1.owns sym)

def imageOf (parts : List Part) : Machine.Image := ⟨parts.map (·.2)⟩

section
open Lowering
variable {mod : Ir.Module} {home finder : Part} {parts : List Part} {sym : String} {workers : Nat}
  {linked : Machine.Linked}

theorem Machine.Linked.definition?_of_hasBody (has : HasBody linked.module sym) :
    ∃ body, linked.module.function? sym = some body ∧ linked.definition? sym = some body ∧
      linked.publicDefinition? sym = some body := by
  obtain ⟨body, found, given, visible⟩ := has
  have here : linked.definition? sym = some body := by
    rw [definition?, found, Option.filter_some, given]
    rfl
  refine ⟨body, found, here, ?_⟩
  rw [publicDefinition?, here, Option.filter_some, visible]
  rfl

theorem Machine.Linked.definition?_eq_none (none : Bodiless linked.module sym) :
    linked.definition? sym = Option.none ∧ linked.publicDefinition? sym = Option.none := by
  have here : linked.definition? sym = Option.none := by
    rw [definition?, Option.filter_eq_none_iff]
    intro body found
    simp [none body found]
  refine ⟨here, ?_⟩
  rw [publicDefinition?, here]
  rfl

theorem find?_owner (lowered : ∀ part ∈ parts, part.1.lower workers = .ok part.2.module)
    (first : parts.find? (·.1.owns sym) = some finder) :
    ∃ body, finder.2.module.function? sym = some body ∧
      (parts.map (·.2)).findSome? (fun linked => (linked.publicDefinition? sym).map (linked, ·)) =
        some (finder.2, body) := by
  induction parts with
  | nil => contradiction
  | cons part rest ih =>
    obtain ⟨here, later⟩ := forall_mem_cons.mp lowered
    rw [find?_cons] at first
    rw [map_cons, findSome?_cons]
    cases owns : part.1.owns sym with
    | true =>
      rw [owns] at first
      cases first
      obtain ⟨body, found, -, public_⟩ :=
        Machine.Linked.definition?_of_hasBody ((lower_bodies here).1 (contains_iff_mem.mp owns))
      rw [public_]
      exact ⟨body, found, rfl⟩
    | false =>
      rw [owns] at first
      obtain ⟨-, none⟩ := Machine.Linked.definition?_eq_none
        ((lower_bodies here).2 (by simpa [Program.owns] using owns))
      rw [none]
      exact ih later first

theorem definition?_owner (lowered : ∀ part ∈ parts, part.1.lower workers = .ok part.2.module)
    (mem : home ∈ parts) (first : owner? parts home sym = some finder) :
    ∃ body, finder.2.module.function? sym = some body ∧
      (imageOf parts).definition? home.2 sym = some (finder.2, body) := by
  have here := lowered home mem
  rw [owner?, find?_cons] at first
  unfold Machine.Image.definition?
  cases owns : home.1.owns sym with
  | true =>
    rw [owns] at first
    cases first
    obtain ⟨body, found, own, -⟩ :=
      Machine.Linked.definition?_of_hasBody ((lower_bodies here).1 (contains_iff_mem.mp owns))
    rw [own]
    exact ⟨body, found, rfl⟩
  | false =>
    rw [owns] at first
    obtain ⟨none, -⟩ := Machine.Linked.definition?_eq_none
      ((lower_bodies here).2 (by simpa [Program.owns] using owns))
    rw [none]
    exact find?_owner lowered first

end

namespace Session
open Lowering

/-- What a run of a file executes: the file and everything it links against, lowered and put into
memory. -/
def Links (session : Session) (path : Path) (parts : List Part) : Prop :=
  ∃ idx after linked memory, (load path).run.run session = (.ok idx, after) ∧
    after.cache.closure idx = .ok linked ∧
    Forall₂ (fun place part => after.cache.program place = .ok part.1 ∧
      part.1.lower after.config.workers = .ok part.2.module) (idx :: linked.map (·.index)) parts ∧
    Machine.load (parts.map (·.2.module)) = .ok (imageOf parts, memory)

variable {session after : Session} {path : Path} {idx : Nat} {parts : List Part}

theorem run_load (session : Session) (path : Path) : (load path).run.run session =
    (((Load.path (session.disk.sources session.config.libraryDir) session.config.build path).run.run
      session.cache).1,
      { session with
        cache := ((Load.path (session.disk.sources session.config.libraryDir) session.config.build
          path).run.run session.cache).2 }) :=
  rfl

theorem load_finished (reached : session.cache.Reached)
    (loads : (load path).run.run session = (.ok idx, after)) :
    after.cache.Reached ∧ ∃ entry, after.cache.get? idx = some entry ∧ entry.isReady := by
  have leaves := Load.path_keeps (Load.maintains_loaded
    (session.disk.sources session.config.libraryDir)) session.config.build path
    (Cache.sound_iff_keeps.mp reached.sound)
  rw [run_load, Prod.mk.injEq] at loads
  obtain ⟨res, rfl⟩ := loads
  obtain ⟨file, -, entry, there, holds⟩ := leaves.2 idx res
  exact ⟨.load _ _ _ reached, entry, there, holds.isReady⟩

theorem run_bind {α β : Type} {work : Act α} {next : α → Act β} {val : α}
    (runs : work.run.run session = (.ok val, after)) :
    (work >>= next).run.run session = (next val).run.run after := by
  rw [ExceptT.run_bind, StateT.run_bind, runs]
  rfl

theorem run_lower {prog : Program} {mod : Ir.Module} (given : session.cache.program idx = .ok prog)
    (lowers : prog.lower session.config.workers = .ok mod) :
    (lower idx).run.run session = (.ok mod, session) := by
  have reads : (Session.program idx).run.run session = (session.cache.program idx, session) := rfl
  rw [given] at reads
  rw [lower, run_bind reads]
  change (prog.lower session.config.workers, session) = _
  rw [lowers]

theorem run_lowerAll {linked : List Cache.Linked} {parts : List Part}
    (lowered : Forall₂ (fun place (part : Part) => session.cache.program place = .ok part.1 ∧
      part.1.lower session.config.workers = .ok part.2.module) (linked.map (·.index)) parts) :
    (linked.mapM (lower ·.index)).run.run session = (.ok (parts.map (·.2.module)), session) := by
  induction linked generalizing parts with
  | nil =>
    cases lowered
    rfl
  | cons item rest ih =>
    cases lowered with
    | cons first later =>
      rw [mapM_cons, run_bind (run_lower first.1 first.2), run_bind (ih later)]
      rfl

theorem Links.parts_loaded (reached : session.cache.Reached) (links : session.Links path parts) :
    ∃ (cache : Cache) (workers : Nat), cache.Sound ∧
      ∀ part ∈ parts, part.1.lower workers = .ok part.2.module ∧
      part.1.Loaded cache ∧ ∀ file, part.1.Covers file →
        ∃ other ∈ parts, other.IsOf cache file := by
  obtain ⟨idx, after, linked, memory, loads, closes, lowered, -⟩ := links
  obtain ⟨later, root, there, ready⟩ := load_finished reached loads
  have sound := later.sound
  obtain ⟨-, loaded⟩ := sound.ready root (mem_of_getElem? there) ready
  cases closes.symm.trans (Cache.closure_eq later there ready).1
  have places : ∀ place ∈ idx :: (root.program.dependencies.map after.cache.linked).map (·.index),
      ∃ entry, after.cache.get? place = some entry ∧ entry.isReady ∧
        ∀ inner ∈ entry.program.dependencies, root.program.Covers inner.file := by
    refine forall_mem_cons.mpr ⟨⟨root, there, ready, fun inner mem => ⟨inner, mem, Path.same_refl _⟩⟩, ?_⟩
    rw [map_map, forall_mem_map]
    intro dep mem
    obtain ⟨entry, holds, inner⟩ := loaded.dependencies dep mem
    exact ⟨entry, (Cache.get?_linked sound holds).2, holds.isReady, inner⟩
  refine ⟨after.cache, after.config.workers, sound, fun part mem => ?_⟩
  obtain ⟨place, here, given, lowers⟩ := exists_of_forall₂ lowered.flip _ mem
  obtain ⟨entry, found, finished, inner⟩ := places place here
  rw [Cache.program, found] at given
  have same : entry.program = part.1 := Except.ok.inj given
  refine ⟨lowers, same ▸ (sound.ready entry (mem_of_getElem? found) finished).2, ?_⟩
  rw [← same]
  rintro file ⟨dep, known, same⟩
  obtain ⟨direct, mem, alike⟩ := (inner dep known).of_same same
  obtain ⟨target, holds, -⟩ := loaded.dependencies direct mem
  obtain ⟨other, mem, given, -⟩ :=
    exists_of_forall₂ lowered _ (mem_cons_of_mem _ (mem_map_of_mem (mem_map_of_mem mem)))
  rw [Cache.program, (Cache.get?_linked sound holds).2] at given
  exact ⟨other, mem, target, ⟨holds.mem, holds.isReady, Path.same_trans holds.file alike⟩, Except.ok.inj given⟩

theorem Links.run_eq (links : session.Links path parts) :
    ∃ main others after, parts.map (·.2.module) = main :: others ∧
      (run path).run.run session =
        ((Machine.execute main others entrySymbol session.limits).mapError .execution, after) := by
  obtain ⟨idx, after, linked, memory, loads, closes, lowered, -⟩ := links
  cases lowered with
  | @cons _ main _ others first rest =>
    refine ⟨main.2.module, others.map (·.2.module), after, rfl, ?_⟩
    have limits : after.limits = session.limits := by
      rw [run_load, Prod.mk.injEq] at loads
      rw [← loads.2]
    have closed : (closure idx).run.run after = (.ok linked, after) := by
      change (after.cache.closure idx, after) = _
      rw [closes]
    have got : (get : Act Session).run.run after = (.ok after, after) := rfl
    rw [run, run_bind loads, run_bind (run_lower first.1 first.2), run_bind closed, run_bind (run_lowerAll rest),
      run_bind got, ← limits]
    cases Machine.execute main.2.module (others.map (·.2.module)) entrySymbol after.limits with
    | ok outcome => rfl
    | error fault => rfl

variable {linked : List Machine.Linked}

theorem modules_loadModules (loads : Machine.loadModules modules memory = .ok (linked, memory')) :
    linked.map (·.module) = modules := by
  induction modules generalizing memory linked memory' with
  | nil =>
    cases loads
    rfl
  | cons mod rest ih =>
    simp only [Machine.loadModules, Success.bind_ok, Success.pure_ok] at loads
    obtain ⟨⟨globals, between⟩, -, ⟨later, final⟩, others, same⟩ := loads
    cases same
    exact congrArg (mod :: ·) (ih others)

def lowered? (cache : Cache) (workers place : Nat) : Option (Program × Ir.Module) := do
  let prog ← (cache.program place).toOption
  let mod ← (prog.lower workers).toOption
  return (prog, mod)

def parts? (session : Session) (path : Path) : Option (List Part) := do
  let after := ((load path).run.run session).2
  let idx ← ((load path).run.run session).1.toOption
  let linked ← (after.cache.closure idx).toOption
  let units ← (idx :: linked.map (·.index)).mapM (lowered? after.cache after.config.workers)
  let loaded ← (Machine.load (units.map (·.2))).toOption
  return (units.map (·.1)).zip loaded.1.modules

theorem lowered?_units (lowered : places.mapM (lowered? cache workers) = some units)
    (same : linked.map (·.module) = units.map (·.2)) :
    Forall₂ (fun place (part : Part) => cache.program place = .ok part.1 ∧
      part.1.lower workers = .ok part.2.module)
      places ((units.map (·.1)).zip linked) ∧
        ((units.map (·.1)).zip linked).map (·.2) = linked := by
  induction places generalizing units linked with
  | nil =>
    cases lowered
    cases map_eq_nil_iff.mp same
    exact ⟨.nil, rfl⟩
  | cons place rest ih =>
    simp only [mapM_cons, Option.bind_eq_bind, Option.bind_eq_some_iff, Option.pure_def, Option.some.injEq] at lowered
    obtain ⟨unit, here, others, later, rfl⟩ := lowered
    obtain ⟨first, linked, rfl, mod, alike⟩ := map_eq_cons_iff.mp same
    simp only [lowered?, Option.bind_eq_bind, Option.bind_eq_some_iff, Option.pure_def, Option.some.injEq] at here
    obtain ⟨prog, given, lowers, made, rfl⟩ := here
    obtain ⟨all, kept⟩ := ih later alike
    refine ⟨.cons ⟨Success.ok_of_toOption given, ?_⟩ all, congrArg (first :: ·) kept⟩
    rw [mod]
    exact Success.ok_of_toOption made

theorem links_of_parts? (given : parts? session path = some parts) : session.Links path parts := by
  simp only [parts?, Option.bind_eq_bind, Option.bind_eq_some_iff, Option.pure_def, Option.some.injEq] at given
  obtain ⟨idx, loads, linked, closes, units, lowered, ⟨image, memory⟩, loaded, rfl⟩ := given
  have placed := Success.ok_of_toOption loaded
  have same : image.modules.map (·.module) = units.map (·.2) := by
    simp only [Machine.load, Success.bind_ok, Success.pure_ok] at placed
    obtain ⟨⟨modules, memory⟩, placed, made⟩ := placed
    cases made
    exact modules_loadModules placed
  obtain ⟨all, kept⟩ := lowered?_units lowered same
  refine ⟨idx, _, linked, memory, Prod.ext (Success.ok_of_toOption loads) rfl, Success.ok_of_toOption closes, all, ?_⟩
  have whole : ((units.map (·.1)).zip image.modules).map (·.2.module) = units.map (·.2) := by
    rw [← same]
    conv_rhs => rw [← kept]
    rw [map_map]
    rfl
  rw [whole, placed, imageOf, kept]

/-- The function that a part has imported, in the part it comes from. A body is found for its
symbol, in the first part that has one; if that is the part it comes from, and no other function
there has the symbol, it is the function, lowered. -/
structure Resolves (parts : List Part) (home : Part) (ext : External) (src : Part)
    (fn : Function) : Prop where
  file : src.1.file.same ext.origin
  mem : fn ∈ src.1.functions
  isPublic : fn.isPublic
  name : fn.name = ext.name
  params : fn.paramTypes = ext.params
  found : ∃ finder body, owner? parts home (ofExternal ext).symbol = some finder ∧
    (imageOf parts).definition? home.2 (ofExternal ext).symbol = some (finder.2, body)
  origin : owner? parts home (ofExternal ext).symbol = some src →
    (ownSymbols (allFunctions src.1)).count (ofExternal ext).symbol = 1 →
    ∃ body, (imageOf parts).definition? home.2 (ofExternal ext).symbol = some (src.2, body) ∧
      src.2.module.function? (ofExternal ext).symbol = some body ∧
      Defines src.1 src.2.module fn none

/-- The image is what a run executes, and the file that an imported function comes from is always in
it. -/
theorem imports_resolve (reached : session.cache.Reached) (links : session.Links path parts) :
    (∃ main others after, parts.map (·.2.module) = main :: others ∧
      (run path).run.run session =
        ((Machine.execute main others entrySymbol session.limits).mapError .execution, after)) ∧
    ∀ home ∈ parts, ∀ ext ∈ home.1.externals, ext.isMangled →
      ∃ src ∈ parts, ∃ fn, Resolves parts home ext src fn := by
  refine ⟨links.run_eq, fun home mem ext known mangled => ?_⟩
  obtain ⟨cache, workers, sound, each⟩ := links.parts_loaded reached
  have lowered (part : Part) (mem : part ∈ parts) := (each part mem).1
  obtain ⟨-, loaded, covered⟩ := each home mem
  obtain ⟨covers, entry, holds, fn, there, exported, named, typed⟩ := loaded.imports ext known mangled
  obtain ⟨src, linked, other, at_, same⟩ := covered ext.origin covers
  cases sound.holds_unique holds at_
  obtain ⟨file, origin⟩ := sound.ready entry holds.mem holds.isReady
  have own := (origin.functions fn there).isExternal
  rw [same] at there file
  have sym : (Signature.ofExternal ext).symbol = symbolOf (fn, none) := by
    simp only [Signature.ofExternal, symbolOf, Signature.ofFunction, mangled, if_true, named, typed]
  have listed : (fn, none) ∈ allFunctions src.1 := mem_append_left _ (mem_map_of_mem there)
  have owns : src.1.owns (Signature.ofExternal ext).symbol := by
    rw [sym, Program.owns, contains_iff_mem]
    exact mem_map_of_mem (mem_filter.mpr ⟨listed, by simp [own]⟩)
  refine ⟨src, linked, fn, ?_, there, exported, named, typed, ?_, ?_⟩
  · rw [file]
    exact holds.file
  · have some : (owner? parts home (Signature.ofExternal ext).symbol).isSome :=
      find?_isSome.mpr ⟨src, mem_cons_of_mem _ linked, owns⟩
    obtain ⟨finder, first⟩ := Option.isSome_iff_exists.mp some
    obtain ⟨body, -, found⟩ := definition?_owner lowered mem first
    exact ⟨finder, body, first, found⟩
  · intro first once
    obtain ⟨body, given, found⟩ := definition?_owner lowered mem first
    exact ⟨body, found, given, lower_defines_once (lowered src linked) listed own (sym ▸ once)⟩

def ofFiles (files : List (String × String)) : Session where
  config := { build := { optimization := ⟨0, Nat.zero_lt_succ 3⟩ } }
  disk := files.foldl (fun disk entry => disk.put [entry.1] entry.2.toUTF8) {}

/-- Only one of the imported files has something called `helper`. -/
def apart : Session := ofFiles [
  ("main.tern", "import \"b.tern\"\nimport \"c.tern\"\ndef main() int \x7b\n return helper(1)\n\x7d\n"),
  ("b.tern", "def other(x int) int \x7b\n return 1\n\x7d\n"),
  ("c.tern", "public def helper(x int) int \x7b\n return 2\n\x7d\n")]

theorem helper_resolves : ∃ parts, apart.Links ⟨"main.tern"⟩ parts ∧
    (∃ home ∈ parts, ∃ ext ∈ home.1.externals, ext.isMangled ∧
      ∃ src, owner? parts home (Signature.ofExternal ext).symbol = some src ∧
        src.1.file.same ext.origin ∧
        (ownSymbols (allFunctions src.1)).count (Signature.ofExternal ext).symbol = 1) ∧
    ∀ home ∈ parts, ∀ ext ∈ home.1.externals, ext.isMangled →
      ∃ src ∈ parts, ∃ fn, Resolves parts home ext src fn := by
  have known : ∃ parts, parts? apart ⟨"main.tern"⟩ = some parts ∧
      ∃ home ∈ parts, ∃ ext ∈ home.1.externals, ext.isMangled ∧
      ∃ src, owner? parts home (Signature.ofExternal ext).symbol = some src ∧ src.1.file.same ext.origin ∧
        (ownSymbols (allFunctions src.1)).count (Signature.ofExternal ext).symbol = 1 := by decide +kernel
  obtain ⟨parts, given, imports⟩ := known
  have links := links_of_parts? given
  exact ⟨parts, links, imports, (imports_resolve .empty links).2⟩

/-- Two files that call something `helper`, of which one is for everybody. -/
def clashing : Session := ofFiles [
  ("main.tern", "import \"b.tern\"\nimport \"c.tern\"\ndef main() int \x7b\n return helper(1)\n\x7d\n"),
  ("b.tern", "def helper(x int) int \x7b\n return 1\n\x7d\n"),
  ("c.tern", "public def helper(x int) int \x7b\n return 2\n\x7d\n")]

/-- Some imported function is found to be another one than in the file it comes from. -/
def Strays (parts : List Part) : Prop :=
  ∃ home ∈ parts, ∃ ext ∈ home.1.externals, ext.isMangled ∧ ∃ src ∈ parts, src.1.file.same ext.origin ∧
    ((imageOf parts).definition? home.2 (ofExternal ext).symbol).map (·.2) ≠
      src.2.module.function? (ofExternal ext).symbol

instance (parts : List Part) : Decidable (Strays parts) :=
  inferInstanceAs (Decidable (∃ home ∈ parts, ∃ ext ∈ home.1.externals, _ ∧ ∃ src ∈ parts, _ ∧ _))

/-- The file that is linked first takes the symbol with a function that nobody can import. -/
theorem private_function_taken :
    ((run ⟨"main.tern"⟩).run.run clashing).1.toOption.map (·.exitCode) = some 1 ∧
    ∃ parts, clashing.Links ⟨"main.tern"⟩ parts ∧ Strays parts := by
  refine ⟨by decide +kernel, ?_⟩
  have strays : ∃ parts, parts? clashing ⟨"main.tern"⟩ = some parts ∧ Strays parts := by decide +kernel
  obtain ⟨parts, given, strays⟩ := strays
  exact ⟨parts, links_of_parts? given, strays⟩

end Session
end TernLang
