import TernLang.Proofs.Session.Following
import TernLang.Proofs.Session.Transparency

/-! What a program links against. Dependencies are collected while files are loaded: a merge passes
on those of the imported program, and the imported file is added to them. So a finished program has
every file below its own, once. -/
namespace TernLang

open List

namespace Program
variable {prog other merged : Program} {file : Path} {isPublic : Bool} {srcs : Sources}
  {done done' : Path → Prop}

/-- Everything that a program links against is below its file, and some files are among it. -/
structure Tracks (srcs : Sources) (done : Path → Prop) (prog : Program) : Prop where
  reached : ∀ dep ∈ prog.dependencies, Relation.TransGen srcs.Imports prog.file dep.file
  covered : ∀ file, done file → prog.Covers file

theorem Tracks.mono (tracks : prog.Tracks srcs done) (fewer : ∀ file, done' file → done file) :
    prog.Tracks srcs done' :=
  { tracks with covered := fun file mem => tracks.covered file (fewer file mem) }

theorem Tracks.merge (tracks : prog.Tracks srcs done) (others : other.Tracks srcs done')
    (imports : srcs.Imports prog.file other.file)
    (merges : prog.merge other isPublic = (.ok (), merged)) (cfg : BuildConfig)
    (isPlaceholder : Bool) :
    (merged.addDependency ⟨other.file, cfg, isPlaceholder⟩).Tracks srcs fun file => done file ∨
      file = other.file := by
  obtain ⟨spreads, -⟩ := merge_spreads merges
  have grows := merge_grows prog other isPublic
  rw [merges] at grows
  obtain ⟨known, here, kept⟩ := merged.dependencies_addDependency ⟨other.file, cfg, isPlaceholder⟩
  have named : (merged.addDependency ⟨other.file, cfg, isPlaceholder⟩).file = prog.file := grows.file
  refine ⟨fun dep mem => ?_, fun file mem => ?_⟩
  · rw [named]
    rcases known dep mem with mem | rfl
    · rcases spreads.known dep mem with mem | mem
      · exact tracks.reached dep mem
      · exact .head imports (others.reached dep mem)
    · exact .single imports
  · rcases mem with mem | rfl
    · exact kept file (spreads.kept file (tracks.covered file mem))
    · exact here

end Program

/-! Loading. -/

namespace Load
variable {srcs : Sources} {files : List Path} {name : Path → Prop}
  {open_ : Cache → List Path → Program → Prop} {part : Cache → Program → Prop} {file : Path}
  {cache : Cache} {entry : Cache.Entry}

theorem history_keeps (maintains : Maintains srcs name open_ part) (cfg : BuildConfig)
    (paths : List Path) :
    (history srcs cfg paths).Keeps name part := by
  induction paths using reverseRecOn with
  | nil => exact ⟨.nil, forall_mem_nil _, forall_mem_nil _⟩
  | append_singleton paths path ih =>
    rw [history_concat]
    exact (path_keeps maintains cfg path ih).1.keeps

theorem history_reached (srcs : Sources) (cfg : BuildConfig) (paths : List Path) :
    (history srcs cfg paths).Reached := by
  induction paths using reverseRecOn with
  | nil => exact .empty
  | append_singleton paths path ih =>
    rw [history_concat]
    exact .load srcs cfg path ih

theorem maintains_tracks (finite : srcs.Finite files) :
    Maintains srcs srcs.Names (fun _ done prog => prog.Tracks srcs (· ∈ done))
      fun _ prog => prog.Tracks srcs (srcs.Imports prog.file) where
  entered path _ leads := .inl ⟨path, leads⟩
  found directory request _ found := .inr ⟨directory, request, found⟩
  mono _ _ _ _ tracks _ := tracks
  stays _ _ _ tracks _ := tracks
  fresh _ _ prog reads := by
    have none : prog.dependencies = [] := (Sources.fresh_of_program reads).dependencies
    constructor
    · rw [none]
      exact forall_mem_nil _
    · exact forall_mem_nil _
  merge _ done prog file entry isPublic merged cfg isPlaceholder tracks imports admitted holds known
    named others merges := by
    obtain rfl := named.trans (finite.single entry.file file known admitted holds.file)
    apply (tracks.merge others imports merges cfg isPlaceholder).mono
    intro other mem
    exact (mem_append.mp mem).imp_right mem_singleton.mp
  finish _ _ _ tracks all := tracks.mono all

theorem names_of_transGen (below : Relation.TransGen srcs.Imports file other) :
    srcs.Names other := by
  cases below with
  | single imports => exact imports.names
  | tail _ imports => exact imports.names

theorem covers_iff (finite : srcs.Finite files) (sound : cache.Sound)
    (keeps : cache.Keeps srcs.Names fun _ prog => prog.Tracks srcs (srcs.Imports prog.file))
    (mem : entry ∈ cache.entries) (ready : entry.isReady) :
    file ∈ entry.program.dependencies.map (·.file) ↔
      Relation.TransGen srcs.Imports entry.file file := by
  obtain ⟨named, tracks⟩ := keeps.ready entry mem ready
  obtain ⟨-, loaded⟩ := sound.ready entry mem ready
  have reached := tracks.reached
  rw [named] at reached
  constructor
  · intro listed
    obtain ⟨dep, mem, rfl⟩ := mem_map.mp listed
    exact reached dep mem
  · intro below
    suffices covers : entry.program.Covers file by
      obtain ⟨dep, mem, same⟩ := covers
      rw [← finite.single _ _ (names_of_transGen (reached dep mem)) (names_of_transGen below) same]
      exact mem_map_of_mem mem
    induction below with
    | single imports => exact tracks.covered _ (named ▸ imports)
    | tail above imports ih =>
      obtain ⟨dep, mem, same⟩ := ih
      obtain ⟨other, holds, inner⟩ := loaded.dependencies dep mem
      have alike := finite.single _ _ (keeps.named other holds.mem) (names_of_transGen above)
        (Path.same_trans holds.file same)
      obtain ⟨itself, others⟩ := keeps.ready other holds.mem holds.isReady
      rw [← alike, ← itself] at imports
      obtain ⟨below, mem, here⟩ := others.covered _ imports
      exact (inner below mem).of_same here

/-- The closure of a finished program has every file that is below its own, once, with its finished
entry; and only failures leave entries unfinished. -/
theorem closure_exact (finite : srcs.Finite files) (cfg : BuildConfig) (paths : List Path) :
    let cache := history srcs cfg paths
    (∀ idx entry, cache.get? idx = some entry → entry.isReady → ∃ linked, cache.closure idx = .ok linked ∧
      Relation.ReflTransGen cache.Visit ([], [idx]) (linked, []) ∧
      (linked.map (·.dependency.file)).Nodup ∧ entry.file ∉ linked.map (·.dependency.file) ∧
      (∀ file, file ∈ linked.map (·.dependency.file) ↔ Relation.TransGen srcs.Imports entry.file file) ∧
      ∀ item ∈ linked, ∃ other, cache.get? item.index = some other ∧ other.isReady ∧
      other.file = item.dependency.file ∧
        other.program.file = other.file) ∧
    ((∀ before path later, paths = before ++ path :: later →
        ((Load.path srcs cfg path).run.run (history srcs cfg before)).1.isOk) →
      ∀ entry ∈ cache.entries, entry.isReady) := by
  intro cache
  have reached : cache.Reached := history_reached srcs cfg paths
  have sound := reached.sound
  have keeps := history_keeps (maintains_tracks finite) cfg paths
  have tidy := (history_orderly finite cfg paths).tidy
  refine ⟨fun idx entry there ready => ?_, fun succeed entry mem => ?_⟩
  · have mem : entry ∈ cache.entries := mem_of_getElem? there
    obtain ⟨named, tracks⟩ := keeps.ready entry mem ready
    obtain ⟨-, loaded⟩ := sound.ready entry mem ready
    obtain ⟨closes, ends⟩ := Cache.closure_eq reached there ready
    have exact_ (file : Path) : file ∈ entry.program.dependencies.map (·.file) ↔
        Relation.TransGen srcs.Imports entry.file file :=
      covers_iff finite sound keeps mem ready
    have files : (entry.program.dependencies.map cache.linked).map (·.dependency.file) =
        entry.program.dependencies.map (·.file) :=
      map_map ..
    rw [← files] at exact_
    refine ⟨_, closes, ends, ?_, ?_, exact_, ?_⟩
    · rw [files]
      obtain ⟨-, once⟩ := (reached.keeps maintains_linksOnce).ready entry mem ready
      apply Pairwise.map _ _ once
      rintro a b apart same
      rw [same, Path.same_refl] at apart
      contradiction
    · rw [exact_]
      exact (tidy.ready entry mem ready).1.acyclic
    · intro item listed
      obtain ⟨dep, mem, rfl⟩ := mem_map.mp listed
      obtain ⟨other, holds, -⟩ := loaded.dependencies dep mem
      have below := names_of_transGen (tracks.reached dep mem)
      exact ⟨other, (Cache.get?_linked sound holds).2, holds.isReady,
        finite.single _ _ (keeps.named other holds.mem) below holds.file,
        (sound.ready other holds.mem holds.isReady).1⟩
  · have none := unfinished_history finite paths succeed
    by_contra unready
    have left : entry.file ∈ cache.unfinished :=
      Cache.mem_unfinished.mpr ⟨entry, mem, Bool.eq_false_iff.mpr unready, rfl⟩
    rw [none] at left
    contradiction

/-- A file that two others import on several ways, and that a later one finds in the cache. -/
def shared : Disk :=
  Disk.ofFiles [("a.tern", "import b\nimport c"), ("b.tern", "public import d"), ("c.tern", "import d"),
  ("d.tern", ""), ("e.tern", "import c\nimport b")]

theorem shared_finite : (shared.sources none).Finite (shared.nodes.keys.map Disk.pathOf) :=
  Disk.sources_finite none (forall_mem_nil _)

theorem shared_closure_exact :
    let cache := history (shared.sources none) ⟨Fin.last 3, .object⟩ [⟨"a.tern"⟩, ⟨"e.tern"⟩]
    (shared.sources none).Finite (shared.nodes.keys.map Disk.pathOf) ∧
    ∃ linked, cache.closure 4 = .ok linked ∧
      linked.map (fun item => (item.dependency.file, item.dependency.isPlaceholder)) =
        [(⟨"/d.tern"⟩, false), (⟨"/c.tern"⟩, true), (⟨"/b.tern"⟩, true)] ∧
      ∀ file, file ∈ ([⟨"/d.tern"⟩, ⟨"/c.tern"⟩, ⟨"/b.tern"⟩] : List Path) ↔
        Relation.TransGen (shared.sources none).Imports ⟨"/e.tern"⟩ file := by
  intro cache
  have known : (cache.get? 4).map (fun entry => (entry.file, entry.isReady)) = some (⟨"/e.tern"⟩, true) ∧
      ((cache.closure 4).toOption.map fun linked => linked.map fun item =>
        (item.dependency.file, item.dependency.isPlaceholder)) =
        some [(⟨"/d.tern"⟩, false), (⟨"/c.tern"⟩, true), (⟨"/b.tern"⟩, true)] := by decide +kernel
  obtain ⟨there, listed⟩ := known
  obtain ⟨entry, there, is⟩ := Option.map_eq_some_iff.mp there
  obtain ⟨named, ready⟩ := Prod.mk.inj is
  obtain ⟨linked, closes, -, -, -, reached, -⟩ :=
    (closure_exact shared_finite ⟨Fin.last 3, .object⟩ [⟨"a.tern"⟩, ⟨"e.tern"⟩]).1 4 entry there ready
  rw [closes] at listed
  have listed := Option.some.inj listed
  refine ⟨shared_finite, linked, closes, listed, fun file => ?_⟩
  rw [← named, ← reached]
  have files := congrArg (map Prod.fst) listed
  rw [map_map] at files
  exact (congrArg (file ∈ ·) files).symm.to_iff

end Load
end TernLang
