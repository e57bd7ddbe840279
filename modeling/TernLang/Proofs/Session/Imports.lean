import Mathlib.Logic.Relation
import TernLang.Proofs.Program.Expressions
import TernLang.Proofs.Program.Reimport
import TernLang.Proofs.Session.Loading

/-! What a file should be loaded as. The texts of the files give a graph of imports. A file can be
assembled if it can be read, its imports lead to files that can be assembled, and everything merges;
this asks for no order and no cache, and a file below which the graph has a cycle cannot be
assembled. The same program comes from following the imports anew each time, refusing files on the
way and stopping at a depth; how it fails then says what a loader has to report. -/
namespace TernLang

open List

/-- A cause that lies in a file and not in what imports it. -/
def Error.Standalone : Error → Prop
  | .name _ cause => match cause with
    | .circularImport _ => False
    | _ => True
  | .session _ => False
  | _ => True

theorem Error.InText.standalone {cause : Error} (inText : cause.InText) : cause.Standalone := by
  cases cause with
  | name loc cause =>
    cases cause with
    | circularImport file => exact inText
    | _ => trivial
  | session cause => exact inText
  | _ => trivial

namespace Sources

def Names (srcs : Sources) (file : Path) : Prop :=
  (∃ path, srcs.canonical? path = some file) ∨ ∃ directory name, srcs.find? directory name = some file

/-- Everything that can be read has one name in a list, and the bound on the depth leaves room for
all of them. -/
structure Finite (srcs : Sources) (files : List Path) : Prop where
  known : ∀ file, srcs.Names file → (srcs.read? file).isSome → file ∈ files
  enough : files.length ≤ srcs.depth
  single : ∀ file other, srcs.Names file → srcs.Names other → file.same other → file = other

def Reaches (srcs : Sources) : Path → Path → Prop := Relation.ReflTransGen srcs.Imports

/-- Merge what a request imports, once it is supplied. -/
def mergeOne (srcs : Sources) (supply : Path → Location → Except Error Program) (prog : Program)
  (req : ImportRequest) :
    Except Error Program := do
  let loc := prog.location req.line
  match srcs.find? prog.directory req.name with
  | none => throw (.name loc (.unknownModule req.name))
  | some file => do
    let other ← supply file loc
    let (res, merged) := prog.merge other req.isPublic
    res
    return merged

/-- A file can be read, and whatever it imports can be assembled and merges. -/
inductive Assembles (srcs : Sources) : Path → Program → Prop where
  | of {file : Path} {prog res : Program} (given : Path → Program)
    (reads : srcs.program file = .ok prog)
    (each : ∀ imported, srcs.Imports file imported → Assembles srcs imported (given imported))
    (merges : prog.importRequests.foldlM
      (srcs.mergeOne fun imported _ => .ok (given imported)) prog = .ok res) :
    Assembles srcs file res

def Broken (srcs : Sources) (file : Path) : Prop := ∀ prog, ¬ srcs.Assembles file prog

/-- What is said of a file that cannot be imported now. -/
def refusal (file : Path) : Option Location → Error
  | some loc => .name loc (.circularImport file)
  | none => .session (.stillParsing file)

/-- Follow the imports of a file down to some depth. Blocked files are refused, and so is a file on
its own import path. -/
def assemble (srcs : Sources) :
    (depth : Nat) → (blocked : List Path) → (file : Path) → (importedAt : Option Location) → Except Error Program
  | 0, _, file, _ => throw (.session (.tooDeep file))
  | depth + 1, blocked, file, importedAt =>
    if file ∈ blocked then throw (refusal file importedAt)
    else do
      let prog ← srcs.program file
      let supply := fun imported loc => assemble srcs depth (blocked ++ [file]) imported (some loc)
      prog.importRequests.foldlM (srcs.mergeOne supply) prog

/-- From a file, imported at some place, loading may come to another one, imported at some place. -/
inductive Visits (srcs : Sources) (file : Path)
    (importedAt : Option Location) : Path → Option Location → Prop where
  | start : Visits srcs file importedAt file importedAt
  | below {importer imported : Path} {line : Nat} : srcs.Reaches file importer →
    srcs.Imports importer imported →
    Visits srcs file importedAt imported (some ⟨importer, line⟩)

variable {srcs : Sources} {files blocked more : List Path} {file imported other : Path}
  {prog res merged : Program} {depth : Nat} {importedAt : Option Location} {cause : Error}
  {reqs : List ImportRequest} {req : ImportRequest}
  {supply supply' : Path → Location → Except Error Program}

/-! Reading and merging. -/

theorem program_standalone (fails : srcs.program file = .error cause) : cause.Standalone := by
  unfold Sources.program at fails
  split at fails
  · exact (Program.parse_inText fails).standalone
  · cases fails
    trivial

theorem mem_of_program (finite : srcs.Finite files) (names : srcs.Names file)
    (reads : srcs.program file = .ok prog) :
    file ∈ files := by
  apply finite.known file names
  unfold Sources.program at reads
  split at reads
  · next src => rw [src]; rfl
  · contradiction

theorem Imports.names (imports : srcs.Imports file imported) : srcs.Names imported := by
  obtain ⟨prog, -, req, -, found⟩ := imports
  exact .inr ⟨_, _, found⟩

theorem Visits.through (imports : srcs.Imports file imported)
    (visits : srcs.Visits imported (some ⟨file, line⟩) other importedAt') :
    srcs.Visits file importedAt other importedAt' := by
  cases visits with
  | start => exact .below .refl imports
  | below reaches last => exact .below (.head imports reaches) last

inductive Merges (srcs : Sources) (supply : Path → Location → Except Error Program) (prog : Program)
    (req : ImportRequest) :
    Except Error Program → Prop where
  | unknown :
    Merges srcs supply prog req (.error (.name (prog.location req.line) (.unknownModule req.name)))
  | refused {imported : Path} {cause : Error}
    (found : srcs.find? prog.directory req.name = some imported)
    (fails : supply imported (prog.location req.line) = .error cause) :
      Merges srcs supply prog req (.error cause)
  | clash {name : String} {cat : Category} {loc : Location} :
    Merges srcs supply prog req (.error (.name loc (.importClash name cat)))
  | merged {imported : Path} {other merged : Program}
    (found : srcs.find? prog.directory req.name = some imported)
    (given : supply imported (prog.location req.line) = .ok other)
    (merges : prog.merge other req.isPublic = (.ok (), merged)) :
      Merges srcs supply prog req (.ok merged)

theorem mergeOne_merges (srcs : Sources) (supply : Path → Location → Except Error Program)
    (prog : Program) (req : ImportRequest) :
    srcs.Merges supply prog req (srcs.mergeOne supply prog req) := by
  unfold mergeOne
  dsimp only
  split
  · exact .unknown
  · next imported found =>
    cases given : supply imported (prog.location req.line) with
    | error cause => exact .refused found given
    | ok other =>
      have outcome := Program.merge_outcome prog other req.isPublic
      change srcs.Merges supply prog req
        ((prog.merge other req.isPublic).1 >>= fun _ => pure (prog.merge other req.isPublic).2)
      cases merges : prog.merge other req.isPublic with
      | mk res merged =>
        rw [merges] at outcome
        cases outcome with
        | taken => exact .merged found given merges
        | stopped => exact .clash

theorem directory_of_merge {other : Program}
    (merges : prog.merge other isPublic = (.ok (), merged)) :
    merged.file = prog.file ∧ merged.directory = prog.directory := by
  have file := (Program.merge_grows prog other isPublic).file
  rw [merges] at file
  exact ⟨file, congrArg (fun file : Path => file.parent?.getD ⟨"."⟩) file⟩

theorem supplied_of_merges (merges : reqs.foldlM (srcs.mergeOne supply) prog = .ok res) :
    res.file = prog.file ∧ prog.imports ⊆ res.imports ∧
    ∀ req ∈ reqs, ∃ imported loc other, srcs.find? prog.directory req.name = some imported ∧
      supply imported loc = .ok other ∧ ∃ entry ∈ res.imports, entry.file.same other.file := by
  induction reqs generalizing prog with
  | nil =>
    cases merges
    exact ⟨rfl, Subset.refl _, forall_mem_nil _⟩
  | cons req rest ih =>
    rw [foldlM_cons, Success.bind_ok] at merges
    obtain ⟨merged, first, later⟩ := merges
    have step := mergeOne_merges srcs supply prog req
    rw [first] at step
    cases step with
    | @merged imported other _ found given merges =>
      obtain ⟨same, alike⟩ := directory_of_merge merges
      obtain ⟨file, kept, each⟩ := ih later
      have grown : prog.imports ⊆ merged.imports := by
        have retains := Program.merge_retains prog other req.isPublic
        rw [merges] at retains
        exact fun _ => retains.imports.subset
      obtain ⟨entry, mem, itself⟩ := (Program.merge_settles merges).itself
      rw [alike] at each
      exact ⟨file.trans same, Subset.trans grown kept,
        forall_mem_cons.mpr ⟨⟨imported, _, other, found, given, entry, kept mem, itself⟩, each⟩⟩

theorem standalone_or_refused (fails : reqs.foldlM (srcs.mergeOne supply) prog = .error cause) :
    cause.Standalone ∨
      ∃ req ∈ reqs, ∃ imported line, srcs.find? prog.directory req.name = some imported ∧
      supply imported ⟨prog.file, line⟩ = .error cause := by
  induction reqs generalizing prog with
  | nil => contradiction
  | cons req rest ih =>
    rw [foldlM_cons, Success.bind_error] at fails
    have step := mergeOne_merges srcs supply prog req
    rcases fails with first | ⟨merged, first, later⟩
    · rw [first] at step
      cases step with
      | unknown => exact .inl trivial
      | clash => exact .inl trivial
      | refused found fails => exact .inr ⟨req, mem_cons_self, _, _, found, fails⟩
    · rw [first] at step
      cases step with
      | merged found given merges =>
        obtain ⟨same, alike⟩ := directory_of_merge merges
        have rest := ih later
        rw [same, alike] at rest
        exact rest.imp_right fun ⟨req, mem, given⟩ => ⟨req, mem_cons_of_mem _ mem, given⟩

/-- Two supplies merge alike unless one of them refuses some import, which then is the outcome. -/
theorem merges_congr {refused : Error → Prop} (alike : ∀ req ∈ reqs, ∀ imported line,
      srcs.find? prog.directory req.name = some imported →
      supply' imported ⟨prog.file, line⟩ = supply imported ⟨prog.file, line⟩ ∨
        ∃ cause, refused cause ∧ supply' imported ⟨prog.file, line⟩ = .error cause) :
    reqs.foldlM (srcs.mergeOne supply') prog = reqs.foldlM (srcs.mergeOne supply) prog ∨
      ∃ cause, refused cause ∧ reqs.foldlM (srcs.mergeOne supply') prog = .error cause := by
  induction reqs generalizing prog with
  | nil => exact .inl rfl
  | cons req rest ih =>
    obtain ⟨here, later⟩ := forall_mem_cons.mp alike
    rw [foldlM_cons, foldlM_cons]
    have first : srcs.mergeOne supply' prog req = srcs.mergeOne supply prog req ∨
        ∃ cause, refused cause ∧ srcs.mergeOne supply' prog req = .error cause := by
      unfold mergeOne
      dsimp only
      split
      · exact .inl rfl
      · next imported found =>
        rcases here imported req.line found with same | ⟨cause, refused, fails⟩
        · left
          rw [Program.location, same]
        · right
          refine ⟨cause, refused, ?_⟩
          rw [Program.location, fails]
          rfl
    rcases first with same | ⟨cause, refused, fails⟩
    · rw [same]
      have step := mergeOne_merges srcs supply prog req
      revert step
      cases srcs.mergeOne supply prog req with
      | error cause => exact fun _ => .inl rfl
      | ok merged =>
        intro step
        cases step with
        | merged found given merges =>
          obtain ⟨same, alike⟩ := directory_of_merge merges
          apply ih
          rw [same, alike]
          exact later
    · right
      exact ⟨cause, refused, by rw [fails]; rfl⟩

theorem merges_eq (alike : ∀ req ∈ reqs, ∀ imported line, srcs.find? prog.directory req.name =
      some imported → supply' imported ⟨prog.file, line⟩ = supply imported ⟨prog.file, line⟩) :
    reqs.foldlM (srcs.mergeOne supply') prog = reqs.foldlM (srcs.mergeOne supply) prog := by
  have either : reqs.foldlM (srcs.mergeOne supply') prog = reqs.foldlM (srcs.mergeOne supply) prog ∨
      ∃ cause, False ∧ reqs.foldlM (srcs.mergeOne supply') prog = .error cause :=
    merges_congr fun req mem imported line found => .inl (alike req mem imported line found)
  rcases either with same | ⟨_, never, _⟩
  · exact same
  · exact never.elim

/-! Files that can be assembled. -/

namespace Assembles

section
variable (assembles : srcs.Assembles file res)
include assembles

theorem records :
    res.file = file ∧ ∀ imported, srcs.Imports file imported →
      ∃ entry ∈ res.imports, entry.file.same imported := by
  induction assembles with
  | of given reads each merges ih =>
    obtain ⟨same, -, supplied⟩ := supplied_of_merges merges
    refine ⟨same.trans (fresh_of_program reads).named, ?_⟩
    intro imported imports
    obtain ⟨prog, again, req, mem, found⟩ := id imports
    cases again.symm.trans reads
    obtain ⟨found', loc, other, alike, supplied, entry, there, here⟩ := supplied req mem
    cases alike.symm.trans found
    cases supplied
    rw [(ih imported imports).1] at here
    exact ⟨entry, there, here⟩

theorem acyclic : ¬ Relation.TransGen srcs.Imports file file := by
  induction assembles with
  | of given reads each merges ih =>
    intro cycle
    obtain ⟨imported, first, rest⟩ := Relation.TransGen.head'_iff.mp cycle
    exact ih imported first (.tail' rest first)

theorem of_reaches (reaches : srcs.Reaches file other) : ∃ res, srcs.Assembles other res := by
  induction reaches with
  | refl => exact ⟨res, assembles⟩
  | tail _ last ih =>
    obtain ⟨_, given, reads, each, merges⟩ := ih
    exact ⟨_, each _ last⟩

end

end Assembles

theorem Broken.above (broken : srcs.Broken other) (reaches : srcs.Reaches file other) :
    srcs.Broken file := by
  intro prog assembles
  obtain ⟨_, below⟩ := assembles.of_reaches reaches
  exact broken _ below

/-! Following imports. -/

/-- There are fewer files left to follow than the depth. -/
def Room (files : List Path) (depth : Nat) (blocked : List Path) : Prop :=
  (files.filter (· ∉ blocked)).length < depth

theorem Room.step (room : Room files (depth + 1) blocked) (mem : file ∈ files)
    (fresh : file ∉ blocked) :
    Room files depth (blocked ++ [file]) := by
  have fewer : (files.filter (· ∉ blocked ++ [file])).length < (files.filter (· ∉ blocked)).length := by
    have twice : files.filter (· ∉ blocked ++ [file]) = (files.filter (· ∉ blocked)).filter (· ≠ file) := by
      rw [filter_filter]
      apply filter_congr
      intro other _
      simp [and_comm]
    rw [twice]
    apply length_filter_lt_length_iff_exists.mpr
    exact ⟨file, mem_filter.mpr ⟨mem, decide_eq_true fresh⟩, by simp⟩
  exact Nat.lt_of_lt_of_le fewer (Nat.le_of_lt_succ room)

theorem Finite.room (finite : srcs.Finite files) (blocked : List Path) :
    Room files (srcs.depth + 1) blocked :=
  Nat.lt_succ_of_le ((length_filter_le ..).trans finite.enough)

/-- What can be assembled is, in the room there is, unless something below it is blocked. -/
theorem assemble_of_assembles (finite : srcs.Finite files) (assembles : srcs.Assembles file res)
    (names : srcs.Names file) (room : Room files depth blocked)
    (clear : ∀ other, srcs.Reaches file other → other ∉ blocked) (importedAt : Option Location) :
    srcs.assemble depth blocked file importedAt = .ok res := by
  induction assembles generalizing depth blocked importedAt with
  | @of file prog res given reads each merges ih =>
    have acyclic := (Assembles.of given reads each merges).acyclic
    cases depth with
    | zero => exact absurd room (Nat.not_lt_zero _)
    | succ depth =>
      have fresh : file ∉ blocked := clear file .refl
      have room := room.step (mem_of_program finite names reads) fresh
      simp only [assemble, if_neg fresh, reads]
      refine Eq.trans (merges_eq ?_) merges
      intro req mem imported line found
      have imports : srcs.Imports file imported := ⟨prog, reads, req, mem, found⟩
      refine ih imported imports imports.names room ?_ _
      intro other reaches blocked
      rcases mem_append.mp blocked with before | last
      · exact clear other (.head imports reaches) before
      · rw [mem_singleton.mp last] at reaches
        exact acyclic (.head' imports reaches)

theorem assemble_anywhere (assembles : srcs.assemble depth blocked file importedAt = .ok res)
    (importedAt' : Option Location) :
    srcs.assemble depth blocked file importedAt' = .ok res := by
  cases depth with
  | zero => contradiction
  | succ depth =>
    unfold assemble at assembles ⊢
    split at assembles
    · contradiction
    · next fresh =>
      rw [if_neg fresh]
      exact assembles

theorem assembles_of_assemble (assembles : srcs.assemble depth blocked file importedAt = .ok res) :
    srcs.Assembles file res := by
  induction depth generalizing blocked file importedAt res with
  | zero => contradiction
  | succ depth ih =>
    unfold assemble at assembles
    split at assembles
    · contradiction
    · rw [Success.bind_ok] at assembles
      obtain ⟨prog, reads, merges⟩ := assembles
      have each (imported : Path) (imports : srcs.Imports file imported) : ∃ other, ∀ loc,
          srcs.assemble depth (blocked ++ [file]) imported (some loc) = .ok other := by
        obtain ⟨prog, again, req, mem, found⟩ := imports
        cases again.symm.trans reads
        obtain ⟨-, -, supplied⟩ := supplied_of_merges merges
        obtain ⟨found', loc, other, alike, given, -⟩ := supplied req mem
        cases alike.symm.trans found
        exact ⟨other, fun _ => assemble_anywhere given _⟩
      have : Nonempty Program := ⟨prog⟩
      choose! given each using each
      refine .of given reads (fun imported imports => ih (each imported imports default)) ?_
      rw [← merges]
      apply merges_eq
      intro req mem imported line found
      exact (each imported ⟨prog, reads, req, mem, found⟩ _).symm

/-- A file that is not assembled is broken if what blocks it is broken, or waits for it. -/
theorem broken_of_assemble (finite : srcs.Finite files) (names : srcs.Names file)
    (room : Room files depth blocked)
    (waiting : ∀ other ∈ blocked, srcs.Broken other ∨ Relation.TransGen srcs.Imports other file)
    (fails : srcs.assemble depth blocked file importedAt = .error cause) : srcs.Broken file := by
  intro res assembles
  have clear (other : Path) (reaches : srcs.Reaches file other) : other ∉ blocked := by
    intro mem
    rcases waiting other mem with broken | above
    · exact broken.above reaches res assembles
    · exact assembles.acyclic (above.trans_right reaches)
  cases fails.symm.trans (assemble_of_assembles finite assembles names room clear importedAt)

/-! How following imports fails. -/

theorem assemble_ne_tooDeep (finite : srcs.Finite files) (names : srcs.Names file)
    (room : Room files depth blocked) (importedAt : Option Location) (other : Path) :
    srcs.assemble depth blocked file importedAt ≠ .error (.session (.tooDeep other)) := by
  induction depth generalizing blocked file importedAt with
  | zero => exact absurd room (Nat.not_lt_zero _)
  | succ depth ih =>
    intro fails
    unfold assemble at fails
    split at fails
    · cases importedAt with
      | none => cases fails
      | some loc => cases fails
    · next fresh =>
      rcases Success.bind_error.mp fails with unread | ⟨prog, reads, fails⟩
      · exact program_standalone unread
      · rcases standalone_or_refused fails with standalone | ⟨req, mem, imported, line, found, fails⟩
        · exact standalone
        · have imports : srcs.Imports file imported := ⟨prog, reads, req, mem, found⟩
          exact ih imports.names (room.step (mem_of_program finite names reads) fresh) _ fails

theorem circular_of_assemble (fails : srcs.assemble depth blocked file importedAt =
      .error (.name loc (.circularImport other))) :
    srcs.Visits file importedAt other (some loc) ∧
      (other ∈ blocked ∨ srcs.Reaches file other ∧ srcs.Reaches other loc.file ∧
        srcs.Imports loc.file other) := by
  induction depth generalizing blocked file importedAt with
  | zero => cases fails
  | succ depth ih =>
    unfold assemble at fails
    split at fails
    · next blocked =>
      cases importedAt with
      | none => cases fails
      | some here =>
        cases fails
        exact ⟨.start, .inl blocked⟩
    · rcases Success.bind_error.mp fails with unread | ⟨prog, reads, fails⟩
      · exact (program_standalone unread).elim
      · rcases standalone_or_refused fails with standalone | ⟨req, mem, imported, line, found, fails⟩
        · exact standalone.elim
        · have imports : srcs.Imports file imported := ⟨prog, reads, req, mem, found⟩
          rw [(fresh_of_program reads).named] at fails
          obtain ⟨visits, reason⟩ := ih fails
          refine ⟨visits.through imports, ?_⟩
          rcases reason with blocked | ⟨reaches, back, last⟩
          · rcases mem_append.mp blocked with before | here
            · exact .inl before
            · -- the file itself is imported again further down
              cases mem_singleton.mp here
              right
              cases visits with
              | start => exact ⟨.refl, .refl, imports⟩
              | below reaches last => exact ⟨.refl, .head imports reaches, last⟩
          · exact .inr ⟨.head imports reaches, back, last⟩

/-- Blocking more files changes nothing, unless one of them is come to and refused. -/
theorem assemble_of_subset (subset : blocked ⊆ more) (importedAt : Option Location) :
    srcs.assemble depth more file importedAt = srcs.assemble depth blocked file importedAt ∨
      ∃ cause, (∃ other ∈ more, other ∉ blocked ∧
        ∃ importedAt', srcs.Visits file importedAt other importedAt' ∧
        cause = refusal other importedAt') ∧
          srcs.assemble depth more file importedAt = .error cause := by
  induction depth generalizing blocked more file importedAt with
  | zero => exact .inl rfl
  | succ depth ih =>
    by_cases refused : file ∈ more
    · rw [assemble, assemble, if_pos refused]
      by_cases same : file ∈ blocked
      · rw [if_pos same]
        exact .inl rfl
      · exact .inr ⟨_, ⟨file, refused, same, importedAt, .start, rfl⟩, rfl⟩
    · rw [assemble, assemble, if_neg refused, if_neg fun mem => refused (subset mem)]
      cases reads : srcs.program file with
      | error cause => exact .inl rfl
      | ok prog =>
        apply merges_congr
        intro req mem imported line found
        have imports : srcs.Imports file imported := ⟨prog, reads, req, mem, found⟩
        have wider : blocked ++ [file] ⊆ more ++ [file] := append_subset.mpr
          ⟨subset_append_of_subset_left _ subset, subset_append_right ..⟩
        refine (ih wider (some ⟨prog.file, line⟩)).imp_right ?_
        rintro ⟨_, ⟨other, mem, fresh, importedAt', visits, rfl⟩, fails⟩
        rw [(fresh_of_program reads).named] at visits
        refine ⟨_, ⟨other, ?_, fun mem => fresh (mem_append_left _ mem), importedAt',
          visits.through imports, rfl⟩, fails⟩
        rcases mem_append.mp mem with mem | here
        · exact mem
        · exact absurd (mem_append_right blocked here) fresh

end Sources
end TernLang
