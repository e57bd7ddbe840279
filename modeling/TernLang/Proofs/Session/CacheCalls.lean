import Mathlib.Data.List.Induction
import TernLang.Proofs.Session.Loading

/-! A cache under any sequence of calls. Paths with the same components stand for one entry, which
the first of them creates; it keeps its index, and nothing but finishing it changes what it holds.
-/
namespace TernLang.Cache

open List

inductive Call where
  | create (file : Path)
  | get (file : Path)
  | finish (idx : Nat) (program : Program)
  | state (idx : Nat)
  | program (idx : Nat)
  | programs

/-- What comes back; nothing stands for an entry that there is not, or that is not created. -/
inductive Reply where
  | created (idx : Option Nat)
  | found (idx : Option Nat)
  | done
  | state (isReady : Option Bool)
  | program (program : Option Program)
  | programs (ready : List (Nat × Program))

def reply (cache : Cache) : Call → Reply
  | .create file => .created ((cache.create? file).map (·.1))
  | .get file => .found (cache.find? file)
  | .finish _ _ => .done
  | .state idx => .state ((cache.get? idx).map (·.isReady))
  | .program idx => .program ((cache.get? idx).map (·.program))
  | .programs => .programs cache.ready

def next (cache : Cache) : Call → Cache
  | .create file => ((cache.create? file).map (·.2)).getD cache
  | .finish idx prog => cache.finish idx prog
  | _ => cache

variable (calls : List Call)

def after : Cache := calls.foldl next {}

def replies : Cache → List Call → List Reply
  | _, [] => []
  | cache, call :: rest => cache.reply call :: replies (cache.next call) rest

def Reply.isCreation : Reply → Bool
  | .created (some _) => true
  | _ => false

def creations : Nat := (replies {} calls).countP Reply.isCreation

/-- No call has asked for an entry with the components of the path. -/
def Unused (file : Path) : Prop :=
  ∀ other, .create other ∈ calls → other.components ≠ file.components

def finishes (idx : Nat) (calls : List Call) : List Program :=
  calls.filterMap fun
    | .finish place prog => if place = idx then some prog else none
    | _ => none

variable {cache : Cache} {calls before later : List Call} {call : Call} {file other : Path}
  {idx : Nat} {entry : Entry}

/-! One call. -/

theorem create?_of_missing (missing : cache.find? file = none) :
    cache.create? file = some (cache.size, ⟨cache.entries ++ [⟨file, { file }, false⟩]⟩) := by
  rw [create?, missing]
  rfl

theorem create?_of_found (found : cache.find? file = some idx) : cache.create? file = none := by
  rw [create?, found]
  rfl

theorem find?_congr (cache : Cache) (same : other.components = file.components) :
    cache.find? other = cache.find? file := by
  unfold find? Path.same
  rw [same]

theorem find?_finish (cache : Cache) (idx : Nat) (prog : Program) (file : Path) :
    (cache.finish idx prog).find? file = cache.find? file := by
  have files (cache : Cache) : cache.find? file = (cache.entries.map (·.file)).findIdx? (·.same file) := by
    rw [find?, findIdx?_map]
    rfl
  rw [files, files, files_finish]

/-- Only the creation of a path with the same components changes what is found. -/
theorem find?_next (cache : Cache) (call : Call) (file : Path) :
    (∀ idx, cache.find? file = some idx → (cache.next call).find? file = some idx) ∧
    (cache.find? file = none →
      (∀ other, call = .create other → other.components ≠ file.components) →
      (cache.next call).find? file = none) := by
  cases call with
  | create other =>
    cases known : cache.find? other with
    | some place =>
      rw [next, create?_of_found known]
      exact ⟨fun _ => id, fun missing _ => missing⟩
    | none =>
      rw [next, create?_of_missing known]
      change (∀ idx, _ → findIdx? _ (cache.entries ++ _) = _) ∧ (_ → _ → findIdx? _ (cache.entries ++ _) = _)
      rw [findIdx?_append]
      constructor
      · intro idx found
        rw [find?] at found
        rw [found]
        rfl
      · intro missing different
        rw [find?] at missing
        have apart : other.same file = false :=
          Bool.eq_false_iff.mpr fun same => different other rfl (Path.same_iff.mp same)
        rw [missing]
        simp [findIdx?_cons, apart]
  | finish place prog =>
    rw [next, find?_finish]
    exact ⟨fun _ => id, fun missing _ => missing⟩
  | _ => exact ⟨fun _ => id, fun missing _ => missing⟩

theorem next_create (missing : cache.find? file = none)
    (same : other.components = file.components) :
    cache.next (.create other) = ⟨cache.entries ++ [⟨other, { file := other }, false⟩]⟩ := by
  rw [next, create?_of_missing ((cache.find?_congr same).trans missing)]
  rfl

theorem find?_next_create (missing : cache.find? file = none)
    (same : other.components = file.components) :
    (cache.next (.create other)).find? file = some cache.size := by
  rw [next_create missing same, find?, findIdx?_append]
  rw [find?] at missing
  rw [missing]
  simp [findIdx?_cons, Path.same_iff.mpr same, size]

theorem get?_next (there : cache.get? idx = some entry) (other : ∀ prog, call ≠ .finish idx prog) :
    (cache.next call).get? idx = some entry := by
  cases call with
  | create file =>
    cases known : cache.find? file with
    | some place =>
      rw [next, create?_of_found known]
      exact there
    | none =>
      rw [next, create?_of_missing known]
      obtain ⟨inside, -⟩ := List.getElem?_eq_some_iff.mp there
      exact (List.getElem?_append_left inside).trans there
  | finish place prog =>
    have elsewhere : place ≠ idx := by
      rintro rfl
      exact other prog rfl
    rw [next, get?_finish, there, Option.map_some, if_neg elsewhere]
  | _ => exact there

theorem get?_next_finish (there : cache.get? idx = some entry) (prog : Program) :
    (cache.next (.finish idx prog)).get? idx =
      some { entry with program := prog, isReady := true } := by
  rw [next, get?_finish, there, Option.map_some, if_pos rfl]

/-! All calls. -/

theorem after_append (calls later : List Call) :
    after (calls ++ later) = later.foldl next (after calls) := foldl_append

theorem after_concat (calls : List Call) (call : Call) :
    after (calls ++ [call]) = (after calls).next call :=
  foldl_concat ..

theorem replies_concat (cache : Cache) (calls : List Call) (call : Call) :
    replies cache (calls ++ [call]) =
      replies cache calls ++ [(calls.foldl next cache).reply call] := by
  induction calls generalizing cache with
  | nil => rfl
  | cons first rest ih => exact congrArg (cache.reply first :: ·) (ih _)

theorem creations_concat (calls : List Call) (call : Call) :
    creations (calls ++ [call]) =
      creations calls + if ((after calls).reply call).isCreation then 1 else 0 := by
  rw [creations, replies_concat, countP_append, countP_singleton]
  rfl

theorem size_after (calls : List Call) : (after calls).size = creations calls := by
  induction calls using reverseRecOn with
  | nil => rfl
  | append_singleton calls call ih =>
    rw [creations_concat, ← ih, after_concat]
    cases call with
    | create file =>
      cases known : (after calls).find? file with
      | some place =>
        rw [next, reply, create?_of_found known]
        rfl
      | none =>
        rw [next, reply, create?_of_missing known]
        exact length_append
    | finish place prog =>
      rw [next, reply, size, finish, length_modify]
      rfl
    | _ => rfl

theorem Unused.of_append (unused : Unused (before ++ later) file) :
    Unused before file ∧ Unused later file :=
  ⟨fun other mem => unused other (mem_append_left _ mem), fun other mem => unused other (mem_append_right _ mem)⟩

theorem find?_after_eq_none : (after calls).find? file = none ↔ Unused calls file := by
  induction calls using reverseRecOn with
  | nil => exact iff_of_true rfl fun _ mem => nomatch mem
  | append_singleton calls call ih =>
    rw [after_concat]
    obtain ⟨kept, none⟩ := find?_next (after calls) call file
    constructor
    · intro missing
      have before : (after calls).find? file = Option.none := by
        cases found : (after calls).find? file with
        | none => rfl
        | some idx => exact absurd ((kept idx found).symm.trans missing) (by simp)
      intro other mem
      rcases mem_append.mp mem with mem | last
      · exact ih.mp before other mem
      · cases mem_singleton.mp last
        intro same
        rw [find?_next_create before same] at missing
        contradiction
    · intro unused
      obtain ⟨before, last⟩ := unused.of_append
      exact none (ih.mpr before) fun other same => last other (same ▸ mem_singleton_self _)

theorem find?_after (unused : Unused before file) (same : other.components = file.components)
    (later : List Call) :
    (after (before ++ .create file :: later)).find? other = some (creations before) := by
  rw [find?_congr _ same]
  induction later using reverseRecOn with
  | nil =>
    rw [after_concat, find?_next_create (find?_after_eq_none.mpr unused) rfl, size_after]
  | append_singleton later call ih =>
    rw [← cons_append, ← append_assoc, after_concat]
    exact (find?_next _ call file).1 _ ih

theorem finishes_concat (idx : Nat) (calls : List Call) (call : Call) :
    finishes idx (calls ++ [call]) = finishes idx calls ++ finishes idx [call] := filterMap_append

theorem get?_after (unused : Unused before file) (later : List Call) :
    (after (before ++ .create file :: later)).get? (creations before) =
      some ⟨file, (finishes (creations before) later).getLast?.getD { file },
        ! (finishes (creations before) later).isEmpty⟩ := by
  induction later using reverseRecOn with
  | nil =>
    rw [after_concat, next_create (find?_after_eq_none.mpr unused) rfl, ← size_after]
    exact getElem?_concat_length
  | append_singleton later call ih =>
    rw [← cons_append, ← append_assoc, after_concat, finishes_concat]
    by_cases own : ∃ prog, call = .finish (creations before) prog
    · obtain ⟨prog, rfl⟩ := own
      rw [get?_next_finish ih]
      simp [finishes]
    · have other : finishes (creations before) [call] = [] := by
        cases call with
        | finish place prog =>
          have elsewhere : place ≠ creations before := by
            rintro rfl
            exact own ⟨prog, rfl⟩
          simp [finishes, elsewhere]
        | _ => rfl
      rw [other, append_nil]
      exact get?_next ih fun prog same => own ⟨prog, same⟩

theorem exists_creation (inside : idx < creations calls) :
    ∃ before file later, calls = before ++ .create file :: later ∧ Unused before file ∧
      creations before = idx := by
  induction calls using reverseRecOn with
  | nil => exact absurd inside (Nat.not_lt_zero _)
  | append_singleton calls call ih =>
    by_cases early : idx < creations calls
    · obtain ⟨before, file, later, rfl, unused, same⟩ := ih early
      exact ⟨before, file, later ++ [call], by simp, unused, same⟩
    · rw [creations_concat] at inside
      have creates : ((after calls).reply call).isCreation = true := by
        by_contra no
        rw [if_neg no] at inside
        omega
      rw [if_pos creates] at inside
      cases call with
      | create file =>
        refine ⟨calls, file, [], rfl, find?_after_eq_none.mp ?_, by omega⟩
        cases found : (after calls).find? file with
        | none => rfl
        | some place =>
          rw [reply, create?_of_found found] at creates
          contradiction
      | _ => contradiction

/-! Entries that are ready. -/

theorem mem_ready (cache : Cache) (idx : Nat) (prog : Program) :
    (idx, prog) ∈ cache.ready ↔ ∃ entry, cache.get? idx = some entry ∧ entry.isReady ∧
      entry.program = prog := by
  simp only [ready, mem_filterMap, Prod.exists, mem_zipIdx_iff_getElem?]
  constructor
  · rintro ⟨entry, place, there, listed⟩
    split at listed
    · next done =>
      cases listed
      exact ⟨entry, there, done, rfl⟩
    · contradiction
  · rintro ⟨entry, there, done, rfl⟩
    exact ⟨entry, idx, there, if_pos done⟩

theorem ready_ascending (cache : Cache) : (cache.ready.map (·.1)).Pairwise (· < ·) := by
  have places : cache.entries.zipIdx.Pairwise fun a b => a.2 < b.2 := by
    rw [← pairwise_map, zipIdx_map_snd]
    exact pairwise_lt_range'
  rw [ready, pairwise_map, pairwise_filterMap]
  refine places.imp ?_
  rintro ⟨entry, place⟩ ⟨entry', place'⟩ less listed here listed' there
  simp only [Option.ite_none_right_eq_some, Option.some.injEq] at here there
  rw [← here.2, ← there.2]
  exact less

/-- What is true of the cache after some calls. -/
structure Stable (calls : List Call) : Prop where
  /-- A path is refused just if one with its components was given before; an index is the number of
  entries before it. -/
  create : ∀ file,
    (Unused calls file → (after calls).reply (.create file) = .created (some (creations calls))) ∧
    (¬ Unused calls file → (after calls).reply (.create file) = .created none)
  /-- What is found is what the first call with these components created. -/
  get : ∀ before file later, calls = before ++ .create file :: later → Unused before file →
    (after before).reply (.create file) = .created (some (creations before)) ∧
    ∀ other, other.components = file.components →
      (after calls).reply (.get other) = .found (some (creations before))
  missing : ∀ file, Unused calls file → (after calls).reply (.get file) = .found none
  /-- Every index was given once, and the entry holds what it was finished with last. -/
  entries : ∀ idx < creations calls, ∃ before file later, calls = before ++ .create file :: later ∧
    Unused before file ∧
    creations before = idx ∧ (after calls).get? idx =
      some ⟨file, (finishes idx later).getLast?.getD { file }, ! (finishes idx later).isEmpty⟩
  outside : ∀ idx, creations calls ≤ idx → (after calls).get? idx = none
  /-- Only finishing an entry changes it. -/
  kept : ∀ idx entry call, (after calls).get? idx = some entry → (∀ prog, call ≠ .finish idx prog) →
    (after (calls ++ [call])).get? idx = some entry
  finished : ∀ idx entry prog, (after calls).get? idx = some entry →
    (after (calls ++ [.finish idx prog])).get? idx =
      some { entry with program := prog, isReady := true }
  /-- What is ready stays so. -/
  ready : ∀ idx later, (after calls).reply (.state idx) = .state (some true) →
    (after (calls ++ later)).reply (.state idx) = .state (some true)
  /-- The finished programs are listed in the order of their creation. -/
  programs : ∃ listed, (after calls).reply .programs = .programs listed ∧
    (listed.map (·.1)).Pairwise (· < ·) ∧
    ∀ idx prog, (idx, prog) ∈ listed ↔ (after calls).reply (.state idx) = .state (some true) ∧
      (after calls).reply (.program idx) = .program (some prog)

theorem isReady_next (there : cache.get? idx = some entry) (ready : entry.isReady) (call : Call) :
    ∃ entry', (cache.next call).get? idx = some entry' ∧ entry'.isReady := by
  by_cases own : ∃ prog, call = .finish idx prog
  · obtain ⟨prog, rfl⟩ := own
    exact ⟨_, get?_next_finish there prog, rfl⟩
  · exact ⟨entry, get?_next there fun prog same => own ⟨prog, same⟩, ready⟩

theorem reply_state : cache.reply (.state idx) = .state (some true) ↔
    ∃ entry, cache.get? idx = some entry ∧ entry.isReady := by
  simp [reply]

theorem isReady_foldl (calls : List Call) (ready : cache.reply (.state idx) = .state (some true)) :
    (calls.foldl next cache).reply (.state idx) = .state (some true) := by
  induction calls generalizing cache with
  | nil => exact ready
  | cons call rest ih =>
    obtain ⟨entry, there, ready⟩ := reply_state.mp ready
    exact ih (reply_state.mpr (isReady_next there ready call))

/-- Whatever the calls, a path has one entry, with an index and a program that stay. -/
theorem calls_stable (calls : List Call) : Stable calls where
  create file := by
    constructor
    · intro unused
      rw [reply, create?_of_missing (find?_after_eq_none.mpr unused), size_after]
      rfl
    · intro used
      obtain ⟨idx, found⟩ := Option.ne_none_iff_exists'.mp (mt find?_after_eq_none.mp used)
      rw [reply, create?_of_found found]
      rfl
  get before file later same unused := by
    subst same
    constructor
    · rw [reply, create?_of_missing (find?_after_eq_none.mpr unused), size_after]
      rfl
    · intro other same
      rw [reply, find?_after unused same]
  missing file unused := by
    rw [reply, find?_after_eq_none.mpr unused]
  entries idx inside := by
    obtain ⟨before, file, later, rfl, unused, rfl⟩ := exists_creation inside
    exact ⟨before, file, later, rfl, unused, rfl, get?_after unused later⟩
  outside idx outside := by
    rw [← size_after] at outside
    exact getElem?_eq_none outside
  kept idx entry call there other := by
    rw [after_concat]
    exact get?_next there other
  finished idx entry prog there := by
    rw [after_concat]
    exact get?_next_finish there prog
  ready idx later ready := by
    rw [after_append]
    exact isReady_foldl later ready
  programs := by
    refine ⟨_, rfl, ready_ascending _, fun idx prog => ?_⟩
    rw [mem_ready, reply_state]
    constructor
    · rintro ⟨entry, there, ready, rfl⟩
      exact ⟨⟨entry, there, ready⟩, by rw [reply, there]; rfl⟩
    · rintro ⟨⟨entry, there, ready⟩, held⟩
      refine ⟨entry, there, ready, ?_⟩
      rw [reply, there] at held
      simpa using held

-- Slashes and inner dots name nothing, but a leading dot and going back do.
example : replies {} [.create ⟨"/a//b"⟩, .create ⟨"/a/./b/"⟩, .create ⟨"./a"⟩, .create ⟨"a"⟩,
  .create ⟨"/a/../b"⟩, .get ⟨"/a/b/."⟩] =
    [.created (some 0), .created none, .created (some 1), .created (some 2), .created (some 3),
      .found (some 0)] := by rfl

end TernLang.Cache
