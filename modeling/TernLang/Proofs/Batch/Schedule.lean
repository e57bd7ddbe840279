import TernLang.Lowering
import TernLang.Proofs.Batch

/-! Batches side by side. Every range is a job with the items of the range and with slots of its own
for their results. Jobs go on in any order, one item a step. However their steps are interleaved,
every slot is written once, and the results are those of work item by item. -/
namespace TernLang

open List

namespace Batch

variable {ε α β : Type}

structure Job (α : Type) where
  /-- The slot of the next result. -/
  slot : Nat
  /-- Slots left to the job. -/
  room : Nat
  inputs : List α

/-- One job a range. Slots are handed out from the front, as many as the range is long. -/
def jobs (items : List α) : (taken : Nat) → List (Nat × Nat) → List (Job α)
  | _, [] => []
  | taken, (first, last) :: rest =>
    ⟨taken, last - first, slice items first last⟩ :: jobs items (taken + (last - first)) rest

structure Pool (ε α β : Type) where
  jobs : List (Job α)
  slots : List (Option (Except ε β))

/-- Why there is no list of results. -/
inductive Failure (ε : Type) where
  | item (cause : ε)
  | unfilled (slot : Nat)

/-- The results in the slots from a number on, up to the first slot without one. -/
def join : (slot : Nat) → List (Option (Except ε β)) → Except (Failure ε) (List β)
  | _, [] => .ok []
  | slot, none :: _ => .error (.unfilled slot)
  | _, some (.error cause) :: _ => .error (.item cause)
  | slot, some (.ok res) :: rest => (join (slot + 1) rest).map (res :: ·)

namespace Pool

/-- All jobs are there and nothing is done. -/
def start (asked : Nat) (items : List α) : Pool ε α β :=
  ⟨Batch.jobs items 0 (ranges items.length asked), replicate items.length none⟩

/-- One of the jobs does its next item. The number is that of the slot written. -/
inductive Step (work : α → Except ε β) : Pool ε α β → Nat → Pool ε α β → Prop where
  | write (before after : List (Job α)) (slot room : Nat) (item : α) (inputs : List α)
      (slots : List (Option (Except ε β))) :
    Step work ⟨before ++ ⟨slot, room + 1, item :: inputs⟩ :: after, slots⟩ slot
      ⟨before ++ ⟨slot + 1, room, inputs⟩ :: after, slots.set slot (some (work item))⟩

/-- An interleaving of steps, with the slots that they write. -/
inductive Steps (work : α → Except ε β) : Pool ε α β → List Nat → Pool ε α β → Prop where
  | none (pool : Pool ε α β) : Steps work pool [] pool
  | next {pool middle final : Pool ε α β} {slot : Nat} {writes : List Nat} :
    Step work pool slot middle →
    Steps work middle writes final → Steps work pool (slot :: writes) final

def Idle (work : α → Except ε β) (pool : Pool ε α β) : Prop :=
  ∀ slot next, ¬ Step work pool slot next

end Pool

def Job.pending (job : Job α) : List Nat := range' job.slot (min job.room job.inputs.length)

/-- The inputs of a job are the items that its slots are for. -/
def Job.Fits (items : List α) (job : Job α) : Prop :=
  ∀ k item, k < job.room → job.inputs[k]? = some item → items[job.slot + k]? = some item

/-- The slots of items when those with some numbers are still to be written. -/
def filled (items : List α) (work : α → Except ε β) (pending : List Nat) :
    List (Option (Except ε β)) :=
  items.mapIdx fun i item => if i ∈ pending then none else some (work item)

section
variable {items : List α} {work : α → Except ε β}

theorem filled_set (there : items[slot]? = some item) (moved : pending.Perm (slot :: later))
    (fresh : slot ∉ later) :
    (filled items work pending).set slot (some (work item)) = filled items work later := by
  obtain ⟨inside, rfl⟩ := List.getElem?_eq_some_iff.mp there
  apply List.ext_getElem?
  intro i
  simp only [filled, List.getElem?_set, List.getElem?_mapIdx, List.length_mapIdx, moved.mem_iff, List.mem_cons]
  by_cases same : slot = i
  · subst same
    simp [inside, fresh]
  · simp [same, Ne.symm same]

theorem filled_range : filled items work (range items.length) = replicate items.length none := by
  apply ext_getElem?
  intro i
  simp only [filled, mem_range, getElem?_mapIdx, getElem?_replicate]
  split
  · next less => simp [less]
  · next none => simp [none]

theorem filled_nil : filled items work [] = (items.map work).map some := by
  apply ext_getElem?
  intro i
  simp [filled, Function.comp_def]

end

namespace Pool

/-- Slots that are still to be written. -/
def pending (pool : Pool ε α β) : List Nat := pool.jobs.flatMap Job.pending

/-- Slots are written for the items they stand for, and those that are not pending are written. -/
structure Sound (items : List α) (work : α → Except ε β) (pool : Pool ε α β) : Prop where
  fits : ∀ job ∈ pool.jobs, job.Fits items
  distinct : pool.pending.Nodup
  slots : pool.slots = filled items work pool.pending

variable {items : List α} {work : α → Except ε β} {pool next final : Pool ε α β} {slot : Nat}
  {writes : List Nat}

/-! What a step does. -/

theorem Step.pending (step : Step work pool slot next) :
    pool.pending.Perm (slot :: next.pending) := by
  cases step with
  | write before after slot room item inputs slots =>
    have here : Job.pending ⟨slot, room + 1, item :: inputs⟩ = slot :: Job.pending ⟨slot + 1, room, inputs⟩ := by
      rw [Job.pending, length_cons, Nat.add_min_add_right]
      rfl
    simp only [Pool.pending, flatMap_append, flatMap_cons, here, cons_append]
    exact perm_middle

theorem Step.sound (step : Step work pool slot next) (sound : pool.Sound items work) :
    next.Sound items work := by
  have moved := step.pending
  obtain ⟨fresh, distinct⟩ := nodup_cons.mp (moved.nodup_iff.mp sound.distinct)
  cases step with
  | write before after slot room item inputs slots =>
    have fits := sound.fits ⟨slot, room + 1, item :: inputs⟩ (by simp)
    have there : items[slot]? = some item := fits 0 item (Nat.succ_pos room) rfl
    refine ⟨fun job mem => ?_, distinct, ?_⟩
    · rcases mem_append.mp mem with mem | mem
      · exact sound.fits job (by simp [mem])
      · rcases mem_cons.mp mem with rfl | mem
        · intro k other less found
          rw [Nat.add_right_comm]
          exact fits (k + 1) other (Nat.succ_lt_succ less) found
        · exact sound.fits job (by simp [mem])
    · have slots := sound.slots
      dsimp only at slots
      rw [slots] at fresh moved ⊢
      exact filled_set there moved fresh

/-! What an interleaving of steps does. -/

theorem Steps.pending (steps : Steps work pool writes final) :
    pool.pending.Perm (writes ++ final.pending) := by
  induction steps with
  | none => exact .refl _
  | next step _ ih => exact step.pending.trans (ih.cons _)

theorem Steps.sound (steps : Steps work pool writes final) (sound : pool.Sound items work) :
    final.Sound items work := by
  induction steps with
  | none => exact sound
  | next step _ ih => exact ih (step.sound sound)

theorem pending_of_idle (idle : pool.Idle work) : pool.pending = [] := by
  refine flatMap_eq_nil_iff.mpr fun job mem => ?_
  obtain ⟨before, after, split⟩ := append_of_mem mem
  obtain ⟨all, slots⟩ := pool
  subst split
  match job with
  | ⟨slot, 0, inputs⟩ => simp [Job.pending]
  | ⟨slot, room, []⟩ => simp [Job.pending]
  | ⟨slot, room + 1, item :: inputs⟩ => exact absurd (.write before after slot room item inputs slots) (idle _ _)

theorem idle_of_pending (none : pool.pending = []) : pool.Idle work := by
  intro slot next step
  have length := step.pending.length_eq
  rw [none] at length
  contradiction

theorem exists_steps (work : α → Except ε β) (pool : Pool ε α β) :
    ∃ writes final, Steps work pool writes final ∧ final.Idle work := by
  induction left : pool.pending.length generalizing pool with
  | zero => exact ⟨[], pool, .none pool, idle_of_pending (length_eq_zero_iff.mp left)⟩
  | succ count ih =>
    by_cases idle : pool.Idle work
    · rw [pending_of_idle idle] at left
      contradiction
    · obtain ⟨slot, next, step⟩ : ∃ slot next, Step work pool slot next := by simpa [Idle] using idle
      have length := step.pending.length_eq
      rw [length_cons] at length
      obtain ⟨writes, final, steps, ends⟩ := ih next (by omega)
      exact ⟨slot :: writes, final, .next step steps, ends⟩

/-! Where jobs start. -/

theorem pending_jobs (follow : Tiles first last tiles) (inside : last ≤ items.length) :
    (Batch.jobs items first tiles).flatMap Job.pending = range' first (last - first) := by
  induction follow with
  | nil => simp [Batch.jobs]
  | @cons first middle last _ filled rest ih =>
    have le := rest.le
    have length : (slice items first middle).length = middle - first := by
      simp only [slice, length_take, length_drop]
      omega
    have here : Job.pending ⟨first, middle - first, slice items first middle⟩ = range' first (middle - first) := by
      rw [Job.pending, length, Nat.min_self]
    rw [Batch.jobs, flatMap_cons, here, show first + (middle - first) = middle by omega, ih inside,
      show last - first = (middle - first) + (last - middle) by omega, ← range'_append_1,
      show first + (middle - first) = middle by omega]

theorem fits_jobs (follow : Tiles first last tiles) :
    ∀ job ∈ Batch.jobs items first tiles, job.Fits items := by
  induction follow with
  | nil => exact forall_mem_nil _
  | @cons first middle last _ filled rest ih =>
    rw [Batch.jobs, show first + (middle - first) = middle by omega]
    refine forall_mem_cons.mpr ⟨fun k item less found => ?_, ih⟩
    rwa [slice, getElem?_take_of_lt less, getElem?_drop] at found

theorem pending_start (asked : Nat) (items : List α) :
    (start asked items : Pool ε α β).pending = range items.length := by
  rw [Pool.pending, start, pending_jobs (tiles_ranges items.length asked) (Nat.le_refl _), range_eq_range',
    Nat.sub_zero]

theorem sound_start (asked : Nat) (items : List α) (work : α → Except ε β) :
    (start asked items).Sound items work where
  fits := fits_jobs (tiles_ranges items.length asked)
  distinct := by
    rw [pending_start]
    exact nodup_range
  slots := by rw [pending_start, filled_range, start]

theorem Sound.slots_of_idle (sound : pool.Sound items work) (idle : pool.Idle work) :
    pool.slots = (items.map work).map some := by
  rw [sound.slots, pending_of_idle idle, filled_nil]

end Pool

/-! Results. -/

theorem join_map_some (slot : Nat) (results : List (Except ε β)) :
    join slot (results.map some) = (collect results).mapError .item := by
  induction results generalizing slot with
  | nil => rfl
  | cons res rest ih =>
    cases res with
    | error cause => rfl
    | ok val =>
      rw [map_cons, join, ih, collect]
      cases collect rest <;> rfl

theorem collect_eq_ok {items : List α} :
    collect (items.map work) = .ok results ↔
      Forall₂ (fun item res => work item = .ok res) items results := by
  refine ⟨collect_ok, fun each => ?_⟩
  induction each with
  | nil => rfl
  | cons here _ ih =>
    rw [map_cons, here, collect, ih]
    rfl

/-- The first item that fails decides. -/
theorem collect_eq_error {items : List α} :
    collect (items.map work) = .error cause ↔ ∃ early item late, items = early ++ item :: late ∧
      work item = .error cause ∧ ∀ other ∈ early, ∃ res, work other = .ok res := by
  constructor
  · intro fails
    induction items with
    | nil => contradiction
    | cons item items ih =>
      rw [map_cons] at fails
      cases here : work item with
      | error found =>
        rw [here] at fails
        cases fails
        exact ⟨[], item, items, rfl, here, forall_mem_nil _⟩
      | ok res =>
        rw [here, collect] at fails
        cases there : collect (items.map work) with
        | ok results =>
          rw [there] at fails
          contradiction
        | error found =>
          rw [there] at fails
          cases fails
          obtain ⟨early, failing, late, rfl, caused, before⟩ := ih there
          exact ⟨item :: early, failing, late, rfl, caused, forall_mem_cons.mpr ⟨⟨res, here⟩, before⟩⟩
  · rintro ⟨early, item, late, rfl, fails, before⟩
    induction early with
    | nil =>
      rw [nil_append, map_cons, fails]
      rfl
    | cons first early ih =>
      obtain ⟨⟨res, here⟩, before⟩ := forall_mem_cons.mp before
      rw [cons_append, map_cons, here, collect, ih before]
      rfl

end Batch

theorem Program.lower_workers (prog : Program) (first second : Nat) :
    prog.lower first = prog.lower second := by
  simp only [Program.lower, Batch.run_eq]

namespace Batch

/-- Every schedule gives what work item by item gives. -/
theorem schedules_agree {ε α β : Type} (asked : Nat) (items : List α) (work : α → Except ε β) :
    (∀ total, (ranges total asked).length ≤ max asked 1 ∧
      (∀ range ∈ ranges total asked, range.1 < range.2) ∧
      (ranges total asked).flatMap (fun range => range' range.1 (range.2 - range.1)) =
        range total) ∧
    (∀ writes pool, Pool.Steps work (.start asked items) writes pool →
      writes.Nodup ∧ writes ⊆ range items.length ∧
      (pool.Idle work → writes.Perm (range items.length) ∧ pool.slots = (items.map work).map some ∧
        join 0 pool.slots = (Batch.run asked items work).mapError .item)) ∧
    (∃ writes pool, Pool.Steps work (.start asked items) writes pool ∧ pool.Idle work) ∧
    (∀ results, Batch.run asked items work = .ok results ↔
      Forall₂ (fun item res => work item = .ok res) items results) ∧
    (∀ cause, Batch.run asked items work = .error cause ↔
      ∃ early item late, items = early ++ item :: late ∧
      work item = .error cause ∧ ∀ other ∈ early, ∃ res, work other = .ok res) ∧
    ∀ (prog : Program) (other : Nat), prog.lower asked = prog.lower other := by
  refine ⟨fun total => ?_, fun writes pool steps => ?_, Pool.exists_steps work _, ?_, ?_, ?_⟩
  · have tiles := tiles_ranges total asked
    refine ⟨length_ranges total asked, tiles.filled, ?_⟩
    rw [tiles.flatMap_range', range_eq_range', Nat.sub_zero]
  · have all : (range items.length).Perm (writes ++ pool.pending) := Pool.pending_start asked items ▸ steps.pending
    refine ⟨(nodup_append.mp (all.nodup_iff.mp nodup_range)).1,
      fun slot mem => all.mem_iff.mpr (mem_append_left _ mem), fun idle => ?_⟩
    rw [Pool.pending_of_idle idle, append_nil] at all
    have slots := (steps.sound (Pool.sound_start asked items work)).slots_of_idle idle
    refine ⟨all.symm, slots, ?_⟩
    rw [slots, join_map_some, run_eq]
  · intro results
    rw [run_eq, collect_eq_ok]
  · intro cause
    rw [run_eq, collect_eq_error]
  · exact fun prog other => prog.lower_workers asked other

def partOf : Nat → Except String Nat
  | 0 => .error "no part"
  | parts => .ok (60 / parts)

/-- The second job is ahead of the first one and fails before it. -/
theorem crossing_agrees :
    ∃ pool, Pool.Steps partOf (.start 2 [3, 0, 5]) [1, 0, 2] pool ∧ pool.Idle partOf ∧
    pool.slots = [some (.ok 20), some (.error "no part"), some (.ok 12)] ∧
    join 0 pool.slots = .error (.item "no part") := by
  have steps : Pool.Steps partOf (.start 2 [3, 0, 5]) [1, 0, 2] _ :=
    .next (.write [⟨0, 1, [3]⟩] [] 1 1 0 [5] _) <|
    .next (.write [] [⟨2, 1, [5]⟩] 0 0 3 [] _) <|
    .next (.write [⟨1, 0, []⟩] [] 2 0 5 [] _) (.none _)
  obtain ⟨-, -, ends⟩ := (schedules_agree 2 [3, 0, 5] partOf).2.1 _ _ steps
  obtain ⟨-, slots, joined⟩ := ends (Pool.idle_of_pending rfl)
  exact ⟨_, steps, Pool.idle_of_pending rfl, slots, joined⟩

end Batch
end TernLang
