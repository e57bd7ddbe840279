import TernLang.Proofs.Lowering.ExprEmission

/-! Statements go from block to block. A block that waits for its terminator is left by exactly
one, so that at the end only the blocks around a function's body wait for theirs. -/
namespace TernLang.Lowering

open List
open Ir (Builder Terminator)
open Success

variable {params : Nat} {ctx : Context} {line : Nat} {s s' s'' : State}

/-- More of the function, which is well built. -/
structure Keeps (params : Nat) (s s' : State) : Prop where
  held : Held params s'
  grows : s.builder.Grows s'.builder
  module : s.module.Extends s'.module

theorem Keeps.trans (first : Keeps params s s') (second : Keeps params s' s'') :
    Keeps params s s'' :=
  ⟨second.held, first.grows.trans second.grows, first.module.trans second.module⟩

/-- A block waits no longer; new ones do, still empty. -/
structure Closes (params block : Nat) (pending : List Nat)
    (s s' : State) : Prop extends Keeps params s s' where
  waiting : ∀ i, s'.builder.Open i ↔ s.builder.Open i ∧ i ≠ block ∨ i ∈ pending
  fresh : ∀ i ∈ pending, i ≠ 0 ∧ s.builder.function.blocks.length ≤ i ∧ s'.builder.Idle i
  others : ∀ i, i ≠ 0 → s.builder.Open i → i ≠ block →
    s'.builder.function.block? i = s.builder.function.block? i
  scope : s'.scope = s.scope

/-- Statements that start in one block and end in another. The first one waits no longer; the
last one waits unless control has left the function. -/
structure Runs (params : Nat) (left : Bool) (s s' : State) : Prop extends Keeps params s s' where
  waiting : ∀ i, s'.builder.Open i ↔
    s.builder.Open i ∧ i ≠ s.builder.current ∨ left = false ∧ i = s'.builder.current
  inside : s'.builder.current ≠ 0
  apart : ∀ i, s.builder.Open i → i ≠ s.builder.current → i ≠ s'.builder.current
  others : ∀ i, i ≠ 0 → s.builder.Open i → i ≠ s.builder.current →
    s'.builder.function.block? i = s.builder.function.block? i
  outer : s'.scope.outer = s.scope.outer

theorem Runs.ready (runs : Runs params false s s') : Ready params s' :=
  ⟨runs.held, (runs.waiting _).mpr (.inr ⟨rfl, rfl⟩), runs.inside⟩

theorem Runs.trans (first : Runs params false s s') (second : Runs params left s' s'') :
    Runs params left s s'' where
  toKeeps := first.toKeeps.trans second.toKeeps
  waiting i := by
    rw [second.waiting, first.waiting]
    have apart := first.apart i
    grind
  inside := second.inside
  apart i waits ne := second.apart i ((first.waiting i).mpr (.inl ⟨waits, ne⟩)) (first.apart i waits ne)
  others i inner waits ne :=
    (second.others i inner ((first.waiting i).mpr (.inl ⟨waits, ne⟩)) (first.apart i waits ne)).trans
      (first.others i inner waits ne)
  outer := second.outer.trans first.outer

theorem Emits.keeps (emits : Emits params s s') : Keeps params s s' :=
  ⟨emits.ready.toHeld, emits.grows, emits.module⟩

theorem Emits.runs (emits : Emits params s s') : Runs params false s s' where
  toKeeps := emits.keeps
  waiting i := by
    have here := emits.ready.here
    rw [emits.waiting, emits.current] at *
    grind
  inside := emits.ready.inside
  apart _ _ ne := emits.current ▸ ne
  others i inner _ ne := emits.others i inner ne
  outer := congrArg Scope.outer emits.scope

theorem Closes.runs (closes : Closes params s.builder.current [] s s')
    (current : s'.builder.current = s.builder.current) (inside : s.builder.current ≠ 0) :
    Runs params true s s' where
  toKeeps := closes.toKeeps
  waiting i := by simp [closes.waiting]
  inside := current ▸ inside
  apart _ _ ne := current ▸ ne
  others := closes.others
  outer := congrArg Scope.outer closes.scope

variable {new tgt : Nat} {polarity : Polarity} {u : Unit} {lowerBody : Lower Bool}
  {block next : Nat} {body : List Stmt} {cond : Expr} {pending : List Nat}

namespace Closes

theorem after (emits : Emits params s s')
    (closes : Closes params s'.builder.current pending s' s'') :
    Closes params s.builder.current pending s s'' where
  toKeeps := emits.keeps.trans closes.toKeeps
  waiting i := by rw [closes.waiting, emits.waiting, emits.current]
  fresh i mem := emits.count ▸ closes.fresh i mem
  others i inner waits ne :=
    (closes.others i inner ((emits.waiting i).mpr waits) (emits.current ▸ ne)).trans (emits.others i inner ne)
  scope := closes.scope.trans emits.scope

theorem waits (closes : Closes params block pending s s') (mem : i ∈ pending) : s'.builder.Open i :=
  (closes.waiting i).mpr (.inr mem)

theorem idle (closes : Closes params block pending s s') (mem : i ∈ pending) : s'.builder.Idle i :=
  (closes.fresh i mem).2.2

/-- One of the new blocks is done. -/
theorem drop (closes : Closes params block (done :: pending) s s') (distinct : done ∉ pending)
    (more : Closes params done [] s' s'') : Closes params block pending s s'' := by
  have new := (closes.fresh done (.head _)).2.1
  have apart : ∀ i, s.builder.Open i → i ≠ done := fun i waits => Nat.ne_of_lt (Nat.lt_of_lt_of_le waits.lt new)
  refine ⟨closes.toKeeps.trans more.toKeeps, fun i => ?_, fun i mem => ?_, fun i inner waits ne => ?_,
    more.scope.trans closes.scope⟩
  · have := apart i
    rw [more.waiting, closes.waiting]
    grind
  · obtain ⟨inner, new, label, found⟩ := closes.fresh i (.tail _ mem)
    refine ⟨inner, new, label, (more.others i inner (closes.waits (.tail _ mem)) ?_).trans found⟩
    rintro rfl
    contradiction
  · exact (more.others i inner ((closes.waiting i).mpr (.inl ⟨waits, ne⟩)) (apart i waits)).trans
      (closes.others i inner waits ne)

end Closes

theorem terminate_closes (ready : Ready params s) (terminator : Terminator)
    (jump : terminator.isReturn = false) (usable : ∀ val ∈ terminator.operands, Usable params s val)
    (targets : ∀ tgt ∈ terminator.targets, tgt < s.builder.function.blocks.length) :
    Closes params s.builder.current [] s (s.built (.terminate terminator)) ∧
      (s.built (.terminate terminator)).builder = s.builder.terminated terminator := by
  have same : (s.built (.terminate terminator)).builder = s.builder.terminated terminator :=
    Builder.run_terminate ready.here terminator
  have waiting := Builder.open_terminated s.builder terminator
  refine ⟨⟨⟨⟨?_, ?_, ?_⟩, ?_, .refl _⟩, fun i => ?_, forall_mem_nil _, fun i _ _ ne => ?_, rfl⟩, same⟩
  · rw [same]
    exact ready.sound.terminated ready.here usable targets (by simp [jump])
  · rw [same, waiting]
    exact ⟨ready.entry, ready.inside.symm⟩
  · rw [same, Builder.slots_terminated]
    exact ready.scope
  · rw [same]
    exact Builder.grows_terminated ready.here
  · simp [same, waiting]
  · rw [same, Builder.block?_terminated]
    simp only [if_neg (Ne.symm ne), Option.map_id']

theorem branch_closes (ready : Ready params s) (there : tgt < s.builder.function.blocks.length) :
    Closes params s.builder.current [] s (s.built (.branch tgt)) ∧
      (s.built (.branch tgt)).builder = s.builder.terminated (.branch tgt) :=
  terminate_closes ready (.branch tgt) rfl (by simp [Terminator.operands])
    (by simpa [Terminator.targets] using there)

theorem branch_runs (ready : Ready params s) (there : tgt < s.builder.function.blocks.length) :
    Runs params true s (s.built (.branch tgt)) := by
  obtain ⟨closes, same⟩ := branch_closes ready there
  exact closes.runs (by rw [same]; rfl) ready.inside

def Polarity.terminator (polarity : Polarity) (cond : Ir.Value) (body past : Nat) : Terminator :=
  match polarity with
  | .whenTrue => .condBranch cond body past
  | .whenFalse => .condBranch cond past body

theorem branchOn_closes (ready : Ready params s) {cond : Ir.Value} {body past : Nat}
    (usable : Usable params s cond) (inner : body < s.builder.function.blocks.length)
    (outer : past < s.builder.function.blocks.length)
    (run : (branchOn polarity cond body past).run s = .ok (u, s')) :
    Closes params s.builder.current [] s s' ∧
      s'.builder = s.builder.terminated (Polarity.terminator polarity cond body past) := by
  cases polarity with
  | whenTrue =>
    obtain ⟨-, rfl⟩ := run
    exact terminate_closes ready (.condBranch cond body past) rfl
      (by simpa [Terminator.operands] using usable) (by simp [Terminator.targets, inner, outer])
  | whenFalse =>
    obtain ⟨-, rfl⟩ := run
    exact terminate_closes ready (.condBranch cond past body) rfl
      (by simpa [Terminator.operands] using usable) (by simp [Terminator.targets, inner, outer])

/-- So many new blocks that wait, still empty. -/
structure Opens (params new : Nat) (s s' : State) : Prop where
  ready : Ready params s'
  current : s'.builder.current = s.builder.current
  count : s'.builder.function.blocks.length = s.builder.function.blocks.length + new
  same : ∀ i, i < s.builder.function.blocks.length →
    s'.builder.function.block? i = s.builder.function.block? i
  idle : ∀ i, s.builder.function.blocks.length ≤ i → i < s.builder.function.blocks.length + new →
    s'.builder.Idle i
  grows : s.builder.Grows s'.builder
  registers : s'.builder.nextRegister = s.builder.nextRegister
  scope : s'.scope = s.scope
  module : s'.module = s.module

theorem Opens.trans (first : Opens params m s s') (second : Opens params n s' s'') :
    Opens params (m + n) s s'' where
  ready := second.ready
  current := second.current.trans first.current
  count := by rw [second.count, first.count, Nat.add_assoc]
  same i small := (second.same i (by have := first.count; omega)).trans (first.same i small)
  idle i low high := by
    have count := first.count
    by_cases old : i < s'.builder.function.blocks.length
    · obtain ⟨label, found⟩ := first.idle i low (by omega)
      exact ⟨label, (second.same i old).trans found⟩
    · exact second.idle i (by omega) (by omega)
  grows := first.grows.trans second.grows
  registers := second.registers.trans first.registers
  scope := second.scope.trans first.scope
  module := second.module.trans first.module

theorem Opens.waiting (opens : Opens params new s s') (i : Nat) : s'.builder.Open i ↔
    s.builder.Open i ∨ s.builder.function.blocks.length ≤ i ∧
      i < s.builder.function.blocks.length + new := by
  by_cases old : i < s.builder.function.blocks.length
  · simp only [Builder.Open, opens.same i old]
    grind
  · constructor
    · intro waits
      have := waits.lt
      rw [opens.count] at this
      exact .inr ⟨by omega, this⟩
    · rintro (waits | ⟨low, high⟩)
      · exact absurd waits.lt old
      · obtain ⟨label, found⟩ := opens.idle i low high
        exact ⟨_, found, rfl⟩

theorem Opens.keeps (opens : Opens params new s s') : Keeps params s s' :=
  ⟨opens.ready.toHeld, opens.grows, opens.module ▸ .refl _⟩

theorem Opens.closes (here : s.builder.Open s.builder.current) (opens : Opens params new s s')
    (ends : Closes params s'.builder.current [] s' s'') :
    Closes params s.builder.current (range' s.builder.function.blocks.length new) s s'' := by
  have small := here.lt
  refine ⟨opens.keeps.trans ends.toKeeps, fun i => ?_, fun i mem => ?_, fun i inner waits ne => ?_,
    ends.scope.trans opens.scope⟩
  · rw [ends.waiting, opens.waiting, opens.current, mem_range'_1]
    grind
  · rw [mem_range'_1] at mem
    obtain ⟨label, found⟩ := opens.idle i mem.1 mem.2
    refine ⟨by omega, mem.1, label, (ends.others i (by omega) ⟨_, found, rfl⟩ ?_).trans found⟩
    rw [opens.current]
    omega
  · exact (ends.others i inner ((opens.waiting i).mpr (.inl waits)) (opens.current ▸ ne)).trans
      (opens.same i waits.lt)

theorem appendBlock_opens (ready : Ready params s) (known : hint ∈ Ir.hints)
    (run : (build (.appendBlock hint)).run s = .ok (idx, s')) :
    idx = s.builder.function.blocks.length ∧ Opens params 1 s s' := by
  rw [build_ok] at run
  obtain ⟨rfl, rfl⟩ := run
  have numbered : (hint == "body" || hint == "quit") = false := by
    revert hint
    decide
  have same : (s.built (.appendBlock hint)).builder = s.builder.withBlock hint := by
    simp [State.built, Ir.Build.appendBlock, modifyGet, MonadStateOf.modifyGet, StateT.modifyGet, StateT.run,
      numbered, Builder.withBlock, pure]
  have waiting := Builder.open_withBlock s.builder hint
  have grows := Builder.grows_withBlock s.builder hint
  refine ⟨rfl, ⟨⟨⟨?_, ?_, ?_⟩, ?_, ready.inside⟩, rfl, ?_, fun i small => ?_, fun i low high => ?_, ?_, ?_, rfl, rfl⟩⟩
  · rw [same]
    exact ready.sound.withBlock ready.entry known
  · rw [same, waiting]
    exact .inl ready.entry
  · rw [same]
    exact fun var mem => (ready.scope var mem).mono grows.slots_subset
  · rw [same, waiting]
    exact .inl ready.here
  · rw [same]
    simp [Builder.withBlock]
  · rw [same, Builder.block?_withBlock, if_neg (by omega)]
  · rw [same]
    exact ⟨_, by rw [Builder.block?_withBlock, if_pos (by omega)]⟩
  · rw [same]
    exact grows
  · rfl

theorem positioned_held (held : Held params s) (block : Nat) (scope : Scope)
    (sub : scope.all ⊆ s.scope.all) :
    Held params { s with builder := s.builder.positioned block, scope } :=
  ⟨held.sound.positioned block, held.entry, fun var mem => held.scope var (sub mem)⟩

theorem child_parent {outer : Scope} (scope : Scope) (same : outer.outer = scope.child.outer) :
    outer.parent = scope := by
  simp [Scope.parent, same, Scope.child]

def State.nested (s : State) (block : Nat) : State :=
  { s with builder := s.builder.positioned block, scope := s.scope.child }

theorem nested_ready (held : Held params s) (waits : s.builder.Open block) (inside : block ≠ 0) :
    Ready params (s.nested block) :=
  ⟨positioned_held held block s.scope.child (by simp [Scope.all, Scope.child, Table.values, Table.empty]), waits,
    inside⟩

theorem grows_positioned (b : Builder) (block : Nat) : b.Grows (b.positioned block) :=
  ⟨rfl, rfl, rfl, (Builder.Grows.refl b).blocks⟩

theorem lowerArm_ok (run : (lowerArm block next lowerBody).run s = .ok (u, s')) :
    ∃ left s₁, lowerBody.run (s.nested block) = .ok (left, s₁) ∧
      (left = true ∧ s' = { s₁ with scope := s₁.scope.parent } ∨
       left = false ∧ s' = State.built { s₁ with scope := s₁.scope.parent } (.branch next)) := by
  simp only [lowerArm, run_bind_ok, build_ok, run_modify_ok] at run
  obtain ⟨_, _, ⟨-, rfl⟩, _, _, ⟨-, rfl⟩, left, s₁, lowered, _, _, ⟨-, rfl⟩, run⟩ := run
  refine ⟨left, s₁, lowered, ?_⟩
  cases left with
  | true =>
    simp only [Bool.not_true, Bool.false_eq_true, if_false, run_pure_ok] at run
    exact .inl ⟨rfl, run.2⟩
  | false =>
    simp only [Bool.not_false, if_true, build_ok] at run
    exact .inr ⟨rfl, run.2⟩

/-- A nested block: its first block and all that it adds wait no longer. -/
theorem lowerArm_closes (held : Held params s) (tgt : next < s.builder.function.blocks.length)
    (body : ∀ {left s₁}, lowerBody.run (s.nested block) = .ok (left, s₁) → Runs params left
      (s.nested block) s₁) (run : (lowerArm block next lowerBody).run s = .ok (u, s')) :
    Closes params block [] s s' := by
  obtain ⟨left, s₁, lowered, ends⟩ := lowerArm_ok run
  have runs := body lowered
  have waiting : ∀ i, s₁.builder.Open i ↔
      s.builder.Open i ∧ i ≠ block ∨ left = false ∧ i = s₁.builder.current := runs.waiting
  have apart : ∀ i, s.builder.Open i → i ≠ block → i ≠ s₁.builder.current := runs.apart
  have others : ∀ i, i ≠ 0 → s.builder.Open i → i ≠ block →
      s₁.builder.function.block? i = s.builder.function.block? i := runs.others
  have scope : s₁.scope.parent = s.scope := child_parent s.scope runs.outer
  have inner : Held params { s₁ with scope := s₁.scope.parent } := by
    refine ⟨runs.held.sound, runs.held.entry, ?_⟩
    rw [scope]
    exact fun var mem => (held.scope var mem).mono runs.grows.slots_subset
  have keeps : Keeps params s { s₁ with scope := s₁.scope.parent } :=
    ⟨inner, (grows_positioned s.builder block).trans runs.grows, runs.module⟩
  rcases ends with ⟨rfl, rfl⟩ | ⟨rfl, rfl⟩
  · exact ⟨keeps, fun i => by simpa using waiting i, forall_mem_nil _, others, scope⟩
  · have ready : Ready params { s₁ with scope := s₁.scope.parent } := ⟨inner, runs.ready.here, runs.inside⟩
    obtain ⟨ends, -⟩ := branch_closes ready (Nat.lt_of_lt_of_le tgt keeps.grows.length_le)
    have last : ∀ i, s.builder.Open i → i ≠ block → s₁.builder.Open i := fun i waits ne =>
      (waiting i).mpr (.inl ⟨waits, ne⟩)
    refine ⟨keeps.trans ends.toKeeps, fun i => ?_, forall_mem_nil _, fun i inner waits ne => ?_, scope⟩
    · rw [ends.waiting]
      grind
    · exact (ends.others i inner (last i waits ne) (apart i waits ne)).trans (others i inner waits ne)

def ExitIn (ctx : Context) (s : State) : Prop :=
  ∀ exit, ctx.exit = some exit → IsSlot s.builder.function.slots exit.pointer

theorem ExitIn.mono (kept : ExitIn ctx s) (grows : s.builder.Grows s'.builder) : ExitIn ctx s' :=
  fun exit found => (kept exit found).mono grows.slots_subset

theorem withSlot_emits (ready : Ready params s) (lowered : IrType) (usable : Usable params s val) :
    Emits params s (s.withSlot lowered val) ∧
      IsSlot (s.withSlot lowered val).builder.function.slots
        (.register s.builder.nextRegister .pointer) := by
  obtain ⟨allocated, slot⟩ := emits_alloca ready lowered
  have stored := emits_store allocated.ready (allocated.usable usable) slot.usable
  exact ⟨allocated.trans stored, slot.mono stored.grows.slots_subset⟩

theorem mem_all_withVariable (mem : other ∈ (s.withVariable name var).scope.all) :
    other = var ∨ other ∈ s.scope.all := by
  rw [Scope.all, flatMap_cons, mem_append] at mem
  rcases mem with inner | outer
  · obtain ⟨⟨key, val⟩, mem, rfl⟩ := mem_map.mp inner
    rcases Table.mem_put mem with same | mem
    · cases same
      exact .inl rfl
    · exact .inr (mem_append_left _ (mem_map.mpr ⟨_, mem, rfl⟩))
  · exact .inr (mem_append_right _ outer)

theorem withVariable_runs (ready : Ready params s) (name : String) (var : Variable)
    (slot : IsSlot s.builder.function.slots var.slot) :
    Runs params false s (s.withVariable name var) where
  held := by
    refine ⟨ready.sound, ready.entry, fun other mem => ?_⟩
    rcases mem_all_withVariable mem with rfl | mem
    · exact slot
    · exact ready.scope other mem
  grows := .refl _
  module := .refl _
  waiting i := (Emits.refl ready).runs.waiting i
  inside := ready.inside
  apart _ _ ne := ne
  others _ _ _ _ := rfl
  outer := rfl

/-- A statement in a function that keeps its result in a slot. -/
def Flows (params : Nat) (ctx : Context) (stmt : Stmt) : Prop :=
  ∀ {s s' : State} {u : Unit}, Ready params s → ExitIn ctx s → (lowerStmt ctx stmt).run s = .ok (u, s') →
    Runs params stmt.isTerminator s s'

theorem lowerBlock_runs {block : List Stmt} (flows : ∀ stmt ∈ block, Flows params ctx stmt)
    (ready : Ready params s) (kept : ExitIn ctx s)
    (run : (lowerBlock ctx block).run s = .ok (left, s')) : Runs params left s s' := by
  induction block generalizing s with
  | nil =>
    obtain ⟨rfl, rfl⟩ := run_pure_ok.mp run
    exact (Emits.refl ready).runs
  | cons stmt block ih =>
    obtain ⟨_, s₁, first, run⟩ := run_bind_ok.mp run
    have runs := flows stmt (by simp) ready kept first
    split at run
    · next leaves =>
      obtain ⟨rfl, rfl⟩ := run_pure_ok.mp run
      rwa [leaves] at runs
    · next stays =>
      rw [Bool.not_eq_true] at stays
      rw [stays] at runs
      exact runs.trans (ih (fun other mem => flows other (by simp [mem])) runs.ready (kept.mono runs.grows) run)

theorem Closes.arm (closes : Closes params first (block :: pending) s s')
    (distinct : block ∉ pending) (flows : ∀ stmt ∈ body, Flows params ctx stmt)
    (kept : ExitIn ctx s) (tgt : next < s'.builder.function.blocks.length)
    (run : (lowerArm block next (lowerBlock ctx body)).run s' = .ok (u, s'')) :
    s'.builder.Grows s''.builder ∧ s''.scope = s'.scope ∧ Closes params first pending s s'' := by
  have ready := nested_ready closes.held (closes.waits (.head _)) (closes.fresh block (.head _)).1
  have arm := lowerArm_closes closes.held tgt
    (lowerBlock_runs flows ready ((kept.mono closes.grows).mono (grows_positioned ..))) run
  exact ⟨arm.grows, arm.scope, closes.drop distinct arm⟩

theorem Closes.positioned (closes : Closes params idx pending (s.built (.position idx)) s') :
    Closes params idx pending s s' where
  held := closes.held
  grows := (grows_positioned ..).trans closes.grows
  module := closes.module
  waiting := closes.waiting
  fresh := closes.fresh
  others := closes.others
  scope := closes.scope

/-- Where nested blocks meet: of all blocks that were added, only this one waits. -/
theorem Closes.finish (closes : Closes params s.builder.current [past] s s') :
    Runs params false s (s'.built (.position past)) where
  held := ⟨closes.held.sound.positioned past, closes.held.entry, closes.held.scope⟩
  grows := closes.grows.trans (grows_positioned ..)
  module := closes.module
  waiting i := (closes.waiting i).trans
    (or_congr_right ⟨fun mem => ⟨rfl, mem_singleton.mp mem⟩, fun same => same.2 ▸ .head _⟩)
  inside := (closes.fresh past (.head _)).1
  apart _ waits _ := Nat.ne_of_lt (Nat.lt_of_lt_of_le waits.lt (closes.fresh past (.head _)).2.1)
  others := closes.others
  outer := congrArg Scope.outer closes.scope

section
variable (ready : Ready params s)
include ready

theorem lowerLeave_runs (kept : ExitIn ctx s)
    (run : (lowerLeave ctx line val).run s = .ok (u, s')) :
    Runs params true s s' := by
  rcases lowerLeave_ok run with ⟨-, -, rfl⟩ | ⟨expr, exit, typed, s₁, _, -, found, lowered, -, rfl⟩
  · exact branch_runs ready ready.sound.three_le
  · obtain ⟨first, usable⟩ := lowerExpr_yields ready lowered
    have stored := emits_store first.ready usable ((kept.mono first.grows) exit found).usable
    exact (first.trans stored).runs.trans (branch_runs stored.ready stored.ready.sound.three_le)

/-- The parts of a body that runs if a condition allows: the test, and the body in a block of its
own. -/
theorem lowerBranch_parts (run : (lowerBranch ctx polarity cond lowerBody).run s = .ok (u, s')) :
    ∃ val s₁ s₂ s₃ s₄ first,
      (lowerCondition ctx cond).run s = .ok (val, s₁) ∧ Yields params s val s₁ ∧
      Opens params 2 s₁ s₂ ∧
      s₃.builder = s₂.builder.terminated (Polarity.terminator polarity val first (first + 1)) ∧
      Closes params s.builder.current [first, first + 1] s s₃ ∧
        (lowerArm first (first + 1) lowerBody).run s₃ = .ok ((), s₄) ∧
      s' = s₄.built (.position (first + 1)) := by
  simp only [lowerBranch, run_bind_ok] at run
  obtain ⟨val, s₁, tested, inner, _, append₁, past, s₂, append₂, _, s₃, branches, _, s₄, arm, run⟩ := run
  obtain ⟨-, rfl⟩ := build_ok.mp run
  obtain ⟨emits, usable⟩ := lowerCondition_yields ready tested
  obtain ⟨inner_eq, opens₁⟩ := appendBlock_opens emits.ready (by decide) append₁
  obtain ⟨past_eq, opens₂⟩ := appendBlock_opens opens₁.ready (by decide) append₂
  have opens := opens₁.trans opens₂
  have count := opens.count
  rw [opens₁.count, emits.count] at past_eq
  rw [emits.count] at inner_eq count
  subst inner_eq past_eq
  obtain ⟨ends, same⟩ := branchOn_closes opens.ready (opens.grows.usable opens.current usable) (by omega) (by omega)
    branches
  have closes := Closes.after emits (opens.closes emits.ready.here ends)
  rw [emits.count] at closes
  exact ⟨val, s₁, s₂, s₃, s₄, _, tested, ⟨emits, usable⟩, opens, same, closes, arm, rfl⟩

theorem lowerBranch_runs (kept : ExitIn ctx s) (flows : ∀ stmt ∈ body, Flows params ctx stmt)
    (run : (lowerBranch ctx polarity cond (lowerBlock ctx body)).run s = .ok (u, s')) :
    Runs params false s s' := by
  obtain ⟨val, s₁, s₂, s₃, s₄, first, -, -, -, -, closes, arm, rfl⟩ := lowerBranch_parts ready run
  exact (closes.arm (by simp) flows kept (closes.waits (by simp)).lt arm).2.2.finish

theorem lowerBranchElse_parts {lowerBody lowerOther : Lower Bool}
    (run : (lowerBranchElse ctx polarity cond lowerBody lowerOther).run s = .ok (u, s')) :
    ∃ val s₁ s₂ s₃ s₄ s₅ first,
      (lowerCondition ctx cond).run s = .ok (val, s₁) ∧ Yields params s val s₁ ∧
      Opens params 3 s₁ s₂ ∧
      s₃.builder = s₂.builder.terminated (Polarity.terminator polarity val first (first + 1)) ∧
      Closes params s.builder.current [first, first + 1, first + 2] s s₃ ∧
      (lowerArm first (first + 2) lowerBody).run s₃ = .ok ((), s₄) ∧
      (lowerArm (first + 1) (first + 2) lowerOther).run s₄ = .ok ((), s₅) ∧
      s' = s₅.built (.position (first + 2)) := by
  simp only [lowerBranchElse, run_bind_ok] at run
  obtain ⟨val, s₁, tested, inner, _, append₁, other, _, append₂, past, s₂, append₃, _, s₃, branches, _, s₄, arm,
    _, s₅, arm', run⟩ := run
  obtain ⟨-, rfl⟩ := build_ok.mp run
  obtain ⟨emits, usable⟩ := lowerCondition_yields ready tested
  obtain ⟨inner_eq, opens₁⟩ := appendBlock_opens emits.ready (by decide) append₁
  obtain ⟨other_eq, opens₂⟩ := appendBlock_opens opens₁.ready (by decide) append₂
  obtain ⟨past_eq, opens₃⟩ := appendBlock_opens opens₂.ready (by decide) append₃
  have opens := (opens₁.trans opens₂).trans opens₃
  have count := opens.count
  rw [opens₂.count, opens₁.count, emits.count] at past_eq
  rw [opens₁.count, emits.count] at other_eq
  rw [emits.count] at inner_eq count
  subst inner_eq other_eq past_eq
  obtain ⟨ends, same⟩ := branchOn_closes opens.ready (opens.grows.usable opens.current usable) (by omega) (by omega)
    branches
  have closes := Closes.after emits (opens.closes emits.ready.here ends)
  rw [emits.count] at closes
  exact ⟨val, s₁, s₂, s₃, s₄, s₅, _, tested, ⟨emits, usable⟩, opens, same, closes, arm, arm', rfl⟩

theorem lowerBranchElse_runs (kept : ExitIn ctx s) (flows : ∀ stmt ∈ body, Flows params ctx stmt)
    (flows' : ∀ stmt ∈ otherwise, Flows params ctx stmt) (run : (lowerBranchElse ctx polarity cond
      (lowerBlock ctx body) (lowerBlock ctx otherwise)).run s = .ok (u, s')) :
    Runs params false s s' := by
  obtain ⟨val, s₁, s₂, s₃, s₄, s₅, first, -, -, -, -, closes, arm, arm', rfl⟩ := lowerBranchElse_parts ready run
  obtain ⟨-, -, middle⟩ := closes.arm (by simp) flows kept (closes.waits (by simp)).lt arm
  exact (middle.arm (by simp) flows' kept (middle.waits (by simp)).lt arm').2.2.finish

/-- The parts of a loop: a jump to the test, the test in a block of its own, the body in another. -/
theorem lowerLoop_parts (run : (lowerLoop ctx polarity cond lowerBody).run s = .ok (u, s')) :
    ∃ s₁ s₂ val s₃ s₄ s₅ first, Opens params 3 s s₁ ∧
      s₂.builder = s₁.builder.terminated (.branch first) ∧
      Closes params s.builder.current [first, first + 1, first + 2] s s₂ ∧
      Ready params (s₂.built (.position first)) ∧
      (lowerCondition ctx cond).run (s₂.built (.position first)) = .ok (val, s₃) ∧
      Yields params (s₂.built (.position first)) val s₃ ∧
      s₄.builder =
        s₃.builder.terminated (Polarity.terminator polarity val (first + 1) (first + 2)) ∧
      Closes params first [] s₂ s₄ ∧
      (lowerArm (first + 1) first lowerBody).run s₄ = .ok ((), s₅) ∧
        s' = s₅.built (.position (first + 2)) := by
  simp only [lowerLoop, run_bind_ok] at run
  obtain ⟨test, _, append₁, inner, _, append₂, past, s₁, append₃, _, s₂, jump, _, _, moved, val, s₃, tested,
    _, s₄, branches, _, s₅, arm, run⟩ := run
  obtain ⟨-, rfl⟩ := jump
  obtain ⟨-, rfl⟩ := moved
  obtain ⟨-, rfl⟩ := run
  obtain ⟨test_eq, opens₁⟩ := appendBlock_opens ready (by decide) append₁
  obtain ⟨inner_eq, opens₂⟩ := appendBlock_opens opens₁.ready (by decide) append₂
  obtain ⟨past_eq, opens₃⟩ := appendBlock_opens opens₂.ready (by decide) append₃
  have opens := (opens₁.trans opens₂).trans opens₃
  have count := opens.count
  have three := ready.sound.three_le
  rw [opens₂.count, opens₁.count] at past_eq
  rw [opens₁.count] at inner_eq
  subst test_eq inner_eq past_eq
  obtain ⟨jumps, same⟩ := branch_closes opens.ready
    (show s.builder.function.blocks.length < s₁.builder.function.blocks.length by omega)
  have closes := opens.closes ready.here jumps
  have first := closes.waits (mem_range'_1.mpr ⟨Nat.le_refl _, Nat.lt_add_of_pos_right (by decide)⟩)
  have start : Ready params ((s₁.built (.branch s.builder.function.blocks.length)).built
      (.position s.builder.function.blocks.length)) :=
    ⟨positioned_held closes.held s.builder.function.blocks.length _ (Subset.refl _), first,
      show s.builder.function.blocks.length ≠ 0 by omega⟩
  obtain ⟨emits, usable⟩ := lowerCondition_yields start tested
  have bound : s₁.builder.function.blocks.length ≤ s₃.builder.function.blocks.length :=
    Nat.le_trans jumps.grows.length_le emits.grows.length_le
  obtain ⟨ends, same'⟩ := branchOn_closes emits.ready usable (by omega) (by omega) branches
  exact ⟨s₁, _, val, s₃, s₄, s₅, _, opens, same, closes, start, tested, ⟨emits, usable⟩, same',
    (Closes.after emits ends).positioned, arm, rfl⟩

theorem lowerLoop_runs (kept : ExitIn ctx s) (flows : ∀ stmt ∈ body, Flows params ctx stmt)
    (run : (lowerLoop ctx polarity cond (lowerBlock ctx body)).run s = .ok (u, s')) :
    Runs params false s s' := by
  obtain ⟨s₁, s₂, val, s₃, s₄, s₅, first, -, -, closes, -, -, -, -, tests, arm, rfl⟩ := lowerLoop_parts ready run
  have small := Nat.lt_of_lt_of_le (closes.waits (.head _)).lt tests.grows.length_le
  exact ((closes.drop (by simp) tests).arm (by simp) flows kept small arm).2.2.finish

end

/-- Every statement goes from block to block. -/
theorem flows (ctx : Context) : ∀ stmt, Flows params ctx stmt := by
  refine Stmt.induct fun stmt below => ?_
  intro s s' u ready kept run
  cases stmt with
  | declare line name ty =>
    obtain ⟨lowered, -, -, -, rfl⟩ := lowerDeclare_ok run
    obtain ⟨emits, slot⟩ := withSlot_emits ready lowered (show Usable params s (.zero lowered) by trivial)
    exact emits.runs.trans (withVariable_runs emits.ready name _ slot)
  | define line name ty val =>
    obtain ⟨lowered, typed, s₁, _, -, -, lowers, -, -, rfl⟩ := lowerDefine_ok run
    obtain ⟨first, usable⟩ := lowerExpr_yields ready lowers
    obtain ⟨second, slot⟩ := withSlot_emits first.ready lowered usable
    exact (first.trans second).runs.trans (withVariable_runs second.ready name _ slot)
  | leave line val => exact lowerLeave_runs ready kept run
  | assign line tgt val =>
    exact ((Aim.lowerAssign_does
      (ready.able : (ctx.building params).Able s) False.elim False.elim run).1.emits trivial).runs
  | call line val | method line val =>
    simp only [lowerStmt, run_bind_ok, run_pure_ok] at run
    obtain ⟨_, _, lowers, -, rfl⟩ := run
    exact (lowerExpr_yields ready lowers).1.runs
  | branch line polarity cond body => exact lowerBranch_runs ready kept (below body (.head _)) run
  | branchElse line polarity cond body otherwise =>
    exact lowerBranchElse_runs ready kept (below body (.head _))
      (below otherwise (.tail _ (.head _))) run
  | loop line polarity cond body => exact lowerLoop_runs ready kept (below body (.head _)) run
  | delete line val =>
    exact ((Aim.lowerDelete_does (ready.able : (ctx.building params).Able s) False.elim run).1.emits trivial).runs

end TernLang.Lowering
