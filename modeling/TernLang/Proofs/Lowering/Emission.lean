import TernLang.Proofs.Ir.Construction
import TernLang.Proofs.Lowering.Checked

/-! Code for expressions goes to the end of the current block, and slots go to the first one. All
operands are slots, or registers that the current block has defined before. Where types are looked
at, the code is checked too. -/
namespace TernLang.Lowering

open Ir (Builder Instruction)

def IsSlot (slots : List Nat) (ptr : Ir.Value) : Prop := ∃ reg ∈ slots, ptr = .register reg .pointer

/-- The function is well built so far, and variables are in its slots. -/
structure Held (params : Nat) (s : State) : Prop where
  sound : s.builder.Sound params
  entry : s.builder.Open 0
  scope : ∀ var ∈ s.scope.all, IsSlot s.builder.function.slots var.slot

structure Ready (params : Nat) (s : State) : Prop extends Held params s where
  here : s.builder.Open s.builder.current
  inside : s.builder.current ≠ 0

/-- More code in the current block, and more slots. -/
structure Emits (params : Nat) (s s' : State) : Prop where
  ready : Ready params s'
  grows : s.builder.Grows s'.builder
  current : s'.builder.current = s.builder.current
  registers : s.builder.nextRegister ≤ s'.builder.nextRegister
  count : s'.builder.function.blocks.length = s.builder.function.blocks.length
  waiting : ∀ i, s'.builder.Open i ↔ s.builder.Open i
  others : ∀ i, i ≠ 0 → i ≠ s.builder.current →
    s'.builder.function.block? i = s.builder.function.block? i
  scope : s'.scope = s.scope
  module : s.module.Extends s'.module

variable {params : Nat} {s s' s'' : State}

theorem Emits.refl (ready : Ready params s) : Emits params s s :=
  ⟨ready, .refl _, rfl, Nat.le_refl _, rfl, fun _ => Iff.rfl, fun _ _ _ => rfl, rfl, .refl _⟩

theorem Emits.trans (first : Emits params s s') (second : Emits params s' s'') :
    Emits params s s'' where
  ready := second.ready
  grows := first.grows.trans second.grows
  current := second.current.trans first.current
  registers := Nat.le_trans first.registers second.registers
  count := second.count.trans first.count
  waiting i := (second.waiting i).trans (first.waiting i)
  others i inner ne := (second.others i inner (first.current ▸ ne)).trans (first.others i inner ne)
  scope := second.scope.trans first.scope
  module := first.module.trans second.module

/-- The value may be an operand at the end of the current block. -/
abbrev Usable (params : Nat) (s : State) (val : Ir.Value) : Prop := s.builder.Usable params val

variable {val ptr : Ir.Value} {name : String}

theorem Emits.usable (emits : Emits params s s') (usable : Usable params s val) :
    Usable params s' val :=
  emits.grows.usable emits.current usable

theorem IsSlot.usable (slot : IsSlot s.builder.function.slots ptr) : Usable params s ptr := by
  obtain ⟨reg, mem, rfl⟩ := slot
  exact List.mem_append_left _ mem

theorem IsSlot.mono (slot : IsSlot slots ptr) (sub : slots ⊆ slots') : IsSlot slots' ptr := by
  obtain ⟨reg, mem, rfl⟩ := slot
  exact ⟨reg, sub mem, rfl⟩

theorem emits_push (ready : Ready params s) (next : Nat) (instr : Instruction)
    (same : b = s.builder.appended next [instr]) (plain : instr.isAlloca = false)
    (usable : ∀ val ∈ instr.operands, Usable params s val)
    (res : ∀ reg, instr.result? = some reg →
      reg = s.builder.nextRegister ∧ reg < next) (le : s.builder.nextRegister ≤ next) :
    Emits params s { s with builder := b } := by
  subst same
  have waiting := Builder.open_appended s.builder next [instr]
  refine ⟨⟨⟨?_, ?_, ?_⟩, ?_, ready.inside⟩, ?_, rfl, le, List.length_modify .., waiting, fun i _ ne => ?_, rfl,
    .refl _⟩
  · exact ready.sound.push ready.here ready.inside plain usable res le
  · exact (waiting 0).mpr ready.entry
  · intro var mem
    rw [Builder.slots_appended ready.inside]
    exact ready.scope var mem
  · exact (waiting _).mpr ready.here
  · exact Builder.grows_appended ready.here
  · simp only [Builder.block?_appended, if_neg (Ne.symm ne), Option.map_id']

theorem emits_emit (ready : Ready params s) (ty : IrType) (make : Nat → Instruction)
    (plain : (make s.builder.nextRegister).isAlloca = false)
    (usable : ∀ val ∈ (make s.builder.nextRegister).operands, Usable params s val)
    (res : (make s.builder.nextRegister).result? = some s.builder.nextRegister) :
    Emits params s (s.built (.emit ty make)) ∧
      Usable params (s.built (.emit ty make)) (.register s.builder.nextRegister ty) := by
  have emits : Emits params s (s.built (.emit ty make)) := by
    refine emits_push ready (s.builder.nextRegister + 1) (make s.builder.nextRegister) rfl plain usable ?_
      (Nat.le_succ _)
    intro reg defines
    rw [res] at defines
    cases defines
    exact ⟨rfl, Nat.lt_succ_self _⟩
  exact ⟨emits, Builder.usable_appended ready.here ty res⟩

theorem emits_store (ready : Ready params s) (stored : Usable params s val)
    (addr : Usable params s ptr) :
    Emits params s (s.built (.store val ptr)) := by
  refine emits_push ready s.builder.nextRegister (.store val ptr) rfl rfl ?_ ?_
    (Nat.le_refl _)
  · simp [Instruction.operands, stored, addr]
  · simp [Instruction.result?]

theorem emits_alloca (ready : Ready params s) (ty : IrType) :
    Emits params s (s.built (.alloca ty)) ∧
      IsSlot (s.built (.alloca ty)).builder.function.slots
        (.register s.builder.nextRegister .pointer) := by
  have slots := Builder.slots_withSlot ready.entry ty
  have waiting : ∀ i, (s.builder.withSlot ty).Open i ↔ s.builder.Open i :=
    Builder.open_modifyBlock fun _ => rfl
  refine ⟨⟨⟨⟨?_, ?_, ?_⟩, ?_, ready.inside⟩, ?_, rfl, Nat.le_succ _, List.length_modify .., waiting,
    fun i inner _ => ?_, rfl, .refl _⟩, ?_⟩
  · exact ready.sound.withSlot ready.entry ty
  · exact (waiting 0).mpr ready.entry
  · intro var mem
    exact (ready.scope var mem).mono (Builder.grows_withSlot ready.entry).slots_subset
  · exact (waiting _).mpr ready.here
  · exact Builder.grows_withSlot ready.entry
  · exact (Builder.block?_withSlot ..).trans (by simp only [if_neg (Ne.symm inner), Option.map_id'])
  · exact ⟨_, slots ▸ List.mem_append_right _ (List.mem_singleton.mpr rfl), rfl⟩

theorem withModule_emits (ready : Ready params s) (more : s.module.Extends mod) :
    Emits params s { s with module := mod } where
  ready := ⟨⟨ready.sound, ready.entry, ready.scope⟩, ready.here, ready.inside⟩
  grows := .refl _
  current := rfl
  registers := Nat.le_refl _
  count := rfl
  waiting _ := Iff.rfl
  others _ _ _ := rfl
  scope := rfl
  module := more

/-! What actions add. -/

/-- What is shown of the code that is added: that it is well built, for so many parameters, and that
it is checked by its types. Either may be left out. -/
structure Aim where
  ctx : Context
  params : Nat
  built : Prop
  typed : Prop

namespace Aim

section
variable (aim : Aim)

structure Able (s : State) : Prop where
  ready : aim.built → Ready aim.params s
  checked : aim.typed → Checked aim.ctx.program s

structure Adds (s s' : State) : Prop where
  scope : s'.scope = s.scope
  emits : aim.built → Emits aim.params s s'
  leads : aim.typed → Leads aim.ctx.program s s'

/-- The value may be used, and its types say more. -/
structure Has (s : State) (val : Ir.Value) (fact : Prop) : Prop where
  usable : aim.built → Usable aim.params s val
  fact : aim.typed → fact

abbrev Operand (s : State) (val : Ir.Value) : Prop := aim.Has s val (Carried s val)

abbrev Value (s : State) (typed : Typed) : Prop :=
  aim.Has s typed.value (Valued aim.ctx.program s typed)

abbrev Address (s : State) (addr : Typed) : Prop :=
  aim.Has s addr.value (Located aim.ctx.program s addr)

/-- If the action succeeds, it has added code, and its result is as stated. -/
def Does {α : Type} (s : State) (action : Lower α) (post : α → State → Prop) : Prop :=
  ∀ ⦃a s'⦄, action.run s = .ok (a, s') → aim.Adds s s' ∧ post a s'

end

variable {aim : Aim} {typed addr : Typed}

namespace Adds

theorem refl (able : aim.Able s) : aim.Adds s s :=
  ⟨rfl, fun built => .refl (able.ready built), fun typed => .refl (able.checked typed)⟩

theorem trans (first : aim.Adds s s') (second : aim.Adds s' s'') : aim.Adds s s'' :=
  ⟨second.scope.trans first.scope, fun built => (first.emits built).trans (second.emits built),
    fun typed => (first.leads typed).trans (second.leads typed)⟩

section
variable (adds : aim.Adds s s')
include adds

theorem able : aim.Able s' :=
  ⟨fun built => (adds.emits built).ready, fun typed => (adds.leads typed).checked⟩

theorem has {fact fact' : Prop} (keeps : Leads aim.ctx.program s s' → fact → fact')
    (has : aim.Has s val fact) :
    aim.Has s' val fact' :=
  ⟨fun built => (adds.emits built).usable (has.usable built), fun typed => keeps (adds.leads typed) (has.fact typed)⟩

theorem operand : aim.Operand s val → aim.Operand s' val := adds.has fun leads => leads.carried

theorem valued : aim.Value s typed → aim.Value s' typed := adds.has fun leads => leads.valued

theorem located : aim.Address s addr → aim.Address s' addr := adds.has fun leads => leads.located

end

end Adds

theorem Has.operand (located : aim.Address s addr) : aim.Operand s addr.value :=
  ⟨located.usable, fun typed => (located.fact typed).carried⟩

namespace Does
variable {α β : Type} {action : Lower α} {next : α → Lower β} {mid : α → State → Prop}
  {post : β → State → Prop}

theorem bind (first : aim.Does s action mid)
    (rest : ∀ a s', aim.Adds s s' → mid a s' → aim.Does s' (next a) post) :
    aim.Does s (action >>= next) post := by
  intro b s'' run
  obtain ⟨a, s', ran, run⟩ := Success.run_bind_ok.mp run
  obtain ⟨adds, given⟩ := first ran
  obtain ⟨more, res⟩ := rest a s' adds given run
  exact ⟨adds.trans more, res⟩

theorem mono {post : α → State → Prop} (does : aim.Does s action mid)
    (weaker : ∀ a s', aim.Adds s s' → mid a s' → post a s') : aim.Does s action post := by
  intro a s' run
  obtain ⟨adds, given⟩ := does run
  exact ⟨adds, weaker a s' adds given⟩

theorem pure (able : aim.Able s) (given : post b s) : aim.Does s (pure b) post := by
  intro _ _ run
  obtain ⟨rfl, rfl⟩ := Success.run_pure_ok.mp run
  exact ⟨.refl able, given⟩

theorem fail : aim.Does s (throw cause) post := fun _ _ run => (Success.run_throw_ok.mp run).elim

theorem look {fact : α → Prop} (keeps : ∀ {a s'}, action.run s = .ok (a, s') → s' = s ∧ fact a)
    (rest : ∀ a, fact a → aim.Does s (next a) post) : aim.Does s (action >>= next) post := by
  intro b s' run
  obtain ⟨a, _, looked, later⟩ := Success.run_bind_ok.mp run
  obtain ⟨rfl, given⟩ := keeps looked
  exact rest a given later

theorem lift {x : Except Error α} (rest : ∀ a, x = .ok a → aim.Does s (next a) post) :
    aim.Does s (liftM x >>= next) post :=
  look (fun ran => (Success.run_lift_ok.mp ran).symm) rest

end Does

variable (able : aim.Able s)
include able

theorem emit_does {ty : IrType} (make : Nat → Instruction)
    (shape : ∀ n, (make n).isAlloca = false ∧ (make n).result? = some n ∧ (make n).type = ty)
    (operands : ∀ val ∈ (make s.builder.nextRegister).operands, aim.Operand s val)
    (fits : aim.typed → s.module.isSized ty ∧ (make s.builder.nextRegister).Fits s.module) :
    aim.Does s (build (.emit ty make)) fun val s' => aim.Operand s' val ∧ val.type = ty := by
  intro val s' run
  obtain ⟨rfl, rfl⟩ := build_ok.mp run
  obtain ⟨plain, res, same⟩ := shape s.builder.nextRegister
  have emits := fun built =>
    emits_emit (able.ready built) ty make plain (fun v mem => (operands v mem).usable built) res
  have leads := fun typed => emit_leads (able.checked typed) make res same (fits typed).1
    (fun v mem => (operands v mem).fact typed) (fits typed).2
  exact ⟨⟨rfl, fun built => (emits built).1, fun typed => (leads typed).1⟩,
    ⟨fun built => (emits built).2, fun typed => (leads typed).2⟩, rfl⟩

theorem store_does (stored : aim.Operand s val) (addr : aim.Operand s ptr)
    (isPointer : aim.typed → ptr.type = .pointer) :
    aim.Does s (build (.store val ptr)) fun _ _ => True := by
  intro _ s' run
  obtain ⟨-, rfl⟩ := build_ok.mp run
  exact ⟨⟨rfl, fun built => emits_store (able.ready built) (stored.usable built) (addr.usable built),
    fun typed => store_leads (able.checked typed) (stored.fact typed) (addr.fact typed) (isPointer typed)⟩, trivial⟩

theorem alloca_does {ty : IrType} (sized : aim.typed → s.module.isSized ty) :
    aim.Does s (build (.alloca ty)) fun slot s' => aim.Operand s' slot ∧ slot.type = .pointer := by
  intro slot s' run
  obtain ⟨rfl, rfl⟩ := build_ok.mp run
  have emits := fun built => emits_alloca (able.ready built) ty
  have leads := fun typed => alloca_leads (able.checked typed) (sized typed)
  exact ⟨⟨rfl, fun built => (emits built).1, fun typed => (leads typed).1⟩,
    ⟨fun built => (emits built).2.usable, fun typed => (leads typed).2⟩, rfl⟩

theorem withModule_adds (more : s.module.Extends mod)
    (equipped : aim.typed → Equipped aim.ctx.program mod) :
    aim.Adds s { s with module := mod } :=
  ⟨rfl, fun built => withModule_emits (able.ready built) more,
    fun typed => withModule_leads (able.checked typed) more.keeps (equipped typed)⟩

section
variable {left right : Ir.Value} (first : aim.Operand s left) (second : aim.Operand s right)
include first second

theorem binary_does (fits : aim.typed → left.type = right.type ∧ instr.takes left.type) :
    aim.Does s (build (.binary instr left right)) fun val s' => aim.Operand s' val ∧
      val.type = left.type :=
  emit_does able (.binary · instr left right) (fun _ => ⟨rfl, rfl, rfl⟩) (by simp [Instruction.operands, *])
    fun typed => ⟨(first.fact typed).sized, fits typed⟩

theorem compare_does (fits : aim.typed → left.type = right.type ∧ predicate.takes left.type) :
    aim.Does s (build (.compare predicate left right)) fun val s' => aim.Operand s' val ∧
      val.type = .bool :=
  emit_does able (.compare · predicate left right) (fun _ => ⟨rfl, rfl, rfl⟩) (by simp [Instruction.operands, *])
    fun typed => ⟨rfl, fits typed⟩

end

end Aim

end TernLang.Lowering
