import Mathlib.Data.List.Forall2
import TernLang.Lowering.Basic

/-! What a computation that succeeded has done. Every step of a chain succeeded, and each step
left the state that the next one started from. -/
namespace TernLang

open List

variable {ε σ α β : Type} {x : Except ε α} {f : α → StateT σ (Except ε) β} {s s' : σ} {a b : α}
  {e : ε}

theorem exists_of_forall₂ {relation : α → β → Prop} {first : List α} {second : List β}
    (related : Forall₂ relation first second) :
    ∀ item ∈ first, ∃ other ∈ second, relation item other := by
  induction related with
  | nil => exact forall_mem_nil _
  | cons here _ ih =>
    refine forall_mem_cons.mpr ⟨⟨_, mem_cons_self, here⟩, fun item mem => ?_⟩
    obtain ⟨other, there, holds⟩ := ih item mem
    exact ⟨other, mem_cons_of_mem _ there, holds⟩

namespace Success

@[simp] theorem bind_ok {f : α → Except ε β} {b : β} :
    (x >>= f) = .ok b ↔ ∃ a, x = .ok a ∧ f a = .ok b := by
  cases x <;> simp [bind, Except.bind]

theorem bind_error {f : α → Except ε β} :
    (x >>= f) = .error e ↔ x = .error e ∨ ∃ a, x = .ok a ∧ f a = .error e := by
  cases x <;> simp [bind, Except.bind]

theorem ok_of_toOption (given : x.toOption = some a) : x = .ok a := by
  cases x with
  | error => contradiction
  | ok => exact congrArg Except.ok (Option.some.inj given)

@[simp] theorem pure_ok : (pure a : Except ε α) = .ok b ↔ a = b := by
  simp [pure, Except.pure]

@[simp] theorem throw_ok : (throw e : Except ε α) = .ok b ↔ False := by
  simp [throw, throwThe, MonadExceptOf.throw]

@[simp] theorem map_ok {f : α → β} {b : β} : (x.map f) = .ok b ↔ ∃ a, x = .ok a ∧ f a = b := by
  cases x <;> simp [Except.map]

theorem mapM_ok {f : α → Except ε β} {items : List α} {results : List β} :
    items.mapM f = .ok results ↔ Forall₂ (fun item res => f item = .ok res) items results := by
  induction items generalizing results with
  | nil => rw [mapM_nil, pure_ok, forall₂_nil_left_iff, eq_comm]
  | cons item items ih =>
    simp only [mapM_cons, bind_ok, pure_ok, ih, forall₂_cons_left_iff]
    grind

theorem mapM_error {f : α → Except ε β} {items : List α} (failed : items.mapM f = .error e) :
    ∃ item ∈ items, f item = .error e := by
  induction items with
  | nil => contradiction
  | cons item items ih =>
    rw [mapM_cons, bind_error] at failed
    rcases failed with here | ⟨_, -, later⟩
    · exact ⟨item, mem_cons_self, here⟩
    · rcases bind_error.mp later with failed | ⟨_, -, done⟩
      · obtain ⟨other, mem, failed⟩ := ih failed
        exact ⟨other, mem_cons_of_mem _ mem, failed⟩
      · contradiction

theorem exists_mapM {f : α → Except ε β} {items : List α}
    (each : ∀ item ∈ items, ∃ res, f item = .ok res) :
    ∃ results, items.mapM f = .ok results := by
  cases outcome : items.mapM f with
  | ok results => exact ⟨results, rfl⟩
  | error cause =>
    obtain ⟨item, mem, failed⟩ := mapM_error outcome
    obtain ⟨res, found⟩ := each item mem
    exact nomatch found.symm.trans failed

@[simp] theorem run_bind_ok {x : StateT σ (Except ε) α} :
    (x >>= f).run s = .ok r ↔ ∃ a s', x.run s = .ok (a, s') ∧ (f a).run s' = .ok r := by
  rw [StateT.run_bind, bind_ok]
  exact Prod.exists

@[simp] theorem run_pure_ok :
    (pure a : StateT σ (Except ε) α).run s = .ok (b, s') ↔ b = a ∧ s' = s := by
  rw [StateT.run_pure, pure_ok, eq_comm, Prod.mk.injEq]

@[simp] theorem run_throw_ok : (throw e : StateT σ (Except ε) α).run s = .ok r ↔ False := by
  simp [throw, throwThe, MonadExceptOf.throw, StateT.lift, StateT.run, bind, Except.bind]

@[simp] theorem run_lift_ok :
    (liftM x : StateT σ (Except ε) α).run s = .ok (a, s') ↔ x = .ok a ∧ s' = s := by
  cases x <;> simp [liftM, monadLift, MonadLift.monadLift, StateT.lift, StateT.run, bind, Except.bind,
    pure, Except.pure, eq_comm]

@[simp] theorem run_get_ok :
    (get : StateT σ (Except ε) σ).run s = .ok (found, s') ↔ found = s ∧ s' = s := by
  rw [StateT.run_get, pure_ok, eq_comm, Prod.mk.injEq]

@[simp] theorem run_modify_ok {f : σ → σ} :
    (modify f : StateT σ (Except ε) PUnit).run s = .ok (u, s') ↔ s' = f s := by
  rw [StateT.run_modify, pure_ok, eq_comm, Prod.mk.injEq]
  exact and_iff_right rfl

@[simp] theorem run_modifyGet_ok {f : σ → α × σ} :
    (modifyGet f : StateT σ (Except ε) α).run s = .ok r ↔ r = f s := by
  rw [StateT.run_modifyGet, pure_ok, eq_comm]

theorem run_bind_of_ok {x : StateT σ (Except ε) α}
    (first : x.run s = .ok (a, s')) : (x >>= f).run s = (f a).run s' := by
  rw [StateT.run_bind, first]
  rfl

theorem run_bind_of_error {x : StateT σ (Except ε) α} (first : x.run s = .error e) :
    (x >>= f).run s = .error e := by
  rw [StateT.run_bind, first]
  rfl

end Success

namespace Lowering

def State.built (s : State) (action : Ir.Build α) : State := { s with builder := (action.run s.builder).2 }

@[simp] theorem build_ok {s s' : State} :
    (build action).run s = .ok (a, s') ↔ a = (action.run s.builder).1 ∧ s' = s.built action := by
  rw [build, Success.run_modifyGet_ok]
  exact Prod.mk.injEq .. ▸ Iff.rfl

@[simp] theorem failName_ok {s : State} :
    (failName ctx line cause : Lower α).run s = .ok r ↔ False := Success.run_throw_ok

@[simp] theorem failType_ok {cause : TypeError} {s : State} :
    (failType ctx line cause : Lower α).run s = .ok r ↔ False := Success.run_throw_ok

end Lowering
end TernLang
