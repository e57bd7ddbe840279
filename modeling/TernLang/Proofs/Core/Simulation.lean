import TernLang.Proofs.Core.Typing
import TernLang.Proofs.Machine.Reach

/-! What it means that the machine follows the source. The machine may give up where the source
goes on, for want of addresses or of depth; otherwise it ends as the source does, and as long as
the source has no answer it keeps running. -/
namespace TernLang.Core

open Machine (Image Reach Calm regionLimit)

variable {α β : Type}

section
variable (image : Image) (depth : Nat)

/-- The machine runs out of addresses, or calls are nested too deep. -/
def GivesUp (bound : Nat) (m : Machine.State) : Prop :=
  (∃ n m', Reach image depth n m m' ∧ regionLimit < m'.store.memory.count) ∨
  ∃ n m' sym, Reach image depth n m m' ∧ Calm m' ∧
    Machine.next image depth m' = .error (.fault (.callDepth depth sym)) ∧ depth ≤ bound

/-- The machine ends as the source does. Without an answer it runs for at least so many steps. -/
def Follows (fuel : Nat) (m : Machine.State) (post : α → Machine.State → Prop) : Except Stop α → Prop
  | .ok a => ∃ n m', Reach image depth n m m' ∧ post a m'
  | .error .divisionByZero => ∃ n m', Reach image depth n m m' ∧ Calm m' ∧
      Machine.next image depth m' = .error (.fault .divisionByZero)
  | .error .outOfFuel => ∃ n m', fuel ≤ n ∧ Reach image depth n m m'
  | .error .illFormed => False

def Simulates (bound fuel : Nat) (m : Machine.State) (outcome : Except Stop α)
    (post : α → Machine.State → Prop) : Prop :=
  GivesUp image depth bound m ∨ Follows image depth fuel m post outcome

end

variable {image : Image} {depth bound fuel n : Nat} {m m' : Machine.State}

theorem GivesUp.after (reach : Reach image depth n m m') (stuck : GivesUp image depth bound m') :
    GivesUp image depth bound m := by
  rcases stuck with ⟨k, last, more, full⟩ | ⟨k, last, sym, more, stops⟩
  · exact .inl ⟨n + k, last, reach.trans more, full⟩
  · exact .inr ⟨n + k, last, sym, reach.trans more, stops⟩

namespace Simulates

variable {outcome : Except Stop α} {post post' : α → Machine.State → Prop}

theorem ok (holds : post a m) : Simulates image depth bound fuel m (.ok a) post :=
  .inr ⟨0, m, .here m, holds⟩

theorem after (reach : Reach image depth n m m')
    (rest : Simulates image depth bound fuel m' outcome post) :
    Simulates image depth bound (n + fuel) m outcome post := by
  rcases rest with stuck | follows
  · exact .inl (stuck.after reach)
  · refine .inr ?_
    cases outcome with
    | ok a =>
      obtain ⟨k, last, more, holds⟩ := follows
      exact ⟨n + k, last, reach.trans more, holds⟩
    | error stop =>
      cases stop with
      | illFormed => exact follows
      | divisionByZero =>
        obtain ⟨k, last, more, stops⟩ := follows
        exact ⟨n + k, last, reach.trans more, stops⟩
      | outOfFuel =>
        obtain ⟨k, last, enough, more⟩ := follows
        exact ⟨n + k, last, Nat.add_le_add_left enough n, reach.trans more⟩

theorem weaken (simulates : Simulates image depth bound fuel' m outcome post) (le : fuel ≤ fuel') :
    Simulates image depth bound fuel m outcome post := by
  refine Or.imp_right (fun follows => ?_) simulates
  match outcome, follows with
  | .ok _, follows => exact follows
  | .error .divisionByZero, follows => exact follows
  | .error .outOfFuel, ⟨n, last, enough, reach⟩ => exact ⟨n, last, Nat.le_trans le enough, reach⟩

theorem step (reach : Reach image depth n m m')
    (rest : Simulates image depth bound fuel m' outcome post) :
    Simulates image depth bound fuel m outcome post :=
  (after reach rest).weaken (Nat.le_add_left ..)

theorem bind {post' : β → Machine.State → Prop}
    (first : Simulates image depth bound fuel m outcome post)
    (rest : ∀ a m', outcome = .ok a → post a m' → Simulates image depth bound fuel m' (f a) post') :
    Simulates image depth bound fuel m (outcome >>= f) post' := by
  rcases first with stuck | follows
  · exact .inl stuck
  · cases outcome with
    | ok a =>
      obtain ⟨n, m', reach, holds⟩ := follows
      exact step reach (rest a m' rfl holds)
    | error stop =>
      refine .inr ?_
      cases stop with
      | illFormed => exact follows
      | divisionByZero => exact follows
      | outOfFuel => exact follows

theorem mono (simulates : Simulates image depth bound fuel m outcome post)
    (implies : ∀ a m', outcome = .ok a → post a m' → post' a m') :
    Simulates image depth bound fuel m outcome post' := by
  refine Or.imp_right (fun follows => ?_) simulates
  match outcome, follows with
  | .ok a, ⟨n, m', reach, holds⟩ => exact ⟨n, m', reach, implies a m' rfl holds⟩
  | .error .divisionByZero, follows => exact follows
  | .error .outOfFuel, follows => exact follows

theorem andThen (simulates : Simulates image depth bound fuel m outcome post) (last : ∀ a m',
      outcome = .ok a → post a m' → ∃ n m'', Reach image depth n m' m'' ∧ post' a m'') :
    Simulates image depth bound fuel m outcome post' := by
  refine Or.imp_right (fun follows => ?_) simulates
  match outcome, follows with
  | .ok a, ⟨n, m', reach, holds⟩ =>
    obtain ⟨k, m'', more, holds⟩ := last a m' rfl holds
    exact ⟨n + k, m'', reach.trans more, holds⟩
  | .error .divisionByZero, follows => exact follows
  | .error .outOfFuel, follows => exact follows

theorem divides (calm : Calm m)
    (faults : Machine.next image depth m = .error (.fault .divisionByZero)) :
    Simulates image depth bound fuel m (.error .divisionByZero) post :=
  .inr ⟨0, m, .here m, calm, faults⟩

end Simulates

end TernLang.Core
