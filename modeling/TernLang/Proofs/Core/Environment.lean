import TernLang.Proofs.Core.Activation

/-! Variables of the source and slots of the machine. Every variable has a slot of its own, and so
has the result; a variable that is assigned changes its slot and no other. -/
namespace TernLang.Core

open List
open Lowering (Context ExitSlot)
open Machine (Memory)

variable {act : Activation} {memory memory' : Memory} {ctx : Context} {scope : Scope} {env : Env}
  {name : String} {var : Variable} {datum : Datum}

def fallen (fn : Function) : Option Datum := (Scalar.ofType? fn.result).map (.of · 0)

namespace Activation

def VarHolds (act : Activation) (memory : Memory) (var : Variable) (datum : Datum) : Prop :=
  ∃ reg, var.slot = .register reg .pointer ∧ var.type = datum.scalar.type ∧
    act.SlotHolds memory reg datum

/-- One scope: the same names, with their values in their slots. -/
structure TableHolds (act : Activation) (memory : Memory) (vars : Table String Variable)
    (data : Table String Datum) : Prop where
  found : ∀ name var, vars.get? name = some var →
    ∃ datum, data.get? name = some datum ∧ act.VarHolds memory var datum
  absent : ∀ name, vars.get? name = none → data.get? name = none

/-- The slot of the result holds it; a function without result has none. -/
def ExitHolds (act : Activation) (memory : Memory) (ctx : Context) : Option Datum → Prop
  | none => ctx.exit = none ∧ ctx.function.result = .void
  | some datum => ctx.function.result = datum.scalar.type ∧ ∃ reg,
      ctx.exit = some ⟨.register reg .pointer, .int datum.scalar.bits⟩ ∧ act.SlotHolds memory reg datum

end Activation

def Apart : List (Table String Variable) → Prop
  | [] => True
  | table :: tables =>
    (∀ a b x y, table.get? a = some x → table.get? b = some y → x.slot = y.slot → a = b) ∧
    (∀ a x, table.get? a = some x → ∀ other ∈ tables, ∀ b y, other.get? b = some y → x.slot ≠ y.slot) ∧
    Apart tables

/-- The variables of the source are in their slots. -/
structure ScopeHolds (act : Activation) (memory : Memory) (scope : Scope) (env : Env) : Prop where
  tables : Forall₂ (act.TableHolds memory) (scope.locals :: scope.outer) env
  apart : Apart (scope.locals :: scope.outer)

def Unused (scope : Scope) (slot : Ir.Value) : Prop :=
  ∀ table ∈ scope.locals :: scope.outer, ∀ name var, table.get? name = some var → var.slot ≠ slot

/-- The variables are in their slots, and so is the result as long as none is given. -/
structure EnvHolds (act : Activation) (memory : Memory) (ctx : Context) (scope : Scope)
    (env : Env) : Prop
    extends ScopeHolds act memory scope env where
  exit : act.ExitHolds memory ctx (fallen ctx.function)
  free : ∀ slot, ctx.exit = some slot → Unused scope slot.pointer

namespace Activation

def KeptBut (act : Activation) (reg : Nat) (memory memory' : Memory) : Prop :=
  ∀ other d, other ≠ reg → act.SlotHolds memory other d → act.SlotHolds memory' other d

theorem VarHolds.mono (holds : act.VarHolds memory var datum)
    (kept : ∀ reg, var.slot = .register reg .pointer → ∀ d, act.SlotHolds memory reg d →
      act.SlotHolds memory' reg d) : act.VarHolds memory' var datum := by
  obtain ⟨reg, slot, ty, val⟩ := holds
  exact ⟨reg, slot, ty, kept reg slot _ val⟩

theorem TableHolds.mono (holds : act.TableHolds memory vars data)
    (kept : ∀ name var, vars.get? name = some var → ∀ reg, var.slot = .register reg .pointer →
      ∀ d, act.SlotHolds memory reg d → act.SlotHolds memory' reg d) :
    act.TableHolds memory' vars data where
  found name var there := by
    obtain ⟨datum, val, here⟩ := holds.found name var there
    exact ⟨datum, val, here.mono (kept name var there)⟩
  absent := holds.absent

theorem ExitHolds.mono (holds : act.ExitHolds memory ctx res)
    (kept : ∀ reg ty, ctx.exit = some ⟨.register reg .pointer, ty⟩ →
      ∀ d, act.SlotHolds memory reg d → act.SlotHolds memory' reg d) :
    act.ExitHolds memory' ctx res := by
  cases res with
  | none => exact holds
  | some datum =>
    obtain ⟨ty, reg, exit, val⟩ := holds
    exact ⟨ty, reg, exit, kept reg _ exit _ val⟩

end Activation

theorem EnvHolds.kept (holds : EnvHolds act memory ctx scope env) (kept : act.Kept memory memory') :
    EnvHolds act memory' ctx scope env where
  tables := holds.tables.imp fun _ _ table => table.mono fun _ _ _ _ _ _ val => val.kept kept
  apart := holds.apart
  exit := holds.exit.mono fun _ _ _ _ val => val.kept kept
  free := holds.free

theorem ScopeHolds.lookup (holds : ScopeHolds act memory scope env)
    (found : scope.lookup? name = some var) :
    ∃ datum, env.get name = .ok datum ∧ act.VarHolds memory var datum := by
  obtain ⟨tables, -⟩ := holds
  unfold Scope.lookup? at found
  unfold Env.get
  generalize scope.locals :: scope.outer = scopes at tables found
  induction tables with
  | nil => contradiction
  | @cons vars data outer rest first others ih =>
    rw [findSome?_cons] at found ⊢
    cases there : vars.get? name with
    | some own =>
      rw [there] at found
      cases found
      obtain ⟨datum, val, here⟩ := first.found name var there
      rw [val]
      exact ⟨datum, rfl, here⟩
    | none =>
      rw [there] at found
      rw [first.absent name there]
      exact ih found

theorem EnvHolds.child (holds : EnvHolds act memory ctx scope env) :
    EnvHolds act memory ctx scope.child (.empty :: env) where
  tables := .cons ⟨fun _ _ found => by contradiction, fun _ _ => rfl⟩ holds.tables
  apart := ⟨fun _ _ _ _ found => by contradiction, fun _ _ found => by contradiction, holds.apart⟩
  exit := holds.exit
  free slot exit table mem name var found := by
    rcases mem_cons.mp mem with rfl | mem
    · contradiction
    · exact holds.free slot exit table mem name var found

theorem EnvHolds.parent {inner : Scope} (holds : EnvHolds act memory ctx inner env)
    (same : inner.outer = scope.locals :: scope.outer) :
    EnvHolds act memory ctx scope env.tail where
  tables := by
    obtain ⟨_, _, -, others, rfl⟩ := forall₂_cons_left_iff.mp holds.tables
    exact same ▸ others
  apart := same ▸ holds.apart.2.2
  exit := holds.exit
  free slot exit table mem := holds.free slot exit table (mem_cons_of_mem _ (same ▸ mem))

theorem ScopeHolds.define (holds : ScopeHolds act memory scope env)
    (val : act.VarHolds memory var datum) (fresh : Unused scope var.slot) :
    ScopeHolds act memory { scope with locals := scope.locals.insert name var }
      (env.define name datum) where
  tables := by
    obtain ⟨data, rest, first, others, rfl⟩ := forall₂_cons_left_iff.mp holds.tables
    refine .cons ⟨fun other x found => ?_, fun other absent => ?_⟩ others
    · rw [Table.get?_insert] at found ⊢
      split at found
      · next same =>
        cases found
        exact ⟨datum, if_pos same, val⟩
      · next ne =>
        rw [if_neg ne]
        exact first.found other x found
    · rw [Table.get?_insert] at absent ⊢
      split at absent
      · contradiction
      · next ne =>
        rw [if_neg ne]
        exact first.absent other absent
  apart := by
    obtain ⟨own, others, rest⟩ := holds.apart
    refine ⟨fun a b x y foundA foundB same => ?_, fun a x found other mem b y found' => ?_, rest⟩
    · rw [Table.get?_insert] at foundA foundB
      split at foundA <;> split at foundB
      · next sameA sameB => rw [sameA, sameB]
      · next sameA _ =>
        cases foundA
        exact absurd same.symm (fresh _ mem_cons_self b y foundB)
      · next _ sameB =>
        cases foundB
        exact absurd same (fresh _ mem_cons_self a x foundA)
      · exact own a b x y foundA foundB same
    · rw [Table.get?_insert] at found
      split at found
      · cases found
        exact (fresh other (mem_cons_of_mem _ mem) b y found').symm
      · exact others a x found other mem b y found'

theorem Unused.define (unused : Unused scope slot) (ne : var.slot ≠ slot) :
    Unused { scope with locals := scope.locals.insert name var } slot := by
  intro table mem other x found
  rcases mem_cons.mp mem with rfl | mem
  · rw [Table.get?_insert] at found
    split at found
    · cases found
      exact ne
    · exact unused _ mem_cons_self other x found
  · exact unused table (mem_cons_of_mem _ mem) other x found

theorem EnvHolds.define (holds : EnvHolds act memory ctx scope env)
    (val : act.VarHolds memory var datum) (fresh : Unused scope var.slot)
    (free : ∀ slot, ctx.exit = some slot → var.slot ≠ slot.pointer) :
    EnvHolds act memory ctx { scope with locals := scope.locals.insert name var }
      (env.define name datum) where
  toScopeHolds := holds.toScopeHolds.define val fresh
  exit := holds.exit
  free slot exit := (holds.free slot exit).define (free slot exit)

variable {reg : Nat}

theorem tables_assign (tables : Forall₂ (act.TableHolds memory) scopes env) (apart : Apart scopes)
    (found : scopes.findSome? (·.get? name) = some var) (slot : var.slot = .register reg .pointer)
    (ty : var.type = datum.scalar.type) (val : act.SlotHolds memory' reg datum)
    (kept : act.KeptBut reg memory memory') :
    Forall₂ (act.TableHolds memory') scopes (env.assign name datum) := by
  -- A variable with another slot keeps its value.
  have others {vars : Table String Variable} {data : Table String Datum} (holds : act.TableHolds memory vars data)
      (differ : ∀ other x, vars.get? other = some x → x.slot ≠ var.slot) : act.TableHolds memory' vars data :=
    holds.mono fun other x there reg' slot' d => kept reg' d (by
      rintro rfl
      exact differ other x there (slot'.trans slot.symm))
  induction tables with
  | nil => contradiction
  | @cons vars data outer rest first later ih =>
    rw [findSome?_cons] at found
    rw [Env.assign]
    obtain ⟨own, differ, apart⟩ := apart
    cases there : vars.get? name with
    | some mine =>
      rw [there] at found
      cases found
      obtain ⟨old, known, -⟩ := first.found name var there
      rw [if_pos (by rw [Table.contains, known]; rfl)]
      refine .cons ⟨fun other x found => ?_, fun other absent => ?_⟩ ?_
      · rw [Table.get?_insert]
        by_cases same : other = name
        · subst same
          rw [there] at found
          cases found
          exact ⟨datum, if_pos rfl, reg, slot, ty, val⟩
        · rw [if_neg same]
          obtain ⟨d, known, reg', slot', ty', val'⟩ := first.found other x found
          refine ⟨d, known, reg', slot', ty', kept reg' d ?_ val'⟩
          rintro rfl
          exact same (own other name x var found there (slot'.trans slot.symm))
      · rw [Table.get?_insert, if_neg]
        · exact first.absent other absent
        · rintro rfl
          rw [there] at absent
          contradiction
      · have apart : ∀ table ∈ outer, ∀ other x, table.get? other = some x → x.slot ≠ var.slot :=
          fun table mem other x found => (differ name var there table mem other x found).symm
        exact ((forall₂_and_left _ _).mpr ⟨apart, later⟩).imp fun _ _ both => others both.2 both.1
    | none =>
      rw [there] at found
      rw [if_neg (by rw [Table.contains, first.absent name there]; decide)]
      refine .cons (others first fun other x known same => ?_) (ih apart found)
      obtain ⟨table, mem, there'⟩ := exists_of_findSome?_eq_some found
      exact differ other x known table mem name var there' same

theorem EnvHolds.assign (holds : EnvHolds act memory ctx scope env)
    (found : scope.lookup? name = some var) (slot : var.slot = .register reg .pointer)
    (ty : var.type = datum.scalar.type) (val : act.SlotHolds memory' reg datum)
    (kept : act.KeptBut reg memory memory') :
    EnvHolds act memory' ctx scope (env.assign name datum) where
  tables := tables_assign holds.tables holds.apart found slot ty val kept
  apart := holds.apart
  exit := holds.exit.mono fun reg' ty' exit d => kept reg' d (by
    rintro rfl
    obtain ⟨table, mem, there⟩ := exists_of_findSome?_eq_some found
    exact holds.free _ exit table mem name var there slot)
  free := holds.free

theorem ScopeHolds.fill (holds : ScopeHolds act memory scope env)
    (kept : act.KeptBut reg memory memory') (fresh : Unused scope (.register reg .pointer)) :
    ScopeHolds act memory' scope env where
  tables := ((forall₂_and_left _ _).mpr ⟨fresh, holds.tables⟩).imp fun _ _ ⟨fresh, table⟩ =>
    table.mono fun other x there reg' slot' d => kept reg' d (by
      rintro rfl
      exact fresh other x there slot')
  apart := holds.apart

theorem EnvHolds.fill (holds : EnvHolds act memory ctx scope env)
    (kept : act.KeptBut reg memory memory') (fresh : Unused scope (.register reg .pointer))
    (free : ∀ slot, ctx.exit = some slot → slot.pointer ≠ .register reg .pointer) :
    EnvHolds act memory' ctx scope env where
  toScopeHolds := holds.toScopeHolds.fill kept fresh
  exit := holds.exit.mono fun reg' ty' exit d => kept reg' d (by
    rintro rfl
    exact free _ exit rfl)
  free := holds.free

end TernLang.Core
