import Mathlib.Logic.Relation
import TernLang.Proofs.Ir.Typing
import TernLang.Proofs.Success
import TernLang.Proofs.Table

/-! Shapes of types whose structs do not contain themselves. The unfolding of such a struct never
runs out, so that a type's shape follows from those of its parts. -/
namespace TernLang

open List

/-- Structs that a value of the type contains. -/
def IrType.structs : IrType → List String
  | struct name => [name]
  | array elem _ => elem.structs
  | _ => []

/-- The arrays of the type have lengths that fit. -/
def IrType.Lengths (fits : Nat → Prop) : IrType → Prop
  | array elem count => fits count ∧ elem.Lengths fits
  | _ => True

instance IrType.decidableLengths (fits : Nat → Prop) [DecidablePred fits] : DecidablePred (IrType.Lengths fits)
  | .array elem _ => @instDecidableAnd _ _ _ (decidableLengths fits elem)
  | .void | .int _ | .half | .float | .double | .pointer | .slice | .struct _ => isTrue trivial

theorem IrType.lengths_any (ty : IrType) : ty.Lengths fun _ => True := by
  induction ty with
  | array elem count ih => exact ⟨trivial, ih⟩
  | _ => trivial

namespace Ir

/-- Every struct is defined, no part is `void`, and arrays are of lengths that fit. -/
inductive Shape.Solid (fits : Nat → Prop) : Shape → Prop where
  | int (bits : Nat) : Solid fits (.int bits)
  | half : Solid fits .half
  | float : Solid fits .float
  | double : Solid fits .double
  | pointer : Solid fits .pointer
  | slice : Solid fits .slice
  | array {elem : Shape} {count : Nat} : fits count → Solid fits elem →
    Solid fits (.array elem count)
  | struct (name : String) {fields : List Shape} (packed : Bool) :
    (∀ field ∈ fields, Solid fits field) → Solid fits (.struct name fields packed)

/-- The shape can be taken apart: its structs are defined and its arrays can be listed. -/
abbrev Shape.Listed : Shape → Prop := Solid (· ≤ capacity)

theorem Shape.ofType_congr {ty : IrType} (same : ∀ name ∈ ty.structs, first name = second name) :
    ofType first ty = ofType second ty := by
  induction ty with
  | struct name => exact same name (mem_singleton_self name)
  | array elem count ih => exact congrArg (Shape.array · count) (ih same)
  | _ => rfl

namespace Module
variable {mod : Module}

/-- Fields have types of the module, and the structs in them are of a lower rank. -/
def Ranked (mod : Module) (rank : String → Nat) : Prop :=
  ∀ name struct, mod.structs.get? name = some struct → ∀ field ∈ struct.fields,
    mod.isSized field ∧ ∀ inner ∈ field.structs, rank inner < rank name

/-- All structs are defined, and none contains itself. -/
def Stratified (mod : Module) : Prop := ∃ rank, mod.Ranked rank

/-- The arrays in structs have lengths that fit. -/
def Spans (mod : Module) (fits : Nat → Prop) : Prop :=
  ∀ name struct, mod.structs.get? name = some struct → ∀ field ∈ struct.fields, field.Lengths fits

variable {name : String} {struct : Struct} {ty : IrType}

theorem exists_struct (sized : mod.isSized (.struct name)) :
    ∃ struct, mod.structs.get? name = some struct := Option.isSome_iff_exists.mp sized

theorem struct_of_isSized (sized : mod.isSized ty) (inner : name ∈ ty.structs) :
    ∃ struct, mod.structs.get? name = some struct := by
  induction ty with
  | struct other =>
    cases mem_singleton.mp inner
    exact exists_struct sized
  | array elem count ih => exact ih sized inner
  | _ => contradiction

theorem solid_of_structs (sized : mod.isSized ty) (lengths : ty.Lengths fits)
    (solid : ∀ name ∈ ty.structs, (mod.shape (.struct name)).Solid fits) :
    (mod.shape ty).Solid fits := by
  induction ty with
  | void => contradiction
  | struct name => exact solid name (mem_singleton_self name)
  | array elem count ih => exact .array lengths.1 (ih sized lengths.2 solid)
  | int bits => exact .int bits
  | half => exact .half
  | float => exact .float
  | double => exact .double
  | pointer => exact .pointer
  | slice => exact .slice

def Contains (mod : Module) (outer inner : String) : Prop :=
  ∃ struct, mod.structs.get? outer = some struct ∧ ∃ field ∈ struct.fields, inner ∈ field.structs

def Acyclic (mod : Module) : Prop := ∀ name, ¬ Relation.TransGen mod.Contains name name

def below (mod : Module) (rank : String → Nat) (bound : Nat) : Nat :=
  mod.structs.keys.countP (rank · < bound)

theorem countP_lt {α : Type} {few many : α → Bool} {items : List α}
    (fewer : ∀ item, few item → many item) {item : α} (mem : item ∈ items) (out : ¬ few item)
    (within : many item) : items.countP few < items.countP many := by
  induction items with
  | nil => contradiction
  | cons first items ih =>
    have mono : items.countP few ≤ items.countP many := countP_mono_left fun other _ => fewer other
    rcases mem_cons.mp mem with rfl | later
    · rw [countP_cons_of_neg out, countP_cons_of_pos within]
      exact Nat.lt_succ_of_le mono
    · grind

section
variable (found : mod.structs.get? name = some struct)
include found

theorem mem_keys : name ∈ mod.structs.keys := mem_map.mpr ⟨_, Table.mem_of_find found, rfl⟩

theorem below_lt {rank : String → Nat} {bound : Nat} (less : rank name < bound) :
    mod.below rank (rank name) < mod.below rank bound := by
  refine countP_lt (fun other lower => ?_) (mem_keys found) (by simp) (by simpa using less)
  simp only [decide_eq_true_eq] at lower ⊢
  omega

theorem below_lt_size : mod.below rank (rank name) < mod.structs.size := by
  refine Nat.lt_of_lt_of_le (below_lt found (Nat.lt_succ_self _)) ?_
  refine Nat.le_trans countP_le_length (Nat.le_of_eq ?_)
  exact length_map ..

end

def Nested (mod : Module) (rank : String → Nat) : Prop :=
  ∀ name struct, mod.structs.get? name = some struct → ∀ field ∈ struct.fields, ∀ inner ∈ field.structs,
    rank inner < rank name

theorem Ranked.nested (ranked : mod.Ranked rank) : mod.Nested rank :=
  fun name struct found field mem => (ranked name struct found field mem).2

/-- Rank a struct by the number of structs in it. -/
theorem Acyclic.exists_nested (acyclic : mod.Acyclic) : ∃ rank, mod.Nested rank := by
  classical
  let inside (name : String) : Nat := mod.structs.keys.countP (Relation.TransGen mod.Contains name ·)
  refine ⟨fun name => if (mod.structs.get? name).isSome then inside name + 1 else 0, ?_⟩
  intro name struct found field mem inner within
  have contains : mod.Contains name inner := ⟨struct, found, field, mem, within⟩
  simp only [found, Option.isSome_some, if_true]
  cases there : mod.structs.get? inner with
  | none => exact Nat.succ_pos _
  | some other =>
    refine Nat.succ_lt_succ (countP_lt (fun deep reached => ?_) (mem_keys there) ?_ ?_)
    · rw [decide_eq_true_eq] at reached ⊢
      exact .head contains reached
    · simpa using acyclic inner
    · simpa using Relation.TransGen.single contains

section
variable {rank : String → Nat} (nested : mod.Nested rank)
include nested

/-- More fuel than there are structs below does not change the shape. -/
theorem Nested.structShape_eq (enough : mod.below rank (rank name) < fuel)
    (enough' : mod.below rank (rank name) < fuel') :
    mod.structShape fuel name = mod.structShape fuel' name := by
  induction fuel generalizing fuel' name with
  | zero => omega
  | succ fuel ih =>
    obtain ⟨fuel', rfl⟩ := Nat.exists_eq_add_one_of_ne_zero (Nat.ne_zero_of_lt enough')
    cases found : mod.structs.get? name with
    | none => simp only [structShape, found]
    | some struct =>
      simp only [structShape, found]
      refine congrArg (Shape.struct name · struct.packed) (map_congr_left fun field mem => ?_)
      refine Shape.ofType_congr fun inner within => ?_
      cases there : mod.structs.get? inner with
      | none => cases fuel <;> cases fuel' <;> simp only [structShape, there]
      | some other =>
        have fewer := below_lt there (nested name struct found field mem inner within)
        exact ih (by omega) (by omega)

theorem Nested.shape_struct (found : mod.structs.get? name = some struct) :
    mod.shape (.struct name) = .struct name (struct.fields.map mod.shape) struct.packed := by
  have few : mod.below rank (rank name) < mod.structs.size := below_lt_size found
  obtain ⟨size, filled⟩ := Nat.exists_eq_add_one_of_ne_zero (Nat.ne_zero_of_lt few)
  have unfolded : mod.shape (.struct name) = mod.structShape (size + 1) name := by
    rw [← filled]
    rfl
  rw [unfolded, structShape, found]
  refine congrArg (Shape.struct name · struct.packed) (map_congr_left fun field mem => ?_)
  refine Shape.ofType_congr fun inner within => ?_
  cases there : mod.structs.get? inner with
  | none =>
    rw [filled]
    cases size <;> simp only [structShape, there]
  | some other =>
    have fewer := below_lt there (nested name struct found field mem inner within)
    exact nested.structShape_eq (by omega) (by omega)

end

section
variable {rank : String → Nat} (ranked : mod.Ranked rank)
include ranked

theorem Ranked.shape_struct (found : mod.structs.get? name = some struct) :
    mod.shape (.struct name) = .struct name (struct.fields.map mod.shape) struct.packed :=
  ranked.nested.shape_struct found

theorem Ranked.solid_struct (spans : mod.Spans fits) (found : mod.structs.get? name = some struct) :
    (mod.shape (.struct name)).Solid fits := by
  induction less : rank name using Nat.strongRecOn generalizing name struct with
  | ind _ smaller =>
    rw [ranked.shape_struct found]
    refine .struct name struct.packed fun field mem => ?_
    obtain ⟨ty, within, rfl⟩ := mem_map.mp mem
    obtain ⟨sized, lower⟩ := ranked name struct found ty within
    refine solid_of_structs sized (spans name struct found ty within) fun inner inside => ?_
    obtain ⟨other, there⟩ := struct_of_isSized sized inside
    exact smaller (rank inner) (less ▸ lower inner inside) there rfl

theorem Ranked.solid_of_spans (spans : mod.Spans fits) (sized : mod.isSized ty)
    (lengths : ty.Lengths fits) : (mod.shape ty).Solid fits := by
  refine solid_of_structs sized lengths fun name within => ?_
  obtain ⟨struct, found⟩ := struct_of_isSized sized within
  exact ranked.solid_struct spans found

theorem Ranked.solid (sized : mod.isSized ty) : (mod.shape ty).Solid fun _ => True :=
  ranked.solid_of_spans (fun _ _ _ field _ => field.lengths_any) sized ty.lengths_any

end

end Module

namespace Shape

theorem exists_layouts (known : ∀ field ∈ fields, ∃ found, field.layout = .ok found) :
    ∃ found, layouts fields = .ok found := by
  induction fields with
  | nil => exact ⟨[], rfl⟩
  | cons field fields ih =>
    obtain ⟨first, here⟩ := known field mem_cons_self
    obtain ⟨rest, later⟩ := ih fun other mem => known other (mem_cons_of_mem _ mem)
    rw [layouts, here, later]
    exact ⟨_, rfl⟩

theorem Solid.exists_layout {shape : Shape} (solid : shape.Solid fits) :
    ∃ found, shape.layout = .ok found := by
  induction solid with
  | array count _ ih =>
    obtain ⟨found, known⟩ := ih
    rw [layout, known]
    exact ⟨_, rfl⟩
  | struct name packed _ ih =>
    obtain ⟨found, known⟩ := exists_layouts ih
    rw [layout, known]
    exact ⟨_, rfl⟩
  | _ => exact ⟨_, rfl⟩

theorem length_layouts {found : List Layout} (known : layouts fields = .ok found) :
    found.length = fields.length := by
  induction fields generalizing found with
  | nil =>
    cases known
    rfl
  | cons field fields ih =>
    simp only [layouts, Success.bind_ok, Success.pure_ok] at known
    obtain ⟨first, _, rest, later, rfl⟩ := known
    exact congrArg (· + 1) (ih later)

end Shape

theorem Layout.length_place (packed : Bool) (off : Nat) (fields : List Layout) :
    (place packed off fields).1.length = fields.length := by
  induction fields generalizing off with
  | nil => rfl
  | cons field fields ih => exact congrArg (· + 1) (ih _)

section
variable {mod : Module} {rank : String → Nat} {ty part : IrType} {idx : Nat}

theorem Module.Ranked.isSized_part (ranked : mod.Ranked rank) (sized : mod.isSized ty)
    (there : mod.partType? ty idx = some part) : mod.isSized part := by
  cases ty with
  | struct name =>
    obtain ⟨struct, found, field⟩ := Option.bind_eq_some_iff.mp there
    exact (ranked name struct found part (mem_of_getElem? field)).1
  | slice =>
    match idx, there with
    | 0, there =>
      cases there
      rfl
    | 1, there =>
      cases there
      rfl
  | array elem count =>
    simp only [Module.partType?, Option.ite_none_right_eq_some, Option.some.injEq] at there
    exact there.2 ▸ sized
  | _ => contradiction

theorem Module.Spans.lengths_part (spans : mod.Spans fits) (lengths : ty.Lengths fits)
    (there : mod.partType? ty idx = some part) : part.Lengths fits := by
  cases ty with
  | struct name =>
    obtain ⟨struct, found, field⟩ := Option.bind_eq_some_iff.mp there
    exact spans name struct found part (mem_of_getElem? field)
  | slice =>
    have mem : part ∈ [.pointer, .i64] := mem_of_getElem? there
    rcases mem_pair.mp mem with rfl | rfl <;> trivial
  | array elem count =>
    simp only [Module.partType?, Option.ite_none_right_eq_some, Option.some.injEq] at there
    exact there.2 ▸ lengths.2
  | _ => contradiction

theorem Module.Ranked.exists_part (ranked : mod.Ranked rank) (sized : mod.isSized ty)
    (lengths : ty.Lengths (· ≤ Shape.capacity)) (there : mod.partType? ty idx = some part) :
    ∃ off, (mod.shape ty).part? idx = .ok (some (off, mod.shape part)) := by
  cases ty with
  | struct name =>
    obtain ⟨struct, found, field⟩ := Option.bind_eq_some_iff.mp there
    have solid := ranked.solid sized
    rw [ranked.shape_struct found] at solid ⊢
    cases solid with
    | struct _ _ solid =>
      obtain ⟨layouts, known⟩ := Shape.exists_layouts fun field mem => (solid field mem).exists_layout
      have length := (Layout.length_place struct.packed 0 layouts).trans (Shape.length_layouts known)
      have shaped : (struct.fields.map mod.shape)[idx]? = some (mod.shape part) := by
        rw [getElem?_map, field]
        rfl
      have inside : idx < (Layout.place struct.packed 0 layouts).1.length := by
        rw [length]
        exact (List.getElem?_eq_some_iff.mp shaped).1
      refine ⟨(Layout.place struct.packed 0 layouts).1[idx], ?_⟩
      simp only [Shape.part?, Shape.parts, known]
      exact congrArg Except.ok (getElem?_zip_eq_some.mpr ⟨getElem?_eq_getElem inside, shaped⟩)
  | slice =>
    match idx, there with
    | 0, there =>
      cases there
      exact ⟨0, rfl⟩
    | 1, there =>
      cases there
      exact ⟨8, rfl⟩
  | array elem count =>
    simp only [Module.partType?, Option.ite_none_right_eq_some, Option.some.injEq] at there
    obtain ⟨less, rfl⟩ := there
    have solid : (mod.shape elem).Solid fun _ => True := ranked.solid sized
    obtain ⟨layout, known⟩ := solid.exists_layout
    refine ⟨idx * layout.size, ?_⟩
    have shaped : mod.shape (.array elem count) = .array (mod.shape elem) count := rfl
    rw [shaped, Shape.part?, if_neg (Nat.not_lt.mpr lengths.1), known]
    exact congrArg Except.ok (if_pos less)
  | _ => contradiction

end
end Ir
end TernLang
