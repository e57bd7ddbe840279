import Mathlib.Algebra.Ring.Nat
import Mathlib.Order.Bounds.Basic
import TernLang.Proofs.Ir.Layout

/-! Layouts are sound, and as small as alignment allows: every field starts at the first place
behind the field before it that its alignment allows, and a struct ends at the first one behind its
fields. -/
namespace TernLang.Ir

open List

theorem alignTo_isLeast (offset : Nat) (positive : 0 < align) :
    IsLeast {place | offset ≤ place ∧ align ∣ place} (alignTo offset align) := by
  refine ⟨⟨le_alignTo offset align, ?_⟩, ?_⟩
  · unfold alignTo
    split
    · next small => exact (show align = 1 by omega) ▸ Nat.one_dvd offset
    · exact Nat.dvd_mul_left ..
  · rintro _ ⟨behind, count, rfl⟩
    unfold alignTo
    split
    · exact behind
    · rw [Nat.mul_comm align]
      refine Nat.mul_le_mul_right _ (Nat.lt_succ_iff.mp (Nat.div_lt_of_lt_mul ?_))
      rw [Nat.mul_succ]
      omega

theorem foldl_max_isGreatest (numbers : List Nat) (first : Nat) :
    IsGreatest {number | number = first ∨ number ∈ numbers} (numbers.foldl max first) := by
  induction numbers generalizing first with
  | nil => exact ⟨.inl rfl, by simp [upperBounds]⟩
  | cons number numbers ih =>
    obtain ⟨mem, above⟩ := ih (max first number)
    have both := above (.inl rfl)
    constructor
    · rcases mem with same | mem
      · rcases Nat.le_total first number with le | le
        · exact .inr (mem_cons.mpr (.inl (same.trans (Nat.max_eq_right le))))
        · exact .inl (same.trans (Nat.max_eq_left le))
      · exact .inr (mem_cons_of_mem _ mem)
    · rintro other (rfl | mem)
      · exact (Nat.le_max_left ..).trans both
      · rcases mem_cons.mp mem with rfl | mem
        · exact (Nat.le_max_right ..).trans both
        · exact above (.inr mem)

theorem Module.Nested.acyclic {mod : Module} (nested : mod.Nested rank) : mod.Acyclic := by
  have falls {outer inner : String} (contains : Relation.TransGen mod.Contains outer inner) :
      rank inner < rank outer := by
    refine Relation.TransGen.trans_induction_on contains ?_ fun _ _ first second => second.trans first
    rintro outer inner ⟨struct, found, field, mem, within⟩
    exact nested outer struct found field mem inner within
  exact fun name contains => Nat.lt_irrefl _ (falls contains)

namespace Layout

/-- The alignment is a power of two and divides the size. -/
structure Regular (layout : Layout) : Prop where
  align : ∃ exponent, layout.align = 2 ^ exponent
  size : layout.align ∣ layout.size

theorem Regular.positive {layout : Layout} (regular : layout.Regular) : 0 < layout.align := by
  obtain ⟨_, same⟩ := regular.align
  exact same ▸ Nat.two_pow_pos _

/-- Fields follow an offset, each as early as its alignment allows; in a packed struct it allows
everything. -/
inductive Placed (packed : Bool) : (offset : Nat) → List Layout → (starts : List Nat) →
    (finish : Nat) → Prop
  | nil (offset : Nat) : Placed packed offset [] [] offset
  | cons {offset start finish : Nat} {field : Layout} {fields : List Layout} {starts : List Nat} :
    IsLeast {place | offset ≤ place ∧ (if packed then 1 else field.align) ∣ place} start →
    Placed packed (start + field.size) fields starts finish →
    Placed packed offset (field :: fields) (start :: starts) finish

/-- A struct with these fields: it is as large and as aligned as they make it, and they lie in it
side by side. -/
structure Fits (packed : Bool) (fields : List Layout) (starts : List Nat)
    (layout : Layout) : Prop where
  placed : ∃ finish, Placed packed 0 fields starts finish ∧
    IsLeast {size | finish ≤ size ∧ layout.align ∣ size} layout.size
  align :
    IsGreatest {align | align = 1 ∨ packed = false ∧ align ∈ fields.map (·.align)} layout.align
  apart : (starts.zip fields).Pairwise fun a b => a.1 + a.2.size ≤ b.1
  inside : ∀ pair ∈ starts.zip fields, pair.1 + pair.2.size ≤ layout.size
  packed : packed → layout.size = (fields.map (·.size)).sum

variable {packed : Bool} {offset finish : Nat} {fields : List Layout} {starts : List Nat}

theorem placed_place (regular : ∀ field ∈ fields, field.Regular) :
    Placed packed offset fields (place packed offset fields).1 (place packed offset fields).2 := by
  induction fields generalizing offset with
  | nil => exact .nil offset
  | cons field fields ih =>
    obtain ⟨here, rest⟩ := forall_mem_cons.mp regular
    rw [place_cons]
    refine .cons ?_ (ih rest)
    unfold start
    split
    · exact ⟨⟨Nat.le_refl _, Nat.one_dvd _⟩, fun _ behind => behind.1⟩
    · exact alignTo_isLeast offset here.positive

theorem Placed.apart (placed : Placed packed offset fields starts finish) :
    offset ≤ finish ∧
      (∀ pair ∈ starts.zip fields, offset ≤ pair.1 ∧ pair.1 + pair.2.size ≤ finish) ∧
      (starts.zip fields).Pairwise fun a b => a.1 + a.2.size ≤ b.1 := by
  induction placed with
  | nil offset => exact ⟨Nat.le_refl _, by simp, .nil⟩
  | cons least _ ih =>
    obtain ⟨ends, inside, apart⟩ := ih
    have behind := least.1.1
    refine ⟨by omega, ?_, ?_⟩
    · rw [zip_cons_cons, forall_mem_cons]
      refine ⟨⟨behind, ends⟩, fun pair mem => ?_⟩
      have := inside pair mem
      omega
    · exact .cons (fun pair mem => (inside pair mem).1) apart

theorem place_packed (fields : List Layout) :
    (place true offset fields).2 = offset + (fields.map (·.size)).sum := by
  induction fields generalizing offset with
  | nil => rfl
  | cons field fields ih =>
    rw [place_cons, map_cons, sum_cons, ← Nat.add_assoc]
    exact ih

theorem struct_fits (packed : Bool) (regular : ∀ field ∈ fields, field.Regular) :
    Fits packed fields (place packed 0 fields).1 (struct packed fields) ∧
      (struct packed fields).Regular := by
  have align : IsGreatest {align | align = 1 ∨ packed = false ∧ align ∈ fields.map (·.align)}
      (struct packed fields).align := by
    cases packed with
    | true => exact ⟨.inl rfl, by simp [upperBounds, struct]⟩
    | false => simpa [struct] using foldl_max_isGreatest (fields.map (·.align)) 1
  have power : ∃ exponent, (struct packed fields).align = 2 ^ exponent := by
    rcases align.1 with one | ⟨-, mem⟩
    · exact ⟨0, one⟩
    · obtain ⟨field, there, same⟩ := mem_map.mp mem
      exact same ▸ (regular field there).align
  have placed : Placed packed 0 fields _ _ := placed_place regular
  have least := alignTo_isLeast (place packed 0 fields).2 (align.2 (.inl rfl))
  obtain ⟨-, inside, apart⟩ := placed.apart
  refine ⟨⟨⟨_, placed, least⟩, align, apart, fun pair mem => (inside pair mem).2.trans least.1.1,
    ?_⟩, power, least.1.2⟩
  rintro rfl
  exact (place_packed fields).trans (Nat.zero_add _)

end Layout

open Layout

namespace Shape

theorem forall₂_layouts (known : layouts fields = .ok found) :
    Forall₂ (fun field layout => field.layout = .ok layout) fields found := by
  induction fields generalizing found with
  | nil =>
    cases known
    exact .nil
  | cons field fields ih =>
    obtain ⟨_, _, here, later, rfl⟩ := layouts_cons_ok known
    exact .cons here (ih later)

theorem regular {shape : Shape} {layout : Layout} (known : shape.layout = .ok layout) :
    layout.Regular := by
  have scalar (exponent : Nat) : Regular (.scalar (2 ^ exponent)) := ⟨⟨exponent, rfl⟩, Nat.dvd_refl _⟩
  induction solid_of_layout known generalizing layout with
  | int bits =>
    cases known
    unfold powerAbove
    split
    · exact scalar 0
    · exact scalar _
  | half =>
    cases known
    exact scalar 1
  | float =>
    cases known
    exact scalar 2
  | double | pointer =>
    cases known
    exact scalar 3
  | slice =>
    cases known
    exact ⟨⟨3, rfl⟩, by decide⟩
  | @array _ count _ _ ih =>
    simp only [Shape.layout, Success.bind_ok, Success.pure_ok] at known
    obtain ⟨inner, found, rfl⟩ := known
    exact ⟨(ih found).align, Nat.dvd_mul_right_of_dvd (ih found).size count⟩
  | @struct name fields packed _ ih =>
    simp only [Shape.layout, Success.bind_ok, Success.pure_ok] at known
    obtain ⟨inner, found, rfl⟩ := known
    refine (struct_fits packed fun layout mem => ?_).2
    obtain ⟨field, there, here⟩ := exists_of_forall₂ (forall₂_layouts found).flip layout mem
    exact ih field there here

end Shape

/-- Alignments are powers of two that divide the sizes, elements of an array are aligned, and the
fields of a struct lie in it side by side, as early as their alignments allow. -/
theorem layouts_minimal {mod : Module} {type : IrType} {layout : Layout} (acyclic : mod.Acyclic)
    (known : mod.layout type = .ok layout) : layout.Regular ∧
    (∀ elem count, type = .array elem count → ∃ inner, mod.layout elem = .ok inner ∧
      layout = ⟨inner.size * count, inner.align⟩ ∧ ∀ i, inner.align ∣ i * inner.size) ∧
    ∀ name struct, type = .struct name → mod.structs.get? name = some struct → ∃ fields starts,
      Forall₂ (fun type field => mod.layout type = .ok field) struct.fields fields ∧
      (∀ index, (mod.fieldOffset name index).toOption = starts[index]?) ∧
        Fits struct.packed fields starts layout := by
  refine ⟨Shape.regular known, ?_, ?_⟩
  · rintro elem count rfl
    simp only [Module.layout, Module.shape, Shape.ofType, Shape.layout, Success.bind_ok, Success.pure_ok] at known
    obtain ⟨inner, found, rfl⟩ := known
    exact ⟨inner, found, rfl, fun i => Nat.dvd_mul_left_of_dvd (Shape.regular found).size i⟩
  · rintro name struct rfl there
    obtain ⟨rank, nested⟩ := acyclic.exists_nested
    rw [Module.layout, nested.shape_struct there] at known
    simp only [Shape.layout, Success.bind_ok, Success.pure_ok] at known
    obtain ⟨fields, found, rfl⟩ := known
    have layouts := Shape.forall₂_layouts found
    refine ⟨fields, (place struct.packed 0 fields).1, forall₂_map_left_iff.mp layouts, fun index => ?_, ?_⟩
    · have length := (length_place struct.packed 0 fields).trans (Shape.length_layouts found)
      have firsts := congrArg (·[index]?) (map_fst_zip (Nat.le_of_eq length))
      simp only [getElem?_map] at firsts
      simp only [Module.fieldOffset, nested.shape_struct there, Shape.parts, found, offsets,
        ← firsts, bind, Except.bind,
        pure, Except.pure]
      cases ((place struct.packed 0 fields).1.zip (struct.fields.map mod.shape))[index]? <;> rfl
    · refine (struct_fits struct.packed fun layout mem => ?_).1
      obtain ⟨field, -, here⟩ := exists_of_forall₂ layouts.flip layout mem
      exact Shape.regular here

/-- A struct with gaps, and one without that holds two of it. -/
def gaps : Module where
  name := "gaps.tn"
  structs := (Table.empty.insert "Loose" ⟨[.int 8, .int 64, .int 17], false⟩).insert "Dense"
    ⟨[.int 8, .array (.struct "Loose") 2], true⟩

theorem gaps_acyclic : gaps.Acyclic := by
  have ranks : ∀ entry ∈ gaps.structs.entries, ∀ field ∈ entry.2.fields, ∀ inner ∈ field.structs,
      (if inner = "Dense" then 1 else 0) < if entry.1 = "Dense" then 1 else 0 := by decide
  have nested : gaps.Nested fun name => if name = "Dense" then 1 else 0 :=
    fun name struct found => ranks (name, struct) (Table.mem_of_find found)
  exact nested.acyclic

theorem gaps_minimal : gaps.Acyclic ∧ gaps.layout (.struct "Dense") = .ok ⟨49, 1⟩ ∧
    ∃ fields starts, Fits true fields starts ⟨49, 1⟩ := by
  have known : gaps.layout (.struct "Dense") = .ok ⟨49, 1⟩ := by rfl
  obtain ⟨-, -, structs⟩ := layouts_minimal gaps_acyclic known
  obtain ⟨fields, starts, -, -, fits⟩ := structs "Dense" _ rfl rfl
  exact ⟨gaps_acyclic, known, fields, starts, fits⟩

end TernLang.Ir
