import TernLang.Proofs.Ir.Shape

/-! Where the parts of a value lie. Fields lie inside their struct one after another, and a type
that takes space has its first byte in its first part that takes space. -/
namespace TernLang.Ir

theorem one_le_powerAbove (n : Nat) : 1 ≤ powerAbove n := by
  unfold powerAbove
  split
  · exact Nat.le_refl 1
  · exact twoPow_pos _

theorem le_alignTo (off align : Nat) : off ≤ alignTo off align := by
  unfold alignTo
  split
  · exact Nat.le_refl off
  · have split := Nat.div_add_mod (off + align - 1) align
    have rest := Nat.mod_lt (off + align - 1) (show 0 < align by omega)
    rw [Nat.mul_comm] at split
    omega

theorem alignTo_zero (align : Nat) : alignTo 0 align = 0 := by
  unfold alignTo
  split
  · rfl
  · rw [Nat.div_eq_of_lt (by omega), Nat.zero_mul]

namespace Layout
variable (packed : Bool)

/-- Where a field starts that follows an offset. -/
def start (off : Nat) (field : Layout) : Nat := if packed then off else alignTo off field.align

theorem le_start (off : Nat) (field : Layout) : off ≤ start packed off field := by
  unfold start
  split
  · exact Nat.le_refl off
  · exact le_alignTo off field.align

theorem start_zero (field : Layout) : start packed 0 field = 0 := by
  unfold start
  split
  · rfl
  · exact alignTo_zero field.align

theorem place_cons (off : Nat) (field : Layout) (fields : List Layout) :
    place packed off (field :: fields) =
      (start packed off field :: (place packed (start packed off field + field.size) fields).1,
        (place packed (start packed off field + field.size) fields).2) := rfl

theorem place_le_struct (fields : List Layout) :
    (place packed 0 fields).2 ≤ (struct packed fields).size :=
  le_alignTo _ _

end Layout

namespace Shape

mutual

theorem solid_of_layout : {shape : Shape} → {found : Layout} → shape.layout = .ok found →
    shape.Solid fun _ => True
  | .void, _, known | .undefined _, _, known => nomatch known
  | .int bits, _, _ => .int bits
  | .half, _, _ => .half
  | .float, _, _ => .float
  | .double, _, _ => .double
  | .pointer, _, _ => .pointer
  | .slice, _, _ => .slice
  | .array element count, _, known => by
    simp only [layout, Success.bind_ok] at known
    obtain ⟨_, inner, _⟩ := known
    exact .array trivial (solid_of_layout inner)
  | .struct name fields packed, _, known => by
    simp only [layout, Success.bind_ok] at known
    obtain ⟨_, inner, _⟩ := known
    exact .struct name packed (solid_of_layouts inner)

theorem solid_of_layouts : {fields : List Shape} → {found : List Layout} → layouts fields = .ok found →
    ∀ field ∈ fields, field.Solid fun _ => True
  | [], _, _ => fun _ mem => nomatch mem
  | field :: fields, _, known => by
    simp only [layouts, Success.bind_ok] at known
    obtain ⟨_, here, _, later, _⟩ := known
    exact List.forall_mem_cons.mpr ⟨solid_of_layout here, solid_of_layouts later⟩

end

theorem layouts_cons_ok (known : layouts (field :: fields) = .ok found) :
    ∃ first rest, field.layout = .ok first ∧ layouts fields = .ok rest ∧ found = first :: rest := by
  simp only [layouts, Success.bind_ok, Success.pure_ok] at known
  obtain ⟨first, here, rest, later, rfl⟩ := known
  exact ⟨first, rest, here, later, rfl⟩

/-- Parts that lie one behind the other from an offset on; nothing is in front of the first one. -/
inductive Laid : (off : Nat) → List (Nat × Shape) → (finish : Nat) → Prop
  | nil (off : Nat) : Laid off [] off
  | cons {off start finish : Nat} {part : Shape} {layout : Layout} {parts : List (Nat × Shape)} :
    part.layout = .ok layout → off ≤ start → (off = 0 → start = 0) →
      Laid (start + layout.size) parts finish →
    Laid off ((start, part) :: parts) finish

variable {off finish : Nat} {parts : List (Nat × Shape)}

theorem laid_place (known : layouts fields = .ok found) (packed : Bool) (off : Nat) :
    Laid off ((Layout.place packed off found).1.zip fields) (Layout.place packed off found).2 := by
  induction fields generalizing found off with
  | nil =>
    cases known
    exact .nil off
  | cons field fields ih =>
    obtain ⟨layout, rest, here, later, rfl⟩ := layouts_cons_ok known
    exact .cons here (Layout.le_start ..) (fun zero => zero ▸ Layout.start_zero ..) (ih later _)

theorem laid_elements {layout : Layout} (known : element.layout = .ok layout) (first count : Nat) :
    Laid (first * layout.size) ((List.range' first count).map fun i => (i * layout.size, element))
      ((first + count) * layout.size) := by
  induction count generalizing first with
  | zero => exact .nil _
  | succ count ih =>
    refine .cons known (Nat.le_refl _) id ?_
    rw [← Nat.succ_mul, Nat.add_left_comm, Nat.add_comm count]
    exact ih (first + 1)

theorem Laid.le (laid : Laid off parts finish) : off ≤ finish := by
  induction laid with
  | nil => exact Nat.le_refl _
  | cons _ behind _ _ ih => omega

theorem Laid.mem (laid : Laid off parts finish) :
    ∀ part ∈ parts, ∃ layout, part.2.layout = .ok layout ∧ off ≤ part.1 ∧
      part.1 + layout.size ≤ finish := by
  induction laid with
  | nil => exact List.forall_mem_nil _
  | cons known behind _ rest ih =>
    refine List.forall_mem_cons.mpr ⟨⟨_, known, behind, rest.le⟩, fun part mem => ?_⟩
    obtain ⟨layout, known, behind, inside⟩ := ih part mem
    exact ⟨layout, known, by omega, inside⟩

theorem Laid.exists_first (laid : Laid off parts finish) (front : off = 0) (positive : 0 < finish) :
    ∃ part layout, (0, part) ∈ parts ∧ part.layout = .ok layout ∧ 0 < layout.size := by
  induction laid with
  | nil => omega
  | @cons _ start _ part layout _ known _ first _ ih =>
    obtain rfl := first front
    by_cases space : 0 < layout.size
    · exact ⟨part, layout, List.mem_cons_self, known, space⟩
    · obtain ⟨part, layout, mem, known, space⟩ := ih (by omega) positive
      exact ⟨part, layout, List.mem_cons_of_mem _ mem, known, space⟩

end Shape
end TernLang.Ir
