import TernLang.Proofs.Typing.Aliases

/-! Joins of resolved types. Types are ordered, with the generic pointer below all specific ones; a
join is the greater of two types, so it does not depend on the order in which types are joined. -/
namespace TernLang.TypeName

variable {left middle right joined ty other : TypeName}

/-- Values of the first type may be seen as ones of the second: a generic pointer may be any
specific one. -/
def Below (ty other : TypeName) : Prop := ty = other ∨ ty.isGenericPointer ∧ other.isSpecificPointer

theorem isGenericPointer_iff : ty.isGenericPointer ↔ ty = named "ptr" := decide_eq_true_iff

theorem Below.trans (first : left.Below middle) (second : middle.Below right) :
    left.Below right := by
  rcases first with rfl | ⟨generic, specific⟩
  · exact second
  · rcases second with rfl | ⟨again, -⟩
    · exact .inr ⟨generic, specific⟩
    · rw [isGenericPointer_iff.mp again] at specific
      contradiction

theorem join?_eq_some_iff : left.join? right = some joined ↔
    left ≠ void ∧ right ≠ void ∧ left.Below joined ∧ right.Below joined ∧
      (joined = left ∨ joined = right) := by
  have apart (ty : TypeName) (generic : ty.isGenericPointer) : ty.isSpecificPointer = false := by
    rw [isGenericPointer_iff.mp generic]
    rfl
  unfold join? Below
  grind

theorem join?_comm (left right : TypeName) : left.join? right = right.join? left := by
  ext joined
  simp only [join?_eq_some_iff]
  grind

theorem join?_bind_eq_some_iff : (left.join? middle).bind (·.join? right) = some joined ↔
    left ≠ void ∧ middle ≠ void ∧ right ≠ void ∧ left.Below joined ∧ middle.Below joined ∧
      right.Below joined ∧
      (joined = left ∨ joined = middle ∨ joined = right) := by
  simp only [Option.bind_eq_some_iff, join?_eq_some_iff]
  constructor
  · rintro ⟨both, ⟨solid, solid', low, low', one⟩, -, solid'', below, last, two⟩
    exact ⟨solid, solid', solid'', low.trans below, low'.trans below, last, by grind⟩
  · rintro ⟨solid, solid', solid'', low, low', last, one⟩
    by_cases third : joined = left ∨ joined = middle
    · exact ⟨joined, ⟨solid, solid', low, low', third⟩, by grind, solid'', .inl rfl, last, .inl rfl⟩
    · -- Both are the generic pointer then.
      obtain ⟨generic, -⟩ := low.resolve_left (by grind)
      obtain ⟨generic', -⟩ := low'.resolve_left (by grind)
      obtain rfl := (isGenericPointer_iff.mp generic).trans (isGenericPointer_iff.mp generic').symm
      exact ⟨left, ⟨solid, solid, .inl rfl, .inl rfl, .inl rfl⟩, solid, solid'', low, last, by grind⟩

theorem join?_assoc (left middle right : TypeName) :
    (left.join? middle).bind (·.join? right) = (middle.join? right).bind left.join? := by
  ext joined
  have turned : (middle.join? right).bind left.join? = (middle.join? right).bind (·.join? left) :=
    congrArg _ (funext (join?_comm left))
  rw [turned, join?_bind_eq_some_iff, join?_bind_eq_some_iff]
  grind

end TernLang.TypeName
