import TernLang.Proofs.TypeName.RoundTrip

/-! Symbols of callables. Neither a name nor the text of a type contains a dollar sign, and no two
types are written alike; so a symbol tells the name and the types of the parameters. -/
namespace TernLang

open List

/-! Texts without separators. -/

theorem Token.chars_of_isWord (word : isWord name = true) :
    name.toList ≠ [] ∧ ∀ c ∈ name.toList, isWordPart c = true := by
  rw [isWord, Bool.and_eq_true] at word
  obtain ⟨first, part, same, start, rest⟩ := exists_of_hasWordForm word.1
  rw [same]
  exact ⟨cons_ne_nil _ _, forall_mem_cons.mpr ⟨isWordPart_of_isWordStart start, rest⟩⟩

theorem Token.not_mem_of_isWord (word : isWord name = true) (mark : isWordPart c = false) :
    c ∉ name.toList := by
  intro mem
  rw [(chars_of_isWord word).2 c mem] at mark
  contradiction

namespace TypeName

mutual

theorem dollar_not_mem_text (ty : TypeName) (written : ty.Written) : '$' ∉ ty.text.toList := by
  cases ty with
  | named name => exact Token.not_mem_of_isWord (written name mem_cons_self) (by decide)
  | pointer target => simpa [text] using dollar_not_mem_text target written
  | array element => simpa [text] using dollar_not_mem_text element written
  | function params res stdcall variadic =>
    have inside := dollar_not_mem_textList params fun name mem => written name (mem_append_left _ mem)
    have behind := dollar_not_mem_text res fun name mem => written name (mem_append_right _ mem)
    cases stdcall <;> cases variadic <;> cases none : params.isEmpty <;> simp_all [text]

theorem dollar_not_mem_textList (types : List TypeName)
    (written : ∀ name ∈ namesList types, Token.isWord name = true) :
    '$' ∉ (textList types).toList := by
  cases types with
  | nil => simp [textList]
  | cons ty types =>
    have first := dollar_not_mem_text ty fun name mem => written name (mem_append_left _ mem)
    have later := dollar_not_mem_textList types fun name mem => written name (mem_append_right _ mem)
    cases types with
    | nil => exact first
    | cons next types =>
      simp only [textList, String.toList_append, mem_append, not_or]
      exact ⟨⟨first, by decide⟩, later⟩

end

theorem text_ne_nil {ty : TypeName} (written : ty.Written) : ty.text.toList ≠ [] := by
  cases ty with
  | named name => exact (Token.chars_of_isWord (written name mem_cons_self)).1
  | pointer target => simp [text]
  | array element => simp [text]
  | function params res stdcall variadic => simp [text]

end TypeName

/-! Symbols. -/

theorem map_parse_text {types : List TypeName} (written : ∀ ty ∈ types, ty.Written) :
    (types.map (·.text.toList)).map (fun text => TypeName.parse (String.ofList text)) =
      types.map Except.ok := by
  rw [map_map]
  apply map_congr_left
  intro ty mem
  rw [Function.comp_apply, String.ofList_toList]
  exact ty.parse_text (written ty mem)

def mangledParts (params : List TypeName) : List (List Char) :=
  if params = [] then [[]] else params.map (·.text.toList)

theorem mangledParts_eq_singleton {params : List TypeName} (written : ∀ ty ∈ params, ty.Written)
    (empty : mangledParts params = [[]]) : params = [] := by
  rw [mangledParts] at empty
  split at empty
  · assumption
  · obtain ⟨ty, rfl, text⟩ := map_eq_singleton_iff.mp empty
    exact absurd text (TypeName.text_ne_nil (written ty mem_cons_self))

theorem mangledParts_inj {first second : List TypeName} (writtenA : ∀ ty ∈ first, ty.Written)
    (writtenB : ∀ ty ∈ second, ty.Written) (same : mangledParts first = mangledParts second) :
    first = second := by
  by_cases none : first = []
  · subst none
    exact (mangledParts_eq_singleton writtenB same.symm).symm
  · have some : second ≠ [] := by
      rintro rfl
      exact none (mangledParts_eq_singleton writtenA same)
    rw [mangledParts, mangledParts, if_neg none, if_neg some] at same
    have read := congrArg (map fun text => TypeName.parse (String.ofList text)) same
    rw [map_parse_text writtenA, map_parse_text writtenB] at read
    exact (map_inj_right fun _ _ => Except.ok.inj).mp read

variable {name a b : String} {params first second : List TypeName}

theorem dollar_mem_mangle (ordinary : name ≠ "main") (params : List TypeName) :
    '$' ∈ (mangle name params).toList := by
  rw [mangle, if_neg ordinary]
  simp

theorem splitOn_mangle (plain : '$' ∉ name.toList) (ordinary : name ≠ "main")
    (written : ∀ ty ∈ params, ty.Written) :
    (mangle name params).toList.splitOn '$' = name.toList :: mangledParts params := by
  have joined : (mangle name params).toList = ['$'].intercalate (name.toList :: mangledParts params) := by
    rw [mangle, if_neg ordinary, mangledParts]
    cases params with
    | nil => simp [intercalate]
    | cons param params =>
      simp only [String.toList_append, String.toList_intercalate, map_map, map_cons, if_false,
        cons_ne_nil, intercalate_cons_cons]
      rfl
  rw [joined]
  refine splitOn_intercalate '$' (forall_mem_cons.mpr ⟨plain, fun part mem => ?_⟩) (cons_ne_nil _ _)
  rw [mangledParts] at mem
  split at mem
  · rw [mem_singleton.mp mem]
    exact not_mem_nil
  · obtain ⟨ty, inside, rfl⟩ := mem_map.mp mem
    exact ty.dollar_not_mem_text (written ty inside)

/-- A symbol tells the name and the parameters, unless it is that of an entry. -/
theorem mangle_inj (plainA : '$' ∉ a.toList) (plainB : '$' ∉ b.toList)
    (writtenA : ∀ ty ∈ first, ty.Written) (writtenB : ∀ ty ∈ second, ty.Written)
    (same : mangle a first = mangle b second) :
    a = "main" ∧ b = "main" ∨ a = b ∧ first = second := by
  have entry : '$' ∉ "main".toList := by decide
  by_cases mainA : a = "main" <;> by_cases mainB : b = "main"
  · exact .inl ⟨mainA, mainB⟩
  · rw [mainA, mangle, if_pos rfl] at same
    rw [same] at entry
    exact absurd (dollar_mem_mangle mainB second) entry
  · rw [mainB, mangle.eq_1 "main", if_pos rfl] at same
    rw [← same] at entry
    exact absurd (dollar_mem_mangle mainA first) entry
  · have parts := splitOn_mangle plainA mainA writtenA
    rw [same, splitOn_mangle plainB mainB writtenB] at parts
    obtain ⟨name, rest⟩ := cons.inj parts
    exact .inr ⟨(String.toList_inj.mp name).symm, (mangledParts_inj writtenB writtenA rest).symm⟩

end TernLang
