/-! Cutting character lists at a separator and putting the pieces together again. -/
namespace TernLang.Text

/-- The pieces between separators; there is always at least one. -/
def segments (separator : Char) : List Char → List (List Char)
  | [] => [[]]
  | c :: rest =>
    if c = separator then [] :: segments separator rest
    else match segments separator rest with
      | [] => [[c]]
      | piece :: pieces => (c :: piece) :: pieces

def unsegment (separator : Char) : List (List Char) → List Char
  | [] => []
  | [piece] => piece
  | piece :: pieces => piece ++ separator :: unsegment separator pieces

theorem segments_ne_nil (separator : Char) (cs : List Char) : segments separator cs ≠ [] := by
  cases cs with
  | nil => simp [segments]
  | cons c rest =>
    simp only [segments]
    split
    · simp
    · split <;> simp

/-- Drop the longest tail whose members all satisfy `p`. -/
def trimRight {α : Type} (p : α → Bool) (items : List α) : List α :=
  (items.reverse.dropWhile p).reverse

end TernLang.Text
