import TernLang.Proofs.Token.Spelling

/-! Writing tokens down again. A text ends in one end mark. The tokens before it, written one behind
the other with spaces between them, are a text that has the same tokens; only floating-point
literals are left out. -/
namespace TernLang.Token

open List

/-- A literal with a point, or with the suffix of one. -/
def Kind.isFloating : Kind → Bool
  | half _ | float _ | double _ => true
  | _ => false

/-- What stands in a text for the token: a line ends in a line feed. -/
def Kind.written : Kind → String
  | newline => "\n"
  | kind => kind.text

/-- Tokens as a text, with a space between any two. -/
def writing (kinds : List Kind) : String := String.intercalate " " (kinds.map Kind.written)

/-! The end mark. -/

variable {kind : Kind} {rest : List Char} {first : Char}

theorem exists_of_scan {pos : Position} (reads : scan file skip pos text = .ok tokens) :
    ∃ before last, tokens = before ++ [⟨.eof, last⟩] ∧ (∀ token ∈ before, token.kind ≠ .eof) ∧
      before.length ≤ text.length := by
  induction text generalizing skip pos tokens with
  | nil =>
    rw [scan] at reads
    cases reads
    exact ⟨[], pos, rfl, forall_mem_nil _, Nat.le_refl _⟩
  | cons c text ih =>
    have passed {skip : Nat} {pos : Position} {tokens : List Token} (reads : scan file skip pos text = .ok tokens) :
        ∃ before last, tokens = before ++ [⟨.eof, last⟩] ∧ (∀ token ∈ before, token.kind ≠ .eof) ∧
          before.length ≤ (c :: text).length := by
      obtain ⟨before, last, same, inner, fewer⟩ := ih reads
      exact ⟨before, last, same, inner, Nat.le_succ_of_le fewer⟩
    cases skip with
    | succ skip => exact passed reads
    | zero =>
      rw [scan] at reads
      split at reads
      · exact passed reads
      · split at reads
        · contradiction
        · next found lexes =>
          rw [Success.bind_ok] at reads
          obtain ⟨later, scans, reads⟩ := reads
          split at reads
          · next kind same =>
            cases reads
            obtain ⟨before, last, rfl, inner, fewer⟩ := ih scans
            refine ⟨⟨kind, pos⟩ :: before, last, rfl, forall_mem_cons.mpr ⟨?_, inner⟩, Nat.succ_le_succ fewer⟩
            exact (lexed_lexeme lexes kind same).2
          · cases reads
            exact passed scans

/-! Each token, in front of a space or at the end. -/

/-- Nothing follows, or a space does. -/
def Parted (rest : List Char) : Prop := rest = [] ∨ ∃ later, rest = ' ' :: later

theorem Parted.apart (parted : Parted rest) : Apart rest := by
  obtain rfl | ⟨later, rfl⟩ := parted
  · exact .nil
  · exact .mark (by decide)

theorem spells_mark (solid : isBlank first = false) (ends : Reads first text kind text.length)
    (goes : ∀ later, Reads first (text ++ ' ' :: later) kind text.length) :
    Spells Parted (first :: text) [kind] := by
  apply Spells.of_lexeme solid
  rintro rest (rfl | ⟨later, rfl⟩)
  · rwa [append_nil]
  · exact goes later

theorem spells_operator (operator : Operator) :
    Spells Parted operator.text.toList [.operator operator] := by
  cases operator with
  | and | or => exact (spells_word (by decide)).weaken fun _ => Parted.apart
  | _ => exact spells_mark (by decide) (fun _ => ⟨_, rfl⟩) fun _ _ => ⟨_, rfl⟩

theorem spells_kind (lexed : kind.Lexed) (exactly : kind.isFloating = false)
    (inside : kind ≠ .eof) :
    Spells Parted kind.written.toList [kind] := by
  cases kind with
  | bool val =>
    cases val with
    | true => exact (spells_word (by decide)).weaken fun _ => Parted.apart
    | false => exact (spells_word (by decide)).weaken fun _ => Parted.apart
  | integer kind magnitude => exact (spells_integer lexed).weaken fun _ => Parted.apart
  | half val | float val | double val => contradiction
  | string text =>
    have quoted : (Kind.string text).written.toList = '"' :: (text.toList ++ ['"']) := by
      simp [Kind.written, Kind.text]
    rw [quoted]
    exact (spells_string lexed).weaken fun _ _ => trivial
  | word text => exact (spells_name lexed).weaken fun _ => Parted.apart
  | keyword keyword => exact (spells_keyword keyword).weaken fun _ => Parted.apart
  | operator operator => exact spells_operator operator
  | eof => contradiction
  | _ => exact spells_mark (by decide) (fun _ => ⟨_, rfl⟩) fun _ _ => ⟨_, rfl⟩

theorem spells_writing (each : ∀ kind ∈ kinds, kind.Lexed ∧ kind.isFloating = false ∧ kind ≠ .eof) :
    Spells Parted (writing kinds).toList kinds := by
  induction kinds with
  | nil => exact .nil
  | cons kind rest ih =>
    obtain ⟨⟨lexed, exactly, inside⟩, others⟩ := forall_mem_cons.mp each
    have first := spells_kind lexed exactly inside
    have later := ih others
    cases rest with
    | nil =>
      rw [writing, map_singleton, String.intercalate_singleton]
      exact first
    | cons next rest =>
      have cut : (writing (kind :: next :: rest)).toList =
          kind.written.toList ++ ' ' :: (writing (next :: rest)).toList := by
        simp [writing, String.toList_intercalate]
      rw [cut]
      exact first.append later.blank fun behind _ => .inr ⟨_, rfl⟩

/-- Every text that has no floating-point literals and can be read is read again from its tokens,
which end in the only end mark. -/
theorem writing_relexes {file : Path} {src : String} {tokens : List Token}
    (reads : tokenize file src = .ok tokens)
    (exactly : ∀ token ∈ tokens, token.kind.isFloating = false) (again : Path) :
    ∃ written, tokenize again (writing (tokens.dropLast.map (·.kind))) = .ok written ∧
      written.map (·.kind) = tokens.map (·.kind) ∧
        tokens.map (·.kind) = tokens.dropLast.map (·.kind) ++ [.eof] := by
  obtain ⟨before, last, rfl, inside, -⟩ := exists_of_scan reads
  have lexed := scan_lexed reads
  rw [dropLast_concat]
  have spells : Spells Parted (writing (before.map (·.kind))).toList (before.map (·.kind)) := by
    apply spells_writing
    intro kind listed
    obtain ⟨token, mem, rfl⟩ := mem_map.mp listed
    exact ⟨lexed token (mem_append_left _ mem), exactly token (mem_append_left _ mem), inside token mem⟩
  obtain ⟨written, same, scans⟩ := spells again {} [] (.inl rfl)
  rw [append_nil] at scans
  refine ⟨_, scans, ?_, ?_⟩
  · simp [same]
  · simp

/-- Tokens that run into each other without a space, a comment, and a string over two lines. -/
def crowded : String := "a-b->c/**/=1ub==!d...e::f\"x\n//\"-2147483648 // end\nand\tandy"

theorem crowded_relexes : ∃ tokens, (tokenize ⟨"a.tern"⟩ crowded).toOption = some tokens ∧
    (∀ token ∈ tokens, token.kind.isFloating = false) ∧
    writing (tokens.dropLast.map (·.kind)) =
      "a - b -> c = 1ub == ! d ... e :: f \"x\n//\" - 2147483648 \n and andy" ∧
    ∃ written, tokenize ⟨"b.tern"⟩ (writing (tokens.dropLast.map (·.kind))) = .ok written ∧
      written.map (·.kind) = tokens.map (·.kind) := by
  have known : ∃ tokens, (tokenize ⟨"a.tern"⟩ crowded).toOption = some tokens ∧
      (∀ token ∈ tokens, token.kind.isFloating = false) ∧
      writing (tokens.dropLast.map (·.kind)) =
        "a - b -> c = 1ub == ! d ... e :: f \"x\n//\" - 2147483648 \n and andy" := by decide +kernel
  obtain ⟨tokens, reads, exactly, text⟩ := known
  obtain ⟨written, scans, same, -⟩ := writing_relexes (Success.ok_of_toOption reads) exactly ⟨"b.tern"⟩
  exact ⟨tokens, reads, exactly, text, written, scans, same⟩

end TernLang.Token
