import Mathlib.Data.List.TakeWhile
import TernLang.Proofs.Token.Placing

/-! How tokens are spelled. A text spells tokens if it is read as them wherever it stands, as long
as what follows does not run into its last token; texts that do not run into each other can be put
together. Conversely every word, string and integer that is read can be written. -/
namespace TernLang.Token

open List

/-! Classes of characters. -/

theorem isDigit_of_isWordStart (start : isWordStart c = true) : c.isDigit = false := by
  rw [← Bool.not_eq_true]
  intro digit
  unfold isWordStart Char.isAlpha Char.isUpper Char.isLower at start
  simp only [Char.isDigit, Bool.or_eq_true, Bool.and_eq_true, decide_eq_true_eq, beq_iff_eq, ge_iff_le,
    UInt32.le_iff_toNat_le] at start digit
  have nine : '9'.val.toNat = 57 := rfl
  rcases start with (⟨upper, -⟩ | ⟨lower, -⟩) | under
  · have : 'A'.val.toNat = 65 := rfl
    omega
  · have : 'a'.val.toNat = 97 := rfl
    omega
  · subst under
    revert digit
    decide

theorem isWordPart_of_isDigit (digit : c.isDigit = true) : isWordPart c = true := by
  simp [isWordPart, Char.isAlphanum, digit]

theorem isWordPart_of_isAlpha (alpha : c.isAlpha = true) : isWordPart c = true := by
  simp [isWordPart, Char.isAlphanum, alpha]

theorem isBlank_of_isWordPart (part : isWordPart c = true) : isBlank c = false := by
  rw [← Bool.not_eq_true]
  intro blank
  simp only [isBlank, Bool.or_eq_true, beq_iff_eq] at blank
  rcases blank with (rfl | rfl) | rfl <;> revert part <;> decide

theorem isWordPart_of_isWordStart (start : isWordStart c = true) : isWordPart c = true := by
  simp only [isWordStart, isWordPart, Char.isAlphanum, Bool.or_eq_true] at start ⊢
  exact start.imp_left .inl

/-- Text that a word or a number in front of it does not take in. -/
structure Apart (rest : List Char) : Prop where
  word : ∀ c ∈ rest.head?, isWordPart c = false
  fraction : ∀ c later, rest = '.' :: c :: later → c.isDigit = false

namespace Apart
variable {c : Char} {rest : List Char}

theorem nil : Apart [] := ⟨by simp, nofun⟩

theorem mark (clear : isWordPart c = false ∧ c ≠ '.') : Apart (c :: rest) where
  word := by
    intro first same
    cases same
    exact clear.1
  fraction := by
    rintro _ _ ⟨⟩
    exact absurd rfl clear.2

theorem point (start : isWordStart c = true) : Apart ('.' :: c :: rest) where
  word := by
    intro first same
    cases same
    decide
  fraction := by
    rintro _ _ ⟨⟩
    exact isDigit_of_isWordStart start

theorem fractionPart (apart : Apart rest) (pos : Position) : fractionPart pos rest = ([], pos) := by
  unfold Token.fractionPart
  split
  · rw [apart.fraction _ _ rfl]
    rfl
  · rfl

theorem takeWhile (apart : Apart rest) (inside : ∀ c, holds c = true → isWordPart c = true) :
    rest.takeWhile holds = [] := by
  cases rest with
  | nil => rfl
  | cons c rest =>
    rw [takeWhile_cons_of_neg]
    intro taken
    have outside := apart.word c rfl
    rw [inside c taken] at outside
    contradiction

end Apart

/-- Wherever the text stands, it is read as tokens of these kinds, if what follows is as stated. -/
def Spells (free : List Char → Prop) (text : List Char) (kinds : List Kind) : Prop :=
  ∀ (file : Path) (pos : Position) (rest : List Char), free rest →
    ∃ tokens : List Token, tokens.map (·.kind) = kinds ∧
      scan file 0 pos (text ++ rest) = (scan file 0 (pos.after text) rest).map (tokens ++ ·)

/-- What stands at the start of the text is a token of this kind, wherever the text stands. -/
def Reads (first : Char) (rest : List Char) (kind : Kind) (extra : Nat) : Prop :=
  ∀ pos, ∃ behind, lexeme pos first rest = .ok ⟨some kind, extra, behind⟩

/-- Marks that are read as they stand, whatever is behind them. -/
def markKind? : Char → Option Kind
  | '(' => some .leftParen
  | ')' => some .rightParen
  | '\x7b' => some .leftBrace
  | '\x7d' => some .rightBrace
  | '[' => some .leftBracket
  | ']' => some .rightBracket
  | ',' => some .comma
  | '$' => some .dollar
  | '*' => some (.operator .star)
  | '&' => some (.operator .ampersand)
  | _ => none

variable {kind : Kind} {first : Char} {found : Lexeme} {pos : Position}

theorem lexeme_mark (single : markKind? first = some kind) :
    isBlank first = false ∧ ∀ rest, Reads first rest kind 0 := by
  unfold markKind? at single
  split at single <;> first | contradiction | cases single
  all_goals exact ⟨by decide, fun _ _ => ⟨_, rfl⟩⟩

theorem scan_lexeme {pos : Position} (solid : isBlank first = false)
    (reads : Reads first (text ++ rest) kind text.length) :
    scan file 0 pos (first :: text ++ rest) =
      (scan file 0 (pos.after (first :: text)) rest).map ([⟨kind, pos⟩] ++ ·) := by
  obtain ⟨behind, lexes⟩ := reads pos.advance
  obtain ⟨text', later, same, length, rfl⟩ := lexeme_covers lexes
  obtain ⟨rfl, rfl⟩ := append_inj same length
  rw [cons_append, scan, if_neg (by simp [solid]), lexes]
  dsimp only
  rw [scan_skip]
  change _ = (scan file 0 ((pos.step first).after text) rest).map _
  cases scan file 0 ((pos.step first).after text) rest <;> rfl

namespace Spells
variable {free free' : List Char → Prop} {next : Char} {text text' : List Char}
  {kinds kinds' : List Kind}

theorem nil : Spells free [] [] := by
  intro file pos rest _
  refine ⟨[], rfl, ?_⟩
  change scan file 0 pos rest = (scan file 0 pos rest).map id
  cases scan file 0 pos rest <;> rfl

theorem append (first : Spells free text kinds) (second : Spells free' text' kinds')
    (clear : ∀ rest, free' rest → free (text' ++ rest)) :
    Spells free' (text ++ text') (kinds ++ kinds') := by
  intro file pos rest follows
  obtain ⟨tokens, same, reads⟩ := first file pos (text' ++ rest) (clear rest follows)
  obtain ⟨tokens', same', reads'⟩ := second file (pos.after text) rest follows
  refine ⟨tokens ++ tokens', ?_, ?_⟩
  · rw [map_append, same, same']
  · rw [append_assoc, reads, reads']
    have whole : (pos.after text).after text' = pos.after (text ++ text') := (foldl_append ..).symm
    rw [whole]
    cases scan file 0 (pos.after (text ++ text')) rest with
    | error cause => rfl
    | ok later => simp [Except.map]

theorem weaken (spells : Spells free text kinds) (implies : ∀ rest, free' rest → free rest) :
    Spells free' text kinds :=
  fun file pos rest follows => spells file pos rest (implies rest follows)

theorem blank (spells : Spells free text kinds) : Spells free (' ' :: text) kinds :=
  fun file pos rest follows => spells file (pos.step ' ') rest follows

theorem of_lexeme (solid : isBlank first = false)
    (reads : ∀ rest, free rest → Reads first (text ++ rest) kind text.length) :
    Spells free (first :: text) [kind] :=
  fun _ pos rest follows => ⟨[⟨kind, pos⟩], rfl, scan_lexeme solid (reads rest follows)⟩

theorem mark (first : Char) (single : markKind? first = some kind)
    (spells : Spells free text kinds) :
    Spells free (first :: text) (kind :: kinds) := by
  obtain ⟨solid, reads⟩ := lexeme_mark single
  have alone : Spells (fun _ => True) [first] [kind] := of_lexeme solid fun rest _ => reads rest
  exact alone.append spells fun _ _ => trivial

theorem thenMark (first : Spells Apart text kinds) (c : Char) (single : markKind? c = some kind)
    (second : Spells free text' kinds') :
    Spells free (text ++ c :: text') (kinds ++ kind :: kinds') := by
  apply first.append (second.mark c single)
  intro rest _
  apply Apart.mark
  unfold markKind? at single
  split at single <;> first | decide | contradiction

theorem closed (first : Spells Apart text kinds) (c : Char) (single : markKind? c = some kind) :
    Spells Apart (text ++ [c]) (kinds ++ [kind]) := first.thenMark c single .nil

theorem thenBlank (first : Spells Apart text kinds) (second : Spells free text' kinds') :
    Spells free (text ++ ' ' :: text') (kinds ++ kinds') := by
  apply first.append second.blank
  intro rest _
  exact .mark (by decide)

theorem exists_head (spells : Spells Apart text (kind :: kinds)) (c : Char)
    (solid : isBlank c = false)
    (lexes : ∀ pos rest, lexeme pos c rest = .ok (.pair next long short pos rest))
    (other : kind ≠ long) (other' : kind ≠ short) :
    ∃ first later, text = first :: later ∧ first ≠ c := by
  obtain ⟨tokens, same, reads⟩ := spells ⟨""⟩ {} [] .nil
  obtain ⟨token, later, rfl, rfl, -⟩ := map_eq_cons_iff.mp same
  cases text with
  | nil => simp [scan, Except.map] at reads
  | cons first text =>
    refine ⟨first, text, rfl, ?_⟩
    rintro rfl
    rw [append_nil] at reads
    change _ = Except.ok _ at reads
    rw [scan, if_neg (by simp [solid]), lexes] at reads
    obtain ⟨behind, -, reads⟩ := Success.bind_ok.mp reads
    have kinds : (Lexeme.pair next long short (Position.advance {}) text).kind = some long ∨
        (Lexeme.pair next long short (Position.advance {}) text).kind = some short := by
      unfold Lexeme.pair
      split
      · split
        · exact .inl rfl
        · exact .inr rfl
      · exact .inr rfl
    rcases kinds with kind | kind <;> rw [kind] at reads <;> cases reads <;> contradiction

theorem short (spells : Spells free text kinds) (first : Char) (solid : isBlank first = false)
    (lexes : ∀ pos rest, lexeme pos first rest = .ok (.pair next long kind pos rest))
    (clear : ∃ c later, text = c :: later ∧ c ≠ next) :
    Spells free (first :: text) (kind :: kinds) := by
  obtain ⟨c, later, rfl, other⟩ := clear
  have alone : Spells (fun rest => rest.head? = some c) [first] [kind] := by
    apply of_lexeme solid
    intro rest head pos
    rw [nil_append, lexes]
    cases rest with
    | nil => contradiction
    | cons c' rest =>
      cases head
      simp [Lexeme.pair, other, Lexeme.single]
  exact alone.append spells fun _ _ => rfl

end Spells

/-! Words. -/

def hasWordForm (text : String) : Bool :=
  match text.toList with
  | [] => false
  | first :: part => isWordStart first && part.all isWordPart

def isWord (text : String) : Bool := hasWordForm text && wordKind text = .word text

theorem exists_of_hasWordForm (form : hasWordForm text = true) :
    ∃ first part, text.toList = first :: part ∧ isWordStart first = true ∧
      ∀ c ∈ part, isWordPart c = true := by
  unfold hasWordForm at form
  split at form
  · contradiction
  · next first part same =>
    rw [Bool.and_eq_true, all_eq_true] at form
    exact ⟨first, part, same, form⟩

theorem lexeme_word (start : isWordStart first = true) (pos : Position) (rest : List Char) :
    lexeme pos first rest = .ok (wordLexeme pos first rest) := by
  have digit := isDigit_of_isWordStart start
  unfold lexeme
  split <;> first | exact absurd start (by decide) | simp [start, digit]

theorem spells_word (form : hasWordForm text = true) :
    Spells Apart text.toList [wordKind text] := by
  obtain ⟨first, part, same, start, all⟩ := exists_of_hasWordForm form
  rw [same]
  apply Spells.of_lexeme (isBlank_of_isWordPart (isWordPart_of_isWordStart start))
  intro rest apart pos
  have whole : (part ++ rest).takeWhile isWordPart = part := by
    rw [takeWhile_append_of_pos all, apart.takeWhile fun _ => id, append_nil]
  rw [lexeme_word start, wordLexeme, readWhile_eq rfl, whole]
  dsimp only
  rw [← same, String.ofList_toList]
  exact ⟨_, rfl⟩

theorem spells_name (word : isWord text = true) : Spells Apart text.toList [.word text] := by
  rw [isWord, Bool.and_eq_true, decide_eq_true_eq] at word
  rw [← word.2]
  exact spells_word word.1

theorem Spells.thenPoint {free : List Char → Prop} (first : Spells Apart text kinds)
    (word : isWord field = true) (second : Spells free (field.toList ++ text') kinds') :
    Spells free (text ++ '.' :: (field.toList ++ text')) (kinds ++ .dot :: kinds') := by
  rw [isWord, Bool.and_eq_true] at word
  obtain ⟨c, part, same, start, -⟩ := exists_of_hasWordForm word.1
  have point : Spells (fun rest => rest.head? = some c) ['.'] [.dot] := by
    apply of_lexeme (by decide)
    intro rest head pos
    cases rest with
    | nil => contradiction
    | cons c' rest =>
      cases head
      have other : c ≠ '.' := by
        rintro rfl
        exact absurd start (by decide)
      simp [lexeme, dotLexeme, other, Lexeme.single]
  rw [same] at second ⊢
  apply first.append (point.append second fun _ _ => rfl)
  intro rest _
  exact .point start

theorem spells_keyword (keyword : Keyword) :
    Spells Apart keyword.text.toList [.keyword keyword] := by
  have form : hasWordForm keyword.text = true := by cases keyword <;> decide
  have read : wordKind keyword.text = .keyword keyword := by cases keyword <;> decide
  rw [← read]
  exact spells_word form

/-! Numbers and strings. -/

theorem decimal_toDigits (num : Nat) : decimal (Nat.toDigits 10 num) = num :=
  Nat.ofDigitChars_ten_toDigits

theorem lexeme_digit (digit : first.isDigit = true) (pos : Position) (rest : List Char) :
    lexeme pos first rest = numberLexeme pos first rest := by
  unfold lexeme
  split <;> first | exact absurd digit (by decide) | simp [digit]

theorem lexeme_integer {kind : IntKind} (digit : first.isDigit = true)
    (digits : ∀ c ∈ part, c.isDigit = true) (typed : integerKind? suffix = some kind)
    (apart : Apart rest) (pos : Position) :
    ∃ behind, lexeme pos first (part ++ suffix.toList ++ rest) =
      (integerLiteral (first :: part) suffix).map fun kind =>
        ⟨some kind, (part ++ suffix.toList).length, behind⟩ := by
  have letters : (∀ c ∈ suffix.toList, c.isAlpha = true) ∧ (suffix == "h" || suffix == "f" || suffix == "d") = false ∧
      (suffix.toList ++ rest).takeWhile Char.isDigit = [] ∧
      ∀ pos, fractionPart pos (suffix.toList ++ rest) = ([], pos) := by
    unfold integerKind? at typed
    split at typed <;> first
      | exact ⟨by simp, by decide, apart.takeWhile fun _ => isWordPart_of_isDigit, apart.fractionPart⟩
      | exact ⟨by simp, by decide, rfl, fun _ => rfl⟩
      | contradiction
  obtain ⟨letters, notFloat, noDigits, noFraction⟩ := letters
  have taken : (part ++ suffix.toList ++ rest).takeWhile Char.isDigit = part := by
    rw [append_assoc, takeWhile_append_of_pos digits, noDigits, append_nil]
  have alphas : (suffix.toList ++ rest).takeWhile Char.isAlpha = suffix.toList := by
    rw [takeWhile_append_of_pos letters, apart.takeWhile fun _ => isWordPart_of_isAlpha, append_nil]
  have after : (part ++ suffix.toList ++ rest).drop part.length = suffix.toList ++ rest := by
    rw [append_assoc, drop_left]
  rw [lexeme_digit digit, numberLexeme]
  simp only [readWhile_eq (show Char.isDigit '\n' = false from rfl),
    readWhile_eq (show Char.isAlpha '\n' = false from rfl), taken, after, noFraction, isEmpty_nil,
    if_true, drop_zero, alphas,
    String.ofList_toList, Bool.not_true, Bool.false_or, notFloat, Bool.false_eq_true, if_false, Nat.add_zero,
    length_append]
  exact ⟨_, rfl⟩

theorem spells_integer {kind : IntKind} (small : magnitude ≤ kind.greatestMagnitude) :
    Spells Apart (toString magnitude ++ kind.suffix).toList [.integer kind magnitude] := by
  have digits : ∀ c ∈ Nat.toDigits 10 magnitude, c.isDigit = true := fun c mem =>
    Nat.isDigit_of_mem_toDigits (by decide) (by decide) mem
  have val := decimal_toDigits magnitude
  have typed : integerKind? kind.suffix = some kind := by cases kind <;> rfl
  rw [String.toList_append, show (toString magnitude).toList = Nat.toDigits 10 magnitude from Nat.toList_repr]
  cases written : Nat.toDigits 10 magnitude with
  | nil => exact absurd written Nat.toDigits_ne_nil
  | cons first part =>
    rw [written] at digits val
    obtain ⟨digit, all⟩ := forall_mem_cons.mp digits
    rw [cons_append]
    apply Spells.of_lexeme (isBlank_of_isWordPart (isWordPart_of_isDigit digit))
    intro rest apart pos
    obtain ⟨behind, lexes⟩ := lexeme_integer digit all typed apart pos
    rw [lexes, integerLiteral, typed]
    exact ⟨behind, by simp only [val, small, if_true, Except.map]⟩

theorem spells_string (plain : '"' ∉ text.toList) :
    Spells (fun _ => True) ('"' :: (text.toList ++ ['"'])) [.string text] := by
  apply Spells.of_lexeme (by decide)
  intro rest _ pos
  have inside : ∀ c ∈ text.toList, (c != '"') = true := by
    intro c mem
    rw [bne_iff_ne]
    rintro rfl
    contradiction
  have taken : (text.toList ++ ['"'] ++ rest).takeWhile (· != '"') = text.toList := by
    rw [append_assoc, takeWhile_append_of_pos inside, cons_append, takeWhile_cons_of_neg (by decide),
      append_nil]
  have reads : lexeme pos '"' (text.toList ++ ['"'] ++ rest) =
      stringLexeme pos (text.toList ++ ['"'] ++ rest) := rfl
  rw [reads, stringLexeme, readString_eq, taken]
  dsimp only
  rw [if_pos (by simp), String.ofList_toList, List.length_append]
  exact ⟨_, rfl⟩

/-! What is read can be written. -/

/-- The content of the token can be written as it is. -/
def Kind.Lexed : Kind → Prop
  | word text => isWord text = true
  | string text => '"' ∉ text.toList
  | integer kind magnitude => magnitude ≤ kind.greatestMagnitude
  | _ => True

theorem lexed_wordKind (form : hasWordForm text = true) :
    (wordKind text).Lexed ∧ wordKind text ≠ .eof := by
  by_cases name : wordKind text = .word text
  · rw [name]
    simp [Kind.Lexed, isWord, form, name]
  · unfold wordKind at name ⊢
    split_ifs at name ⊢ <;> try exact ⟨trivial, Kind.noConfusion⟩
    split at name
    · exact ⟨trivial, Kind.noConfusion⟩
    · contradiction

/-- What the lexeme stands for can be written, and is no end mark. -/
def Lexeme.Lexed (found : Lexeme) : Prop := ∀ kind ∈ found.kind, kind.Lexed ∧ kind ≠ .eof

theorem Lexeme.lexed {kind : Kind} (lexed : kind.Lexed ∧ kind ≠ .eof) (extra : Nat)
    (pos : Position) :
    Lexeme.Lexed ⟨some kind, extra, pos⟩ := by
  intro other same
  cases same
  exact lexed

theorem Lexeme.lexed_pair (longer : long.Lexed ∧ long ≠ .eof) (shorter : short.Lexed ∧ short ≠ .eof)
    (next : Char) (pos : Position) (rest : List Char) :
    (Lexeme.pair next long short pos rest).Lexed := by
  unfold Lexeme.pair
  split
  · split
    · exact lexed longer _ _
    · exact lexed shorter _ _
  · exact lexed shorter _ _

theorem lexed_wordLexeme (start : isWordStart first = true) (pos : Position) (rest : List Char) :
    (wordLexeme pos first rest).Lexed := by
  rw [wordLexeme, readWhile_eq rfl]
  apply Lexeme.lexed
  apply lexed_wordKind
  simp only [hasWordForm, String.toList_ofList, start, Bool.true_and, all_eq_true]
  exact fun c mem => mem_takeWhile_imp mem

theorem lexed_stringLexeme (reads : stringLexeme pos rest = .ok found) : found.Lexed := by
  rw [stringLexeme, readString_eq] at reads
  dsimp only at reads
  split at reads
  · cases reads
    apply Lexeme.lexed
    refine ⟨?_, Kind.noConfusion⟩
    rw [Kind.Lexed, String.toList_ofList]
    intro mem
    have := mem_takeWhile_imp mem
    contradiction
  · contradiction

theorem lexed_slashLexeme (reads : slashLexeme pos rest = .ok found) : found.Lexed := by
  unfold slashLexeme at reads
  split at reads
  · cases reads
    exact fun _ same => nomatch same
  · split at reads
    · cases reads
      intro _ same
      contradiction
    · contradiction
  · cases reads
    apply Lexeme.lexed
    exact ⟨trivial, Kind.noConfusion⟩

theorem lexed_floatLiteral (reads : floatLiteral whole fraction suffix = .ok kind) :
    kind.Lexed ∧ kind ≠ .eof := by
  unfold floatLiteral at reads
  dsimp only at reads
  split at reads <;> first | (cases reads; exact ⟨trivial, Kind.noConfusion⟩) | contradiction

theorem lexed_integerLiteral (reads : integerLiteral digits suffix = .ok kind) :
    kind.Lexed ∧ kind ≠ .eof := by
  unfold integerLiteral at reads
  split at reads
  · contradiction
  · dsimp only at reads
    split at reads
    · next small =>
      cases reads
      exact ⟨small, Kind.noConfusion⟩
    · contradiction

theorem lexed_numberLexeme (reads : numberLexeme pos first rest = .ok found) : found.Lexed := by
  unfold numberLexeme at reads
  dsimp only at reads
  obtain ⟨kind, made, rfl⟩ := Success.map_ok.mp reads
  apply Lexeme.lexed
  obtain ⟨-, made⟩ | ⟨-, made⟩ := ite_eq_iff.mp made
  · exact lexed_floatLiteral made
  · exact lexed_integerLiteral made

theorem lexed_lexeme (reads : lexeme pos first rest = .ok found) : found.Lexed := by
  unfold lexeme at reads
  split at reads
  case h_13 =>
    cases reads
    unfold dotLexeme
    split <;> (apply Lexeme.lexed; exact ⟨trivial, Kind.noConfusion⟩)
  case h_20 => exact lexed_slashLexeme reads
  case h_21 => exact lexed_stringLexeme reads
  case h_23 =>
    split at reads
    · exact lexed_numberLexeme reads
    · split at reads
      · next start =>
        cases reads
        exact lexed_wordLexeme start pos rest
      · contradiction
  all_goals cases reads
  all_goals first
    | (apply Lexeme.lexed; exact ⟨trivial, Kind.noConfusion⟩)
    | (apply Lexeme.lexed_pair <;> exact ⟨trivial, Kind.noConfusion⟩)

theorem scan_lexed {pos : Position} (reads : scan file skip pos text = .ok tokens) :
    ∀ token ∈ tokens, token.kind.Lexed := by
  induction text generalizing skip pos tokens with
  | nil =>
    rw [scan] at reads
    cases reads
    simp [Kind.Lexed]
  | cons c text ih =>
    cases skip with
    | succ skip => exact ih reads
    | zero =>
      rw [scan] at reads
      split at reads
      · exact ih reads
      · split at reads
        · contradiction
        · next found lexes =>
          rw [Success.bind_ok] at reads
          obtain ⟨later, scans, reads⟩ := reads
          have lexed := lexed_lexeme lexes
          split at reads
          · next kind same =>
            cases reads
            exact forall_mem_cons.mpr ⟨(lexed kind same).1, ih scans⟩
          · cases reads
            exact ih scans

/-- A text that spells tokens consists of them. -/
theorem Spells.tokenize (spells : Spells Apart text.toList kinds) (file : Path) :
    ∃ tokens pos, tokens.map Token.kind = kinds ∧
      tokenize file text = .ok (tokens ++ [⟨.eof, pos⟩]) := by
  obtain ⟨tokens, same, reads⟩ := spells file {} [] .nil
  rw [append_nil] at reads
  exact ⟨tokens, _, same, reads⟩

/-- The names are just the texts that are read as themselves, as one word. -/
theorem isWord_iff {text : String} {file : Path} : isWord text = true ↔
    ∃ word pos, word.kind = .word text ∧ tokenize file text = .ok [word, ⟨.eof, pos⟩] := by
  constructor
  · intro name
    obtain ⟨tokens, pos, same, reads⟩ := (spells_name name).tokenize file
    obtain ⟨word, rfl, kind⟩ := map_eq_singleton_iff.mp same
    exact ⟨word, pos, kind, reads⟩
  · rintro ⟨word, pos, kind, reads⟩
    have lexed := scan_lexed reads word mem_cons_self
    rwa [kind] at lexed

end TernLang.Token
