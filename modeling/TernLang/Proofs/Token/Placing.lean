import Mathlib.Data.List.Induction
import TernLang.Proofs.Success
import TernLang.Token.Lexer

/-! Where tokens stand. Each loop over characters keeps line and column by itself; together they
count the line feeds and the characters of the last line. So a token has the line and the column of
its first character, however many lines the comments and strings in front of it span, and a failure
has the line on which the token, string or comment starts that cannot be read. -/
namespace TernLang

namespace Position

/-- The position after one character. -/
def step (pos : Position) (c : Char) : Position :=
  if c = '\n' then ⟨pos.line + 1, 1⟩ else ⟨pos.line, pos.column + 1⟩

def after (pos : Position) (text : List Char) : Position := text.foldl step pos

/-- Line and column behind a text, both from one. -/
def behind (text : List Char) : Position :=
  ⟨1 + text.count '\n', 1 + (text.reverse.takeWhile (· ≠ '\n')).length⟩

theorem after_append (pos : Position) (text more : List Char) :
    pos.after (text ++ more) = (pos.after text).after more := List.foldl_append

theorem after_eq_behind (text : List Char) : after {} text = behind text := by
  induction text using List.reverseRecOn with
  | nil => rfl
  | append_singleton text c ih =>
    rw [after_append, ih]
    by_cases feed : c = '\n'
    · simp [after, step, behind, feed, Nat.add_assoc]
    · simp [after, step, behind, feed, Nat.add_comm]

theorem advance_eq_step {c : Char} (inside : c ≠ '\n') (pos : Position) :
    pos.advance = pos.step c := by
  rw [step, if_neg inside, advance]

theorem feed_eq_step (pos : Position) (c : Char) :
    (if c = '\n' then pos.advance.feed else pos.advance) = pos.step c := rfl

end Position

namespace Token

variable {pos : Position} {first c : Char} {text rest : List Char} {found : Lexeme}
  {holds : Char → Bool}

/-! The loops. -/

theorem readWhile_eq (inside : holds '\n' = false) (pos : Position) (text : List Char) :
    readWhile holds pos text = (text.takeWhile holds, pos.after (text.takeWhile holds)) := by
  induction text generalizing pos with
  | nil => rfl
  | cons c text ih =>
    rw [readWhile, List.takeWhile_cons]
    cases held : holds c with
    | false => rfl
    | true =>
      have other : c ≠ '\n' := by
        rintro rfl
        exact Bool.false_ne_true (inside.symm.trans held)
      rw [if_pos rfl, ih, Position.advance_eq_step other]
      rfl

theorem readString_eq (pos : Position) (text : List Char) :
    readString pos text = (text.takeWhile (· != '"'), pos.after (text.takeWhile (· != '"'))) := by
  induction text generalizing pos with
  | nil => rfl
  | cons c text ih =>
    rw [readString, List.takeWhile_cons]
    by_cases quote : c = '"'
    · simp [quote, Position.after]
    · rw [if_neg quote, Position.feed_eq_step]
      dsimp only
      rw [ih]
      simp [quote, Position.after]

/-- The lexeme is a first part of the text, and its position is behind that part. -/
def Lexeme.Covers (pos : Position) (rest : List Char) (found : Lexeme) : Prop :=
  ∃ text later, rest = text ++ later ∧ found.extra = text.length ∧ found.position = pos.after text

theorem readComment_covers (reads : readComment pos rest = some (length, behind))
    (kind : Option Kind) :
    Lexeme.Covers pos rest ⟨kind, length, behind⟩ := by
  induction rest generalizing pos length with
  | nil => contradiction
  | cons c rest ih =>
    unfold readComment at reads
    split at reads
    · next same =>
      cases reads
      cases same
      exact ⟨['*', '/'], _, rfl, rfl, rfl⟩
    · next same =>
      cases same
      obtain ⟨⟨length, behind⟩, reads, same⟩ := Option.map_eq_some_iff.mp reads
      cases same
      obtain ⟨text, later, rfl, rfl, rfl⟩ := ih reads
      exact ⟨c :: text, later, rfl, rfl, rfl⟩
    · contradiction

theorem fractionPart_covers (pos : Position) (text : List Char) :
    ∃ point later, text = point ++ later ∧
    (if (fractionPart pos text).1.isEmpty then 0 else (fractionPart pos text).1.length + 1) =
      point.length ∧
      (fractionPart pos text).2 = pos.after point := by
  unfold fractionPart
  split
  · next next rest =>
    split
    · next digit =>
      rw [readWhile_eq rfl, List.takeWhile_cons_of_pos digit]
      refine ⟨'.' :: next :: rest.takeWhile Char.isDigit, rest.dropWhile Char.isDigit, ?_, rfl, rfl⟩
      rw [List.cons_append, List.cons_append, List.takeWhile_append_dropWhile]
    · exact ⟨[], _, rfl, rfl, rfl⟩
  · exact ⟨[], text, rfl, rfl, rfl⟩

theorem numberLexeme_covers (reads : numberLexeme pos first rest = .ok found) :
    found.Covers pos rest := by
  unfold numberLexeme at reads
  rw [readWhile_eq rfl] at reads
  dsimp only at reads
  obtain ⟨point, later, cut, length, behind⟩ :=
    fractionPart_covers (pos.after (rest.takeWhile Char.isDigit)) (rest.drop (rest.takeWhile Char.isDigit).length)
  generalize fractionPart _ (rest.drop (rest.takeWhile Char.isDigit).length) = part at reads length behind
  rw [length, cut, List.drop_left, readWhile_eq rfl] at reads
  obtain ⟨kind, -, rfl⟩ := Success.map_ok.mp reads
  refine ⟨rest.takeWhile Char.isDigit ++ point ++ later.takeWhile Char.isAlpha,
    later.dropWhile Char.isAlpha, ?_, ?_, ?_⟩
  · rw [List.append_assoc, List.append_assoc, List.takeWhile_append_dropWhile, ← cut]
    exact (List.prefix_iff_eq_append.mp (List.takeWhile_prefix _)).symm
  · rw [List.length_append, List.length_append]
  · rw [behind, Position.after_append, Position.after_append]

theorem slashLexeme_covers (reads : slashLexeme pos rest = .ok found) : found.Covers pos rest := by
  unfold slashLexeme at reads
  split at reads
  · next rest =>
    rw [readWhile_eq rfl] at reads
    cases reads
    refine ⟨'/' :: rest.takeWhile (· != '\n'), rest.dropWhile (· != '\n'), ?_, Nat.add_comm .., rfl⟩
    rw [List.cons_append, List.takeWhile_append_dropWhile]
  · next rest =>
    split at reads
    · next length behind comment =>
      cases reads
      obtain ⟨text, later, rfl, rfl, rfl⟩ := readComment_covers comment none
      exact ⟨'*' :: text, later, rfl, Nat.add_comm .., rfl⟩
    · contradiction
  · cases reads
    exact ⟨[], rest, rfl, rfl, rfl⟩

theorem stringLexeme_covers (reads : stringLexeme pos rest = .ok found) :
    found.Covers pos rest := by
  rw [stringLexeme, readString_eq] at reads
  dsimp only at reads
  split at reads
  · next shorter =>
    cases reads
    have whole : rest.takeWhile (· != '"') ++ rest.dropWhile (· != '"') = rest := List.takeWhile_append_dropWhile
    have stops := List.head?_dropWhile_not (· != '"') rest
    cases left : rest.dropWhile (· != '"') with
    | nil =>
      rw [left, List.append_nil] at whole
      exact absurd (congrArg List.length whole) (Nat.ne_of_lt shorter)
    | cons quote later =>
      rw [left] at whole stops
      obtain rfl : quote = '"' := by simpa using stops
      refine ⟨rest.takeWhile (· != '"') ++ ['"'], later, ?_, by simp, ?_⟩
      · rw [List.append_assoc]
        exact whole.symm
      · rw [Position.after_append]
        rfl
  · contradiction

theorem pair_covers (inside : next ≠ '\n') (long short : Kind) (pos : Position) (rest : List Char) :
    (Lexeme.pair next long short pos rest).Covers pos rest := by
  unfold Lexeme.pair
  split
  · next c rest =>
    split
    · next same => exact ⟨[c], rest, rfl, rfl, Position.advance_eq_step (same ▸ inside) pos⟩
    · exact ⟨[], _, rfl, rfl, rfl⟩
  · exact ⟨[], _, rfl, rfl, rfl⟩

theorem lexeme_covers (reads : lexeme pos.advance first rest = .ok found) :
    found.Covers (pos.step first) rest := by
  by_cases feed : first = '\n'
  · subst feed
    cases reads
    exact ⟨[], rest, rfl, rfl, rfl⟩
  rw [Position.advance_eq_step feed] at reads
  generalize pos.step first = pos at reads
  unfold lexeme at reads
  split at reads
  case h_13 =>
    cases reads
    unfold dotLexeme
    split
    · exact ⟨['.', '.'], _, rfl, rfl, rfl⟩
    · exact ⟨[], rest, rfl, rfl, rfl⟩
  case h_20 => exact slashLexeme_covers reads
  case h_21 => exact stringLexeme_covers reads
  case h_22 => contradiction
  case h_23 =>
    split at reads
    · exact numberLexeme_covers reads
    · split at reads
      · rw [wordLexeme, readWhile_eq rfl] at reads
        cases reads
        exact ⟨_, _, List.takeWhile_append_dropWhile.symm, rfl, rfl⟩
      · contradiction
  all_goals cases reads
  all_goals first | exact pair_covers (by decide) .. | exact ⟨[], rest, rfl, rfl, rfl⟩

/-! The scan. -/

/-- How the rest of a text is read, behind what was read before. Blanks, comments and tokens follow
each other without a gap. A token has the position behind all that was read before it, as the end
mark has, and a failure the line of that position. -/
inductive Placed (file : Path) : (before rest : List Char) → Except Error (List Token) → Prop where
  | ends (before : List Char) : Placed file before [] (.ok [⟨.eof, .behind before⟩])
  | blank {before rest : List Char} {c : Char} {res : Except Error (List Token)} :
    isBlank c = true →
    Placed file (before ++ [c]) rest res → Placed file before (c :: rest) res
  | comment {before text rest : List Char} {first : Char} {res : Except Error (List Token)} :
    isBlank first = false →
    lexeme (Position.behind before).advance first (text ++ rest) =
      .ok ⟨none, text.length, .behind (before ++ first :: text)⟩ →
    Placed file (before ++ first :: text) rest res →
      Placed file before (first :: (text ++ rest)) res
  | token {before text rest : List Char} {first : Char} {kind : Kind}
    {res : Except Error (List Token)} :
    isBlank first = false →
    lexeme (Position.behind before).advance first (text ++ rest) =
      .ok ⟨some kind, text.length, .behind (before ++ first :: text)⟩ →
    Placed file (before ++ first :: text) rest res →
    Placed file before (first :: (text ++ rest)) (res.map (⟨kind, .behind before⟩ :: ·))
  | fails {before rest : List Char} {first : Char} {reason : LexError} : isBlank first = false →
    lexeme (Position.behind before).advance first rest = .error reason →
    Placed file before (first :: rest) (.error (.lex ⟨file, (Position.behind before).line⟩ reason))

theorem scan_skip (file : Path) (pos : Position) (text rest : List Char) :
    scan file text.length pos (text ++ rest) = scan file 0 pos rest := by
  induction text with
  | nil => rfl
  | cons c text ih => exact ih

theorem isBlank_ne_feed (blank : isBlank c = true) : c ≠ '\n' := by
  rintro rfl
  contradiction

theorem scan_placed (file : Path) (before rest : List Char) :
    Placed file before rest (scan file 0 (.behind before) rest) := by
  induction size : rest.length using Nat.strongRecOn generalizing before rest with
  | _ size ih =>
    have step (text : List Char) : (Position.behind before).after text = .behind (before ++ text) := by
      rw [← Position.after_eq_behind, ← Position.after_append, Position.after_eq_behind]
    cases rest with
    | nil => exact .ends before
    | cons c rest =>
      rw [scan]
      cases blank : isBlank c with
      | true =>
        rw [if_pos rfl, Position.advance_eq_step (isBlank_ne_feed blank)]
        have pos : (Position.behind before).step c = .behind (before ++ [c]) := step [c]
        rw [pos]
        exact .blank blank (ih rest.length (by simp [← size]) (before ++ [c]) rest rfl)
      | false =>
        rw [if_neg Bool.false_ne_true]
        cases found : lexeme (Position.behind before).advance c rest with
        | error reason => exact .fails blank found
        | ok found' =>
          obtain ⟨kind?, extra, pos⟩ := found'
          obtain ⟨text, later, rfl, rfl, rfl⟩ := lexeme_covers found
          have pos : ((Position.behind before).step c).after text = .behind (before ++ c :: text) := step (c :: text)
          have onward := ih later.length (by rw [← size, List.length_cons, List.length_append]; omega) (before ++ c :: text) later rfl
          simp only [pos] at found ⊢
          rw [scan_skip]
          cases kind? with
          | none =>
            have whole := Placed.comment blank found onward
            cases outcome : scan file 0 (.behind (before ++ c :: text)) later <;> rwa [outcome] at whole
          | some kind =>
            have whole := Placed.token blank found onward
            cases outcome : scan file 0 (.behind (before ++ c :: text)) later <;> rwa [outcome] at whole

/-- Every token has the position of its first character, the end mark that of the end, and a failure
the line of the first character that it is about. -/
theorem tokenize_placed (file : Path) (src : String) :
    Placed file [] src.toList (tokenize file src) :=
  scan_placed file [] src.toList

/-- A comment and a string that span lines, and a carriage return. -/
def spanning : String := "a /* b\n c */ \"d\n e\" f\r\n"

theorem spanning_placed :
    Placed ⟨"a.tern"⟩ [] spanning.toList
      (.ok [⟨.word "a", ⟨1, 1⟩⟩, ⟨.string "d\n e", ⟨2, 7⟩⟩, ⟨.word "f", ⟨3, 5⟩⟩,
      ⟨.newline, ⟨3, 7⟩⟩, ⟨.eof, ⟨4, 1⟩⟩]) ∧
    Placed ⟨"a.tern"⟩ [] "/* a\n/* b".toList (.error (.lex ⟨⟨"a.tern"⟩, 1⟩ .unterminatedComment)) :=
      by
  have reads : tokenize ⟨"a.tern"⟩ spanning =
      .ok [⟨.word "a", ⟨1, 1⟩⟩, ⟨.string "d\n e", ⟨2, 7⟩⟩, ⟨.word "f", ⟨3, 5⟩⟩,
      ⟨.newline, ⟨3, 7⟩⟩, ⟨.eof, ⟨4, 1⟩⟩] := Success.ok_of_toOption (by decide +kernel)
  have fails : tokenize ⟨"a.tern"⟩ "/* a\n/* b" = .error (.lex ⟨⟨"a.tern"⟩, 1⟩ .unterminatedComment) := by rfl
  exact ⟨reads ▸ tokenize_placed ⟨"a.tern"⟩ spanning, fails ▸ tokenize_placed ⟨"a.tern"⟩ "/* a\n/* b"⟩

end Token
end TernLang
