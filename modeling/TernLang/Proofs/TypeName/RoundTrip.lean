import TernLang.Proofs.Parse.Progress
import TernLang.Proofs.Parse.Taking
import TernLang.Proofs.TypeName.Names

/-! Type names are read as they are written. The text of a type spells its tokens, and reading takes
just these tokens and gives the type again, whatever follows. -/
namespace TernLang
open List
open Token (Apart Spells isWord)

set_option mvcgen.warning false

namespace TypeName

/-- Every name in the type is read as a word. -/
def Written (type : TypeName) : Prop := ∀ name ∈ type.names, isWord name = true

variable {name : String} {tgt : TypeName}

@[grind =] theorem written_named : (named name).Written ↔ isWord name = true := by simp [Written, names]

@[grind =] theorem written_pointer : (pointer tgt).Written ↔ tgt.Written := Iff.rfl

@[grind =] theorem written_array : (array tgt).Written ↔ tgt.Written := Iff.rfl

@[grind =] theorem written_function {params : List TypeName} :
    (function params tgt stdcall variadic).Written ↔ (∀ type ∈ params, type.Written) ∧
      tgt.Written := by
  simp only [Written, names, mem_append, mem_namesList]
  grind

instance (type : TypeName) : Decidable type.Written :=
  inferInstanceAs (Decidable (∀ name ∈ type.names, _))

mutual

def kinds : TypeName → List Token.Kind
  | named name => [.word name]
  | pointer tgt => .operator .star :: tgt.kinds
  | array elem => .leftBracket :: .rightBracket :: elem.kinds
  | function params res stdcall variadic =>
    (if stdcall then [.keyword .stdcall] else []) ++
      .keyword .function :: .leftParen :: (paramKinds params variadic ++ .rightParen :: res.kinds)

def paramKinds : List TypeName → Bool → List Token.Kind
  | [], variadic => if variadic then [.ellipsis] else []
  | type :: types, variadic =>
    type.kinds ++ if types.isEmpty && ! variadic then [] else .comma :: paramKinds types variadic

end

/-! Writing. -/

/-- What stands between the parentheses of a signature. -/
def paramText (params : List TypeName) (variadic : Bool) : String :=
  textList params ++ (if variadic then (if params.isEmpty then "..." else ", ...") else "")

theorem paramText_cons (type : TypeName) (types : List TypeName) (variadic : Bool) :
    paramText (type :: types) variadic =
      type.text ++ if types.isEmpty && ! variadic then "" else ", " ++ paramText types variadic :=
        by
  cases types <;> cases variadic <;> simp [paramText, textList, String.append_assoc]

theorem spells_ellipsis : Spells Apart ['.', '.', '.'] [.ellipsis] :=
  Spells.of_lexeme (by decide) fun _ _ _ => ⟨_, rfl⟩

mutual

theorem spells_text (type : TypeName) (written : type.Written) :
    Spells Apart type.text.toList type.kinds := by
  cases type with
  | named name => exact Token.spells_name (written name mem_cons_self)
  | pointer tgt =>
    rw [text, String.toList_append]
    exact (spells_text tgt written).mark '*' rfl
  | array elem =>
    rw [text, String.toList_append]
    exact ((spells_text elem written).mark ']' rfl).mark '[' rfl
  | function params res stdcall variadic =>
    have params := spells_params params variadic fun name mem => written name (mem_append_left _ mem)
    have res := spells_text res fun name mem => written name (mem_append_right _ mem)
    have sig := (Token.spells_keyword .function).thenMark '(' rfl (params.thenMark ')' rfl res.blank)
    cases stdcall with
    | false => simpa [text, kinds, paramText, Keyword.text] using sig
    | true => simpa [text, kinds, paramText, Keyword.text] using (Token.spells_keyword .stdcall).thenBlank sig

theorem spells_params (params : List TypeName) (variadic : Bool)
    (written : ∀ name ∈ namesList params, isWord name = true) :
    Spells Apart (paramText params variadic).toList (paramKinds params variadic) := by
  cases params with
  | nil =>
    cases variadic with
    | false => exact .nil
    | true => exact spells_ellipsis
  | cons type types =>
    have first := spells_text type fun name mem => written name (mem_append_left _ mem)
    have later := spells_params types variadic fun name mem => written name (mem_append_right _ mem)
    rw [paramText_cons, paramKinds, String.toList_append]
    split
    · exact first.append .nil fun _ apart => apart
    · rw [String.toList_append]
      exact first.thenMark ',' rfl later.blank

end

/-! Reading. -/

def startsType : Token.Kind → Prop
  | .word _ | .operator .star | .leftBracket | .keyword .stdcall | .keyword .function => True
  | _ => False

theorem exists_kinds (type : TypeName) :
    ∃ kind later, type.kinds = kind :: later ∧ startsType kind := by
  cases type with
  | named name => exact ⟨_, _, rfl, trivial⟩
  | pointer tgt => exact ⟨_, _, rfl, trivial⟩
  | array elem => exact ⟨_, _, rfl, trivial⟩
  | function params res stdcall variadic => cases stdcall <;> exact ⟨_, _, rfl, trivial⟩

theorem exists_paramKinds {params : List TypeName} (some : params ≠ [] ∨ variadic = true) :
    ∃ kind later, paramKinds params variadic = kind :: later ∧
      (startsType kind ∨ kind = .ellipsis) := by
  cases params with
  | nil =>
    obtain rfl : variadic = true := by simpa using some
    exact ⟨_, _, rfl, .inr rfl⟩
  | cons type types =>
    obtain ⟨kind, later, same, starts⟩ := type.exists_kinds
    rw [paramKinds, same]
    exact ⟨kind, _, rfl, .inl starts⟩

theorem length_le_paramKinds (params : List TypeName) (variadic : Bool) :
    params.length ≤ (paramKinds params variadic).length := by
  induction params with
  | nil => exact Nat.zero_le _
  | cons type types ih =>
    obtain ⟨kind, later, same, -⟩ := type.exists_kinds
    cases types with
    | nil => simp [paramKinds, same]
    | cons second types =>
      rw [paramKinds, if_neg (by simp), same]
      simp only [length_append, length_cons] at ih ⊢
      omega

end TypeName

namespace Parse

/-- Types are taken that have no more tokens than there is fuel. -/
def TypesTaken (fuel : Nat) : Prop :=
  ∀ type : TypeName, type.kinds.length ≤ fuel → Takes (fun _ => True) type.kinds (· = type) (readType fuel)

def SignaturesTaken (fuel : Nat) : Prop :=
  ∀ (params : List TypeName) (res : TypeName) (stdcall variadic : Bool),
    (TypeName.paramKinds params variadic).length + res.kinds.length + 2 ≤ fuel →
    Takes (fun _ => True) (.leftParen :: (TypeName.paramKinds params variadic ++ .rightParen :: res.kinds))
      (· = .function params res stdcall variadic) (readSignature fuel stdcall)

/-- A comma would go on with the parameters. -/
def ParamsTaken (fuel : Nat) : Prop :=
  ∀ (params : List TypeName) (variadic : Bool), (params ≠ [] ∨ variadic = true) →
    (TypeName.paramKinds params variadic).length < fuel →
    Takes (· ≠ .comma) (TypeName.paramKinds params variadic) (· = (params, variadic)) (readParams fuel)

variable {fuel : Nat}

theorem readType_takes (types : TypesTaken fuel) (signatures : SignaturesTaken fuel) :
    TypesTaken (fuel + 1) := by
  intro type enough
  unfold readType
  cases type with
  | named name =>
    apply Takes.accept_other (by simp [TypeName.kinds])
    rw [if_neg (by decide)]
    apply Takes.cursor
    intro cursor ahead _ current _
    rw [if_neg (by simp [Cursor.sliceAhead, current])]
    apply Takes.peek
    apply Takes.advance (by simp)
    exact .pure rfl
  | pointer tgt =>
    rw [TypeName.kinds] at enough ⊢
    apply Takes.accept (by simp)
    rw [if_pos rfl]
    apply (types tgt (by simpa using enough)).finish
    rintro _ rfl
    rfl
  | array elem =>
    rw [TypeName.kinds] at enough ⊢
    apply Takes.accept_other (by simp)
    rw [if_neg (by decide)]
    apply Takes.cursor
    intro cursor ahead _ current next
    rw [if_pos (by simp [Cursor.sliceAhead, current, next])]
    apply Takes.advance (by simp)
    apply Takes.advance (by simp)
    rw [length_cons, length_cons] at enough
    apply (types elem (by omega)).finish
    rintro _ rfl
    rfl
  | function params res stdcall variadic =>
    rw [TypeName.kinds] at enough ⊢
    simp only [length_append, length_cons] at enough
    have sig := signatures params res stdcall variadic (by omega)
    cases stdcall with
    | false =>
      change Takes _ (.keyword .function :: _) _ _
      apply Takes.accept_other (by simp)
      rw [if_neg (by decide)]
      apply Takes.cursor
      intro cursor ahead _ current _
      rw [if_neg (by simp [Cursor.sliceAhead, current])]
      apply Takes.peek
      exact Takes.advance (by simp) sig
    | true =>
      change Takes _ (.keyword .stdcall :: _) _ _
      apply Takes.accept_other (by simp)
      rw [if_neg (by decide)]
      apply Takes.cursor
      intro cursor ahead _ current _
      rw [if_neg (by simp [Cursor.sliceAhead, current])]
      apply Takes.peek
      apply Takes.advance (by simp)
      exact Takes.expectKeyword sig

theorem readSignature_takes (types : TypesTaken fuel) (lists : ParamsTaken fuel) :
    SignaturesTaken (fuel + 1) := by
  intro params res stdcall variadic enough
  unfold readSignature
  apply Takes.expect (by simp)
  extract_lets complete
  have completes : Takes (fun _ => True) (.rightParen :: res.kinds) (· = .function params res stdcall variadic)
      (complete (params, variadic)) := by
    apply Takes.expect (by simp)
    apply (types res (by omega)).finish
    rintro _ rfl
    rfl
  by_cases none : params = [] ∧ variadic = false
  · obtain ⟨rfl, rfl⟩ := none
    apply Takes.check
    rw [decide_eq_true rfl, if_pos rfl]
    exact completes
  · have some : params ≠ [] ∨ variadic = true := by
      rw [← Bool.not_eq_false]
      exact not_and_or.mp none
    have read := (lists params variadic some (by omega)).bind (fun val same => same ▸ completes) (by simp)
    obtain ⟨kind, later, same, starts⟩ := TypeName.exists_paramKinds some
    have opens : kind ≠ .rightParen := by
      rintro rfl
      simp [TypeName.startsType] at starts
    rw [same, cons_append] at read ⊢
    apply Takes.check
    rw [decide_eq_false opens, if_neg (by decide)]
    exact read

theorem readParams_takes (types : TypesTaken fuel) (lists : ParamsTaken fuel) :
    ParamsTaken (fuel + 1) := by
  intro params variadic some enough
  unfold readParams
  cases params with
  | nil =>
    obtain rfl : variadic = true := by simpa using some
    apply Takes.accept (by simp)
    exact .pure rfl
  | cons type rest =>
    obtain ⟨kind, later, same, starts⟩ := type.exists_kinds
    have other : kind ≠ .ellipsis := by
      rintro rfl
      exact starts
    rw [TypeName.paramKinds] at enough ⊢
    rw [length_append] at enough
    -- what is behind the first parameter
    generalize tail : (if (rest.isEmpty && ! variadic) = true then [] else
      .comma :: TypeName.paramKinds rest variadic : List Token.Kind) = kinds at enough ⊢
    rw [same, cons_append]
    refine Takes.accept_other (fun _ _ => other) ?_
    rw [if_neg (by decide), ← cons_append, ← same]
    refine (types type (by omega)).bind ?_ fun _ _ => trivial
    intro val read
    rw [read]
    by_cases last : (rest.isEmpty && ! variadic) = true
    · rw [if_pos last] at tail
      subst tail
      obtain ⟨rfl, rfl⟩ : rest = [] ∧ variadic = false := by simpa using last
      exact Takes.accept_other (fun _ => id) (.pure rfl)
    · rw [if_neg last] at tail
      subst tail
      have more : rest ≠ [] ∨ variadic = true := by
        rw [← Bool.not_eq_false]
        exact not_and_or.mp (by simpa using last)
      rw [length_cons] at enough
      apply Takes.accept (by simp)
      rw [if_pos rfl]
      apply (lists rest variadic more (by omega)).finish
      rintro _ rfl
      rfl

theorem types_taken (fuel : Nat) : TypesTaken fuel ∧ SignaturesTaken fuel ∧ ParamsTaken fuel := by
  induction fuel with
  | zero =>
    refine ⟨fun type enough => ?_, fun _ _ _ _ enough => absurd enough (by omega),
      fun _ _ _ enough => absurd enough (by omega)⟩
    obtain ⟨kind, later, same, -⟩ := type.exists_kinds
    rw [same] at enough
    contradiction
  | succ fuel ih =>
    obtain ⟨types, signatures, lists⟩ := ih
    exact ⟨readType_takes types signatures, readSignature_takes types lists, readParams_takes types lists⟩

theorem typeName_takes (type : TypeName) :
    Takes (fun _ => True) type.kinds (· = type) typeName := by
  apply Takes.budget
  intro fuel enough
  exact (types_taken fuel).1 type (by omega)

/-! Types that are read. -/

variable (before : Reading)

@[grind =] def ReadsType (type : TypeName) (after : Reading) : Prop :=
  Passes before after ∧ (before.cursor.Lexed → type.Written)

@[grind =] def ReadsTypes (types : List TypeName) (after : Reading) : Prop :=
  Passes before after ∧ (before.cursor.Lexed → ∀ type ∈ types, type.Written)

/-- Every reader of types goes on, with a budget that covers the tokens. -/
structure TypesRun (fuel : Nat) : Prop where
  type (before : Reading) :
    Runs (before.cursor.Within 1 fuel) before (ReadsType before) (readType fuel)
  sig (stdcall : Bool) (before : Reading) :
    Runs (before.cursor.Within 1 fuel) before (ReadsType before) (readSignature fuel stdcall)
  params (before : Reading) : Runs (before.cursor.Within 2 fuel) before (fun found =>
    ReadsTypes before found.1) (readParams fuel)

theorem types_run (fuel : Nat) : TypesRun fuel := by
  induction fuel with
  | zero => constructor <;> intros <;> mvcgen [readType, readSignature, readParams] <;> grind -ring -linarith
  | succ fuel inner =>
    obtain ⟨type, sig, params⟩ := inner
    constructor <;> intros <;> apply Runs.intro
    · mvcgen [readType, type, sig] <;> clear type sig params <;> grind -ring -linarith
    · mvcgen [readSignature, type, params] <;> clear type sig params <;> grind -ring -linarith
    · mvcgen [readParams, type, params] <;> clear type sig params <;> grind -ring -linarith

@[spec] theorem typeName_runs :
    Runs before.cursor.Ends before (ReadsType before) typeName := by
  have type (fuel : Nat) := (types_run fuel).type
  apply Runs.intro
  mvcgen [typeName, type] <;> clear type <;> grind -ring -linarith

end Parse

namespace TypeName

/-- The tokens of the text are taken, and what follows is left. -/
theorem reads_text (type : TypeName) (written : type.Written) (file : Path) :
    ∃ tokens pos, Token.tokenize file type.text = .ok (tokens ++ [⟨.eof, pos⟩]) ∧
      ∀ next rest nodes, ∃ nodes',
        Parse.typeName.run ⟨.start file (tokens ++ next :: rest), nodes⟩ =
        .ok (type, ⟨⟨file, next, rest⟩, nodes'⟩) := by
  obtain ⟨tokens, pos, kinds, scans⟩ := (spells_text type written).tokenize file
  refine ⟨tokens, pos, scans, fun next rest nodes => ?_⟩
  obtain ⟨val, nodes', rfl, runs⟩ := Parse.typeName_takes type file nodes tokens next rest kinds trivial
  exact ⟨nodes', runs⟩

theorem parse_text (type : TypeName) (written : type.Written) :
    TypeName.parse type.text = .ok type := by
  obtain ⟨tokens, pos, scans, runs⟩ := reads_text type written loneFile
  obtain ⟨nodes', runs⟩ := runs ⟨.eof, pos⟩ [] 0
  rw [TypeName.parse, Success.bind_ok]
  refine ⟨_, scans, ?_⟩
  rw [Success.bind_ok]
  exact ⟨_, runs, if_pos rfl⟩

theorem text_inj {type other : TypeName} (written : type.Written) (alike : other.Written)
    (same : other.text = type.text) :
    other = type := by
  have twice := parse_text other alike
  rw [same, parse_text type written] at twice
  exact (Except.ok.inj twice).symm

/-- Types that are read from a text have words for names, and each type with such names is what its
text is read as, alone or with other tokens behind it. So no two of them are written alike. -/
theorem text_roundTrip :
    (∀ type : TypeName, type.Written ↔ ∀ name ∈ type.names, ∀ file, ∃ word pos,
      word.kind = .word name ∧ Token.tokenize file name = .ok [word, ⟨.eof, pos⟩]) ∧
    (∀ (file : Path) (src : String) (before after : List Token) (nodes : Nat) (type : TypeName)
      (reading : Reading),
      Token.tokenize file src = .ok (before ++ after) →
      Parse.typeName.run ⟨.start file after, nodes⟩ = .ok (type, reading) → type.Written) ∧
    ∀ type : TypeName, type.Written →
      TypeName.parse type.text = .ok type ∧
      (∀ file, ∃ tokens pos, Token.tokenize file type.text = .ok (tokens ++ [⟨.eof, pos⟩]) ∧
        ∀ next rest nodes, ∃ nodes',
          Parse.typeName.run ⟨.start file (tokens ++ next :: rest), nodes⟩ =
          .ok (type, ⟨⟨file, next, rest⟩, nodes'⟩)) ∧
      ∀ other : TypeName, other.Written → other.text = type.text → other = type := by
  refine ⟨fun type => ?_, fun file src before after nodes type reading scans runs => ?_, fun type written => ?_⟩
  · exact forall₂_congr fun name _ =>
      ⟨fun word file => Token.isWord_iff.mp word, fun word => Token.isWord_iff.mpr (word loneFile)⟩
  · have lexed : ∀ token ∈ after, token.kind.Lexed :=
      fun token mem => Token.scan_lexed scans token (mem_append_right _ mem)
    exact ((Parse.typeName_runs _).ok runs).2 (Cursor.lexed_start lexed)
  · exact ⟨parse_text type written, reads_text type written, fun other alike same => text_inj written alike same⟩

/-- A callback with a pointer, a slice and any further arguments. -/
def callback : TypeName :=
  .function [.pointer (.named "ubyte"), .array (.named "float")] (.named "int") true true

theorem callback_roundTrip :
    callback.text = "stdcall def(*ubyte, []float, ...) int" ∧ callback.Written ∧
    TypeName.parse callback.text = .ok callback :=
  ⟨by decide, by decide, (text_roundTrip.2.2 callback (by decide)).1⟩

end TypeName
end TernLang
