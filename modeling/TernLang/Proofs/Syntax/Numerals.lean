import TernLang.Proofs.Core.Words
import TernLang.Proofs.Syntax.Climbing

/-! Integer literals. The digits of a literal, with a sign in front of them, stand for the number
that they write, if the type of the literal has that number, and for no other number if it does not.
-/
namespace TernLang
open Token

/-- Digits of an integer literal, with the letters behind them that select its type. -/
structure Numeral where
  first : Char
  part : List Char
  suffix : String
  kind : IntKind
  digit : first.isDigit = true
  digits : ∀ c ∈ part, c.isDigit = true
  typed : integerKind? suffix = some kind

namespace Numeral
variable (numeral : Numeral) (negated : Bool)

def text : List Char := numeral.first :: (numeral.part ++ numeral.suffix.toList)

def magnitude : Nat := decimal (numeral.first :: numeral.part)

/-- The type has the number; every magnitude that an unsigned type has can be negated. -/
def Admitted : Prop :=
  if numeral.kind.isSigned then
    numeral.magnitude ≤ if negated then twoPow (numeral.kind.bits - 1) else twoPow (numeral.kind.bits - 1) - 1
  else numeral.magnitude ≤ twoPow numeral.kind.bits - 1

def value : Int :=
  if negated then
    if numeral.kind.isSigned then -numeral.magnitude
    else (twoPow numeral.kind.bits - numeral.magnitude) % twoPow numeral.kind.bits
  else numeral.magnitude

variable {numeral negated}

theorem Admitted.le (admitted : numeral.Admitted negated) :
    numeral.magnitude ≤ numeral.kind.greatestMagnitude := by
  unfold Admitted at admitted
  unfold IntKind.greatestMagnitude
  split_ifs at admitted ⊢ <;> omega

theorem Admitted.ofToken? (admitted : numeral.Admitted negated) :
    Literal.ofToken? negated (.integer numeral.kind numeral.magnitude) =
      some (.integer numeral.kind (numeral.value negated)) := by
  unfold Admitted at admitted
  unfold Literal.ofToken? value IntKind.least IntKind.greatest
  have pos := twoPow_pos numeral.kind.bits
  have half := twoPow_pos (numeral.kind.bits - 1)
  dsimp only
  split_ifs at admitted ⊢
  · rfl
  · omega
  · rfl
  · omega
  · rw [sub_eq_add_neg, Int.add_emod_left]
  · rw [Int.emod_eq_of_lt (by omega) (by omega)]

theorem ofToken?_of_not_admitted (small : numeral.magnitude ≤ numeral.kind.greatestMagnitude)
    (other : ¬numeral.Admitted negated) :
    Literal.ofToken? negated (.integer numeral.kind numeral.magnitude) = none := by
  unfold Admitted at other
  unfold IntKind.greatestMagnitude at small
  unfold Literal.ofToken? IntKind.least IntKind.greatest
  dsimp only
  split_ifs at small other ⊢ <;> first | rfl | omega

variable {file : Path} {start : Position} {sign? : Option Position} {rest : List Char}
  {later : List Token} {fuel nodes : Nat}

theorem lexeme_first (apart : Apart rest) (pos : Position) : ∃ behind,
    lexeme pos numeral.first (numeral.part ++ numeral.suffix.toList ++ rest) =
      if numeral.magnitude ≤ numeral.kind.greatestMagnitude then
        .ok ⟨some (.integer numeral.kind numeral.magnitude),
          (numeral.part ++ numeral.suffix.toList).length, behind⟩
      else .error (.outOfRange (String.ofList (numeral.first :: numeral.part) ++ numeral.suffix)) :=
        by
  obtain ⟨behind, lexes⟩ := lexeme_integer numeral.digit numeral.digits numeral.typed apart pos
  refine ⟨behind, ?_⟩
  rw [lexes, integerLiteral, numeral.typed]
  change Except.map _ (if numeral.magnitude ≤ _ then _ else _) = _
  split <;> rfl

/-- The first expression that is read, of a text with a sign in front of it or none. -/
def readPrimary (file : Path) (sign? : Option Position) (start : Position) (text : List Char) (fuel nodes : Nat) :
    Except Error Expr := do
  let tokens ← scan file 0 start text
  let tokens := (sign?.map fun pos => ⟨.operator .minus, pos⟩).toList ++ tokens
  return (← (Parse.readPrimary fuel).run ⟨.start file tokens, nodes⟩).1

theorem readPrimary_of_scan {text : List Char} {kind : IntKind} {magnitude : Nat}
    (scans : scan file 0 start text = .ok (⟨.integer kind magnitude, start⟩ :: later)) :
    readPrimary file sign? start text (fuel + 1) nodes =
      (Literal.ofToken? sign?.isSome (.integer kind magnitude)).elim
        (.error (.lex ⟨file, start.line⟩
          (.outOfRange ((if sign?.isSome then "-" else "") ++ (Kind.integer kind magnitude).text))))
        fun value => .ok (.literal ⟨nodes, (sign?.getD start).line⟩ value) := by
  have reads : readPrimary file sign? start text (fuel + 1) nodes =
      ((Parse.numeric sign?.isSome >>= fun value => Parse.advance >>= fun _ =>
        Parse.node (.literal · value) (sign?.getD start).line).run
          ⟨.start file (⟨.integer kind magnitude, start⟩ :: later), nodes⟩).map (·.1) := by
    rw [readPrimary, scans, Parse.readPrimary_succ]
    cases sign? <;> rfl
  have looks : Parse.peek.run ⟨.start file (⟨.integer kind magnitude, start⟩ :: later), nodes⟩ =
      .ok (.integer kind magnitude, ⟨.start file (⟨.integer kind magnitude, start⟩ :: later), nodes⟩) := rfl
  rw [reads, Parse.numeric, bind_assoc, Success.run_bind_of_ok looks]
  cases Literal.ofToken? sign?.isSome (.integer kind magnitude) <;> rfl

/-- The least `byte`, behind its sign. -/
def leastByte : Numeral := ⟨'1', ['2', '8'], "sb", .byte, by decide, by simp, rfl⟩

end Numeral
end TernLang
