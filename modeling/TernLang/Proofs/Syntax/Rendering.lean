import TernLang.Proofs.Syntax
import TernLang.Proofs.TypeName.RoundTrip

/-! The tokens of a rendered expression. The text of an expression spells one list of tokens, if its
names, strings and numbers can be written. -/
namespace TernLang
open Token

namespace BinaryOp

def operator : BinaryOp → Operator
  | add => .plus
  | subtract => .minus
  | multiply => .star
  | divide => .slash
  | modulus => .percent
  | equal => .equal
  | notEqual => .notEqual
  | less => .less
  | lessEqual => .lessEqual
  | greater => .greater
  | greaterEqual => .greaterEqual
  | and => .and
  | or => .or

theorem ofOperator?_operator (op : BinaryOp) : ofOperator? op.operator = some op := by cases op <;> rfl

theorem precedence_operator (op : BinaryOp) :
    0 < op.operator.precedence ∧ op.operator.precedence < 5 := by
  cases op <;> decide

theorem spells_text (op : BinaryOp) :
    Spells (fun rest => rest.head? = some ' ') op.text.toList [.operator op.operator] := by
  have alone {first : Char} {later : List Char} {operator : Operator} (solid : isBlank first = false)
      (reads : ∀ rest, Reads first (later ++ ' ' :: rest) (.operator operator) later.length) :
      Spells (fun rest => rest.head? = some ' ') (first :: later) [.operator operator] := by
    apply Spells.of_lexeme solid
    intro rest blank
    obtain ⟨rest, rfl⟩ : ∃ more, rest = ' ' :: more := by
      cases rest with
      | nil => contradiction
      | cons c rest => exact ⟨rest, congrArg (· :: rest) (Option.some.inj blank)⟩
    exact reads rest
  cases op <;> exact alone (by decide) fun _ _ => ⟨_, rfl⟩

end BinaryOp

theorem IntKind.natAbs_le {kind : IntKind} (low : kind.least ≤ val) (high : val ≤ kind.greatest) :
    val.natAbs ≤ kind.greatestMagnitude := by
  unfold least at low
  unfold greatest at high
  unfold greatestMagnitude
  split at low <;> simp_all <;> omega

namespace Literal

def isFloat : Literal → Bool
  | half _ | float _ | double _ => true
  | _ => false

/-- The literal has a value that can be written. -/
def Plain : Literal → Prop
  | integer kind val => kind.least ≤ val ∧ val ≤ kind.greatest
  | string text => '"' ∉ text.toList
  | _ => True

/-- A negative number has its sign in front. -/
def kinds : Literal → List Kind
  | bool val => [.bool val]
  | integer kind val => (if val < 0 then [.operator .minus] else []) ++ [.integer kind val.natAbs]
  | half val => [.half val]
  | float val => [.float val]
  | double val => [.double val]
  | string text => [.string text]
  | null => [.keyword .null]

theorem spells_text {val : Literal} (plain : val.Plain) (exactly : val.isFloat = false) :
    Spells Apart val.text.toList val.kinds := by
  cases val with
  | half | float | double => contradiction
  | null => exact spells_keyword .null
  | bool val => cases val <;> exact spells_word (by decide)
  | string text =>
    have spells : Spells Apart _ _ := (spells_string plain).weaken fun _ _ => trivial
    simpa [Literal.text, kinds] using spells
  | integer kind val =>
    have digits := spells_integer (IntKind.natAbs_le plain.1 plain.2)
    rcases val with magnitude | below
    · exact digits
    · have clear := digits.exists_head '>' (by decide) (fun _ _ => rfl) (by simp) (by simp)
      have signed := digits.short '-' (by decide) (fun _ _ => rfl) clear
      rw [kinds, if_pos (Int.negSucc_lt_zero below), Literal.text, show toString
        (Int.negSucc below) = "-" ++ toString (below + 1) from rfl, String.append_assoc,
        String.toList_append]
      exact signed

end Literal

namespace Expr

/-- What the node has of its own can be written. -/
def Plain : Expr → Prop
  | literal _ val => val.Plain
  | name _ text | constant _ text | member _ _ text | method _ _ text _ => isWord text = true
  | call _ scope callee _ => (∀ text ∈ scope, isWord text = true) ∧ isWord callee = true
  | qualified _ scope label => isWord scope = true ∧ isWord label = true
  | cast _ ty _ | sizeOf _ ty | allocate _ ty _ | allocateMany _ ty _ => ty.Written
  | function _ callee params => isWord callee = true ∧ ∀ types ∈ params, ∀ ty ∈ types, ty.Written
  | array _ items => items ≠ []
  | addressOf .. | load .. | index .. | not .. | binary .. => True

def isFloat : Expr → Bool
  | literal _ val => val.isFloat
  | _ => false

def fitsCount : Expr → Bool
  | allocate _ _ (some count) => count ≤ IntKind.int.greatestMagnitude
  | _ => true

structure Clear (expr : Expr) : Prop where
  plain : expr.Plain
  exactly : expr.isFloat = false
  fits : expr.fitsCount = true

mutual

def kinds : Expr → List Kind
  | literal _ val => val.kinds
  | name _ text => [.word text]
  | addressOf _ val => .operator .ampersand :: val.kinds
  | load _ val => .operator .star :: val.kinds
  | index _ val off => val.kinds ++ .leftBracket :: (off.kinds ++ [.rightBracket])
  | member _ val field => val.kinds ++ [.dot, .word field]
  | call _ scope callee args =>
    (match scope with
      | some scope => [.word scope, .doubleColon]
      | none => []) ++ .word callee :: .leftParen :: (listKinds args ++ [.rightParen])
  | method _ val callee args => val.kinds ++ .dot :: .word callee :: .leftParen :: (listKinds args ++ [.rightParen])
  | not _ val => .operator .not :: val.kinds
  | cast _ tgt val => .keyword .cast :: (tgt.kinds ++ val.kinds)
  | function _ callee params => .keyword .functionValue :: .operator .ampersand :: .word callee ::
    (match params with
      | some params => .leftParen :: (TypeName.paramKinds params false ++ [.rightParen])
      | none => [])
  | sizeOf _ ty => .keyword .sizeOf :: ty.kinds
  | allocate _ ty count => .keyword .allocate :: (ty.kinds ++
    (match count with
      | some count => [.operator .star, .integer .int count]
      | none => []))
  | allocateMany _ ty count => .keyword .allocate :: (ty.kinds ++ .operator .star :: count.kinds)
  | array _ items => .leftBrace :: (listKinds items ++ [.rightBrace])
  | constant _ label => [.dollar, .word label]
  | qualified _ scope label => [.word scope, .doubleColon, .word label]
  | binary _ op left right => .leftParen :: (left.kinds ++ .operator op.operator :: (right.kinds ++ [.rightParen]))

def listKinds : List Expr → List Kind
  | [] => []
  | item :: items => item.kinds ++ if items.isEmpty then [] else .comma :: listKinds items

end

def starts : Kind → Bool
  | .bool _ | .integer .. | .half _ | .float _ | .double _ | .string _ | .word _ | .leftParen | .leftBrace | .dollar
  | .operator .minus | .operator .ampersand | .operator .star | .operator .not
  | .keyword .null | .keyword .cast | .keyword .functionValue | .keyword .sizeOf | .keyword .allocate => true
  | _ => false

theorem exists_kinds (expr : Expr) :
    ∃ kind later, expr.kinds = kind :: later ∧ starts kind = true := by
  induction expr using Expr.induct with | step expr ih =>
  cases expr with
  | literal mark val =>
    cases val with
    | integer kind val =>
      by_cases negative : val < 0
      · exact ⟨_, _, by rw [kinds, Literal.kinds, if_pos negative]; rfl, rfl⟩
      · exact ⟨_, _, by rw [kinds, Literal.kinds, if_neg negative]; rfl, rfl⟩
    | _ => exact ⟨_, _, rfl, rfl⟩
  | index _ val | member _ val | method _ val =>
    obtain ⟨kind, later, same, first⟩ := ih val List.mem_cons_self
    exact ⟨kind, _, by rw [kinds, same]; rfl, first⟩
  | call mark scope callee args => cases scope <;> exact ⟨_, _, rfl, rfl⟩
  | _ => exact ⟨_, _, rfl, rfl⟩

theorem spells_doubleColon : Spells (fun _ => True) [':', ':'] [.doubleColon] :=
  Spells.of_lexeme (by decide) fun _ _ _ => ⟨_, rfl⟩

theorem textList_cons (item : Expr) (items : List Expr) :
    textList (item :: items) = item.text ++ if items.isEmpty then "" else ", " ++ textList items :=
      by
  cases items <;> simp [textList, String.append_assoc]

theorem spells_list (each : ∀ item ∈ items, Spells Apart item.text.toList item.kinds) :
    Spells Apart (textList items).toList (listKinds items) := by
  induction items with
  | nil => exact .nil
  | cons item items ih =>
    obtain ⟨first, rest⟩ := List.forall_mem_cons.mp each
    rw [textList_cons, listKinds, String.toList_append]
    split
    · exact first.append .nil fun _ apart => apart
    · rw [String.toList_append]
      exact first.thenMark ',' rfl (ih rest).blank

theorem spells_text (expr : Expr) (clear : ∀ node ∈ expr.nodes, node.Clear) :
    Spells Apart expr.text.toList expr.kinds := by
  induction expr using Expr.induct with | step expr ih =>
  have self := clear expr expr.mem_nodes_self
  have inner {child : Expr} (part : child ∈ expr.children) : Spells Apart child.text.toList child.kinds :=
    ih child part fun node mem => clear node (nodes_child part mem)
  cases expr with
  | literal mark val => exact Literal.spells_text self.plain self.exactly
  | name mark text => exact spells_name self.plain
  | addressOf mark val =>
    rw [text, String.toList_append]
    exact (inner (.head _)).mark '&' rfl
  | load mark val =>
    rw [text, String.toList_append]
    exact (inner (.head _)).mark '*' rfl
  | not mark val =>
    have inner := inner (.head _)
    obtain ⟨kind, later, same, first⟩ := val.exists_kinds
    have head : ∃ c text', val.text.toList = c :: text' ∧ c ≠ '=' := by
      rw [same] at inner
      apply inner.exists_head '=' (by decide) fun _ _ => rfl
      · rintro rfl
        contradiction
      · rintro rfl
        contradiction
    rw [text, String.toList_append]
    exact inner.short '!' (by decide) (fun _ _ => rfl) head
  | index mark val off =>
    have off := inner (.tail _ (.head _))
    simpa [text, kinds] using (inner (.head _)).thenMark '[' rfl (off.closed ']' rfl)
  | member mark val field =>
    have word := spells_name self.plain
    rw [← List.append_nil field.toList] at word
    simpa [text, kinds] using (inner (.head _)).thenPoint self.plain word
  | method mark val callee args =>
    have args := spells_list fun arg mem => inner (.tail _ mem)
    have called := (spells_name self.plain).thenMark '(' rfl (args.closed ')' rfl)
    simpa [text, kinds] using (inner (.head _)).thenPoint self.plain called
  | call mark scope callee args =>
    have args := spells_list fun arg (mem : arg ∈ args) => inner mem
    have called := (spells_name self.plain.2).thenMark '(' rfl (args.closed ')' rfl)
    cases scope with
    | none => simpa [text, kinds] using called
    | some scope =>
      have scope := spells_name (self.plain.1 scope rfl)
      have whole := scope.append (spells_doubleColon.append called fun _ _ => trivial) fun _ _ => .mark (by decide)
      simpa [text, kinds] using whole
  | qualified mark scope label =>
    have label := spells_name self.plain.2
    have scope := spells_name self.plain.1
    have whole := scope.append (spells_doubleColon.append label fun _ _ => trivial) fun _ _ => .mark (by decide)
    simpa [text, kinds] using whole
  | constant mark label =>
    rw [text, String.toList_append]
    exact (spells_name self.plain).mark '$' rfl
  | cast mark tgt val =>
    have whole := (spells_keyword .cast).thenBlank ((tgt.spells_text self.plain).thenBlank (inner (.head _)))
    simpa [text, kinds, Keyword.text] using whole
  | sizeOf mark ty =>
    have whole := (spells_keyword .sizeOf).thenBlank (ty.spells_text self.plain)
    simpa [text, kinds, Keyword.text] using whole
  | allocate mark ty count =>
    have ty := ty.spells_text self.plain
    cases count with
    | none => simpa [text, kinds, Keyword.text] using (spells_keyword .allocate).thenBlank ty
    | some count =>
      have count := spells_integer (of_decide_eq_true self.fits)
      have whole := (spells_keyword .allocate).thenBlank (ty.thenBlank (count.blank.mark '*' rfl))
      simpa [text, kinds, Keyword.text, IntKind.suffix] using whole
  | allocateMany mark ty count =>
    have ty := ty.spells_text self.plain
    have whole := (spells_keyword .allocate).thenBlank (ty.thenBlank ((inner (.head _)).blank.mark '*' rfl))
    simpa [text, kinds, Keyword.text] using whole
  | function mark callee params =>
    have callee := spells_name self.plain.1
    cases params with
    | none => simpa [text, kinds, Keyword.text] using (spells_keyword .functionValue).thenBlank (callee.mark '&' rfl)
    | some params =>
      have types := TypeName.spells_params params false fun name mem => by
        obtain ⟨ty, param, inside⟩ := TypeName.mem_namesList.mp mem
        exact self.plain.2 params rfl ty param name inside
      have called := callee.thenMark '(' rfl (types.closed ')' rfl)
      have whole := (spells_keyword .functionValue).thenBlank (called.mark '&' rfl)
      simpa [text, kinds, Keyword.text, TypeName.paramText] using whole
  | array mark items =>
    have items := spells_list fun item (mem : item ∈ items) => inner mem
    simpa [text, kinds] using (items.closed '\x7d' rfl).mark '\x7b' rfl
  | binary mark op left right =>
    have right := inner (.tail _ (.head _))
    have behind := op.spells_text.append (right.closed ')' rfl).blank fun _ _ => rfl
    simpa [text, kinds] using ((inner (.head _)).thenBlank behind).mark '(' rfl

end Expr
end TernLang
