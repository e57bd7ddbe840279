import TernLang.Proofs.Syntax.Climbing

/-! Reading a rendered expression. Only binary operations are in parentheses, so what a form in
front takes in depends on the token behind it; where no form takes in too much or too little,
reading gives the expression again. -/
namespace TernLang

variable {items : List Expr}

namespace Expr

/-- A literal that `new` takes as a fixed count, if no arithmetic follows. -/
def isCount : Expr → Bool
  | literal _ (.integer kind val) => 0 ≤ val && (kind = .int || kind = .uint || kind = .long || kind = .ulong)
  | _ => false

mutual

/-- With `next` behind it, the text of the expression is read as its tree: a form in front takes in
just its operand, and an allocation just its count. -/
def readable (next : Token.Kind) : Expr → Bool
  | literal .. | name .. | function .. | sizeOf .. | constant .. | qualified .. => true
  | addressOf _ val | load _ val | not _ val | cast _ _ val => next.precedence < 5 && val.readable next
  | index _ val off => val.readable .leftBracket && off.readable .rightBracket
  | member _ val _ => val.readable .dot
  | method _ val _ args => val.readable .dot && readableList args
  | call _ _ _ args | array _ args => readableList args
  | allocate _ _ none => next ≠ .operator .star
  | allocate _ _ (some _) => next.precedence = 0
  | allocateMany _ _ count =>
    next.precedence < 5 && ! (next.precedence = 0 && count.isCount) && count.readable next
  | binary _ op left right => left.readable (.operator op.operator) && right.readable .rightParen

def readableList : List Expr → Bool
  | [] => true
  | item :: items => item.readable .comma && readableList items

end

theorem readableList_iff :
    readableList items = true ↔ ∀ item ∈ items, item.readable .comma = true := by
  induction items with
  | nil => simp [readableList]
  | cons item items ih => simp [readableList, ih]

theorem readable_closing {expr : Expr} (weak : next.precedence = 0) (weak' : next'.precedence = 0) :
    expr.readable next = expr.readable next' := by
  have noStar {kind : Token.Kind} (weak : kind.precedence = 0) : kind ≠ .operator .star := by
    rintro rfl
    contradiction
  induction expr using Expr.induct with | step expr ih =>
  cases expr with
  | addressOf _ val | load _ val | not _ val | cast _ _ val | allocateMany _ _ val =>
    simp [readable, weak, weak', ih val List.mem_cons_self]
  | allocate _ _ count => cases count <;> simp [readable, weak, weak', noStar weak, noStar weak']
  | _ => rfl

end Expr

theorem Literal.ofToken?_natAbs (low : kind.least ≤ val) (high : val ≤ kind.greatest) :
    ofToken? (decide (val < 0)) (.integer kind val.natAbs) = some (.integer kind val) := by
  have signed : (if decide (val < 0) = true then -(val.natAbs : Int) else val.natAbs) = val := by
    by_cases negative : val < 0
    · rw [decide_eq_true negative, if_pos rfl]
      omega
    · rw [decide_eq_false negative, if_neg Bool.false_ne_true]
      omega
  unfold ofToken?
  dsimp only
  rw [signed]
  split
  · rw [if_pos ⟨low, high⟩]
  · next unsigned =>
    rw [IntKind.least, if_neg unsigned] at low
    rw [IntKind.greatest, if_neg unsigned] at high
    rw [Int.emod_eq_of_lt low (by omega)]

namespace Parse
variable {next : Token.Kind} {fuel : Nat} {expr : Expr} {post : Expr → Prop} {args : List Expr}
  {mark : Mark} {callee : String}

/-- Wherever the text of the expression is readable, it is read as the expression. -/
def Rereads (expr : Expr) : Prop :=
  ∀ next, next ≠ .leftParen → next ≠ .doubleColon → expr.readable next = true → Reads expr.kinds expr next 5

theorem Rereads.closed (rereads : Rereads expr) (readable : expr.readable next = true)
    (weak : next.precedence = 0) (other : Token.Kind) (closing : closes other = true) :
    Reads expr.kinds expr other 5 := by
  obtain ⟨weak', uncalled, bare⟩ := closes_weak closing
  exact rereads other uncalled bare (Expr.readable_closing weak weak' ▸ readable)

theorem Rereads.inside (rereads : Rereads expr) (readable : expr.readable next = true)
    (weak : next.precedence = 0) :
    Inside expr.kinds expr := .of_reads expr.exists_kinds (rereads.closed readable weak)

theorem items_of_each (some : items ≠ []) (each : ∀ item ∈ items, Inside item.kinds item) :
    Items (Expr.listKinds items) items := by
  induction items with
  | nil => contradiction
  | cons item items ih =>
    obtain ⟨first, each⟩ := List.forall_mem_cons.mp each
    rw [Expr.listKinds]
    cases items with
    | nil => exact .last 0 first
    | cons second items => exact .more 0 0 first (ih (by simp) each)

theorem arguments_of_each (each : ∀ item ∈ args, Inside item.kinds item) :
    Arguments (Expr.listKinds args) args := by
  cases args with
  | nil => exact .none 0
  | cons item items => exact .some 0 (items_of_each (by simp) each)

/-! Primaries. -/

theorem plain_primary (plain : val.Plain) (exactly : val.isFloat = false) :
    Primary val.kinds (.literal mark val) next := by
  cases val with
  | half | float | double => contradiction
  | bool | string | null => exact literal_primary (by constructor)
  | integer kind val =>
    have read : Primary _ (.literal mark _) next := number_primary (Literal.ofToken?_natAbs plain.1 plain.2)
    simpa only [Literal.kinds, decide_eq_true_eq] using read

theorem constant_primary : Primary [.dollar, .word label] (.constant mark label) next := by
  intro fuel _
  rw [readPrimary_succ]
  apply Takes.first
  intro line
  apply Takes.advance (by simp)
  apply Takes.word
  exact .lastNode fun _ => rfl

theorem qualified_primary (uncalled : next ≠ .leftParen) :
    Primary [.word scope, .doubleColon, .word label] (.qualified mark scope label) next := by
  intro fuel _
  rw [readPrimary_succ]
  apply Takes.first
  intro line
  apply Takes.advance (by simp)
  apply Takes.check_other (by simp)
  apply Takes.accept (by simp)
  apply Takes.word
  apply Takes.check_other (by rintro _ rfl; exact uncalled)
  rw [if_neg (by decide)]
  exact .lastNode fun _ => rfl

theorem call_primary (given : Arguments (Expr.listKinds args) args) :
    Primary (Expr.call mark scope callee args).kinds (.call mark scope callee args) next := by
  intro fuel enough
  simp only [Expr.kinds, List.length_append, List.length_cons] at enough
  have arguments : Takes _ _ _ (readArguments fuel) := readArguments_takes given (by omega)
  have completes (scope : Option String) (line : Nat) : Takes (· = next) _
      (·.unmarked = (Expr.call mark scope callee args).unmarked)
      (readArguments fuel >>= fun args => node (.call · scope callee args) line) :=
    (arguments.mono (fun _ _ => trivial) fun _ => id).thenNode fun values same mark => by simp [Expr.unmarked, same]
  rw [readPrimary_succ]
  cases scope with
  | none =>
    rw [Expr.kinds]
    apply Takes.first
    intro line
    apply Takes.advance (by simp)
    apply Takes.check
    rw [decide_eq_true rfl, if_pos rfl]
    exact completes none line
  | some scope =>
    rw [Expr.kinds]
    apply Takes.first
    intro line
    apply Takes.advance (by simp)
    apply Takes.check_other (by simp)
    rw [if_neg (by decide)]
    apply Takes.accept (by simp)
    rw [if_pos rfl]
    apply Takes.word
    apply Takes.check
    rw [decide_eq_true rfl, if_pos rfl]
    exact completes (some scope) line

variable {kinds : List Token.Kind} {ty : TypeName}

theorem sign_primary {make : Mark → Expr → Expr} (signs : (sign, make) = (.ampersand, .addressOf) ∨
      (sign, make) = (.star, .load) ∨ (sign, make) = (.not, .not)) (reads : Reads kinds val next 5)
    (weak : next.precedence < 5) :
    Primary (.operator sign :: kinds) (make mark val) next := by
  intro fuel enough
  rw [List.length_cons] at enough
  rw [readPrimary_succ]
  apply Takes.first
  intro line
  rcases signs with signs | signs | signs
  all_goals
    cases signs
    apply Takes.advance (by simp)
    apply (reads.readOperand weak (by omega)).thenNode
    intro val same mark
    simp [Expr.unmarked, same]

theorem cast_primary {tgt : TypeName} (reads : Reads kinds val next 5)
    (weak : next.precedence < 5) :
    Primary (.keyword .cast :: (tgt.kinds ++ kinds)) (.cast mark tgt val) next := by
  intro fuel enough
  rw [List.length_cons, List.length_append] at enough
  rw [readPrimary_succ]
  apply Takes.first
  intro line
  apply Takes.advance (by simp)
  refine (typeName_takes tgt).bind ?_ fun _ _ => trivial
  rintro _ rfl
  apply (reads.readOperand weak (by omega)).thenNode
  intro val same mark
  simp [Expr.unmarked, same]

theorem sizeOf_primary : Primary (.keyword .sizeOf :: ty.kinds) (.sizeOf mark ty) next := by
  intro fuel _
  rw [readPrimary_succ]
  apply Takes.first
  intro line
  apply Takes.advance (by simp)
  apply ((typeName_takes ty).mono (fun _ _ => trivial) fun _ => id).thenNode
  rintro _ rfl mark
  rfl

theorem readTypes_takes {types : List TypeName} (some : types ≠ []) (enough : types.length ≤ fuel) :
    Takes (· ≠ .comma) (TypeName.paramKinds types false) (· = types) (readTypes fuel) := by
  induction types generalizing fuel with
  | nil => contradiction
  | cons ty types ih =>
    rw [List.length_cons] at enough
    obtain ⟨fuel, rfl⟩ : ∃ less, fuel = less + 1 := ⟨fuel - 1, by omega⟩
    rw [TypeName.paramKinds]
    unfold readTypes
    refine (typeName_takes ty).bind ?_ fun _ _ => trivial
    rintro _ rfl
    cases types with
    | nil => exact Takes.accept_other (fun _ => id) (.pure rfl)
    | cons second types =>
      apply Takes.accept (by simp)
      rw [if_pos rfl]
      apply (ih (by simp) (by omega)).finish
      rintro _ rfl
      rfl

theorem function_primary {params : Option (List TypeName)} (uncalled : next ≠ .leftParen) :
    Primary (Expr.function mark callee params).kinds (.function mark callee params) next := by
  intro fuel _
  rw [readPrimary_succ, Expr.kinds.eq_def]
  apply Takes.first
  intro line
  apply Takes.advance (by simp)
  unfold readFunction
  apply Takes.expect (by simp)
  apply Takes.word
  cases params with
  | none =>
    apply Takes.accept_other (by rintro _ rfl; exact uncalled)
    rw [if_neg (by decide)]
    exact .lastNode fun _ => rfl
  | some params =>
    apply Takes.accept (by simp)
    rw [if_pos rfl]
    extract_lets complete
    have completes : Takes (· = next) [.rightParen] (·.unmarked = (Expr.function mark callee (some params)).unmarked)
        (complete params) := by
      apply Takes.expect (by simp)
      exact .lastNode fun _ => rfl
    cases params with
    | nil =>
      apply Takes.check
      rw [decide_eq_true rfl, if_pos rfl]
      exact completes
    | cons ty types =>
      obtain ⟨kind, later, same, starts⟩ := ty.exists_kinds
      have read : Takes (· = next) (TypeName.paramKinds (ty :: types) false ++ [.rightParen])
          (·.unmarked = (Expr.function mark callee (some (ty :: types))).unmarked)
          (budget >>= fun fuel => readTypes fuel >>= complete) := by
        apply Takes.budget
        intro fuel enough
        have few := TypeName.length_le_paramKinds (ty :: types) false
        rw [List.length_append] at enough
        refine (readTypes_takes (by simp) (by omega)).bind ?_ (by simp)
        rintro _ rfl
        exact completes
      apply Takes.check_other
      · rw [TypeName.paramKinds, same]
        rintro _ _ rfl
        exact starts
      · exact read

theorem array_primary (given : Items kinds items) :
    Primary (.leftBrace :: (kinds ++ [.rightBrace])) (.array mark items) next := by
  intro fuel enough
  rw [List.length_cons, List.length_append] at enough
  rw [readPrimary_succ]
  apply Takes.first
  intro line
  apply Takes.advance (by simp)
  extract_lets complete
  have completes (values : List Expr) (same : Expr.unmarkedList values = Expr.unmarkedList items) :
      Takes (· = next) [.rightBrace] (·.unmarked = (Expr.array mark items).unmarked) (complete values) := by
    apply Takes.expect (by simp)
    cases values with
    | nil => cases given <;> simp [Expr.unmarkedList] at same
    | cons =>
      rw [List.isEmpty_cons, if_neg (by decide)]
      exact .lastNode fun mark => by simp [Expr.unmarked, same]
  apply Takes.skipNewlines 0 fun _ _ => given.solid _ _ rfl
  apply Takes.check_other fun _ _ => given.solid _ _ rfl
  exact (readItems_takes given 0 (.inr rfl) (by omega)).bind completes fun _ _ => rfl

/-! Allocations. -/

/-- The fixed count that a literal gives, with the kind of the token behind it. -/
def fixes : Token.Kind → Token.Kind → Option Nat
  | .integer kind magnitude, ahead =>
    if (kind = .int || kind = .uint || kind = .long || kind = .ulong) && ahead.precedence =
      0 then some magnitude else none
  | _, _ => none

theorem Takes.fixedCount {follow : Token.Kind → Prop} {next : Option Nat → Parse Expr}
    (andThen : ∀ ahead, follow ahead →
      Takes follow (kind :: kinds) post (next (fixes kind (kinds.headD ahead)))) :
    Takes follow (kind :: kinds) post (fixedCount? >>= next) := by
  rw [fixedCount?, bind_assoc]
  apply Takes.cursor
  intro cursor ahead follows current second
  have first : cursor.current.kind = kind := current
  have read := andThen ahead follows
  rw [← second] at read
  rw [first]
  cases kind <;> exact read

theorem integer_first (same : expr.kinds = .integer kind magnitude :: later) :
    (∃ mark val, expr = .literal mark (.integer kind val) ∧ 0 ≤ val) ∨
      ∃ sign ∈ later.head?, sign.precedence = 5 := by
  have accessed {val : Expr} {sign : Token.Kind} {behind later : List Token.Kind} (binds : sign.precedence = 5)
      (inner : ∀ later, val.kinds = .integer kind magnitude :: later →
        (∃ mark num, val = .literal mark (.integer kind num) ∧ 0 ≤ num) ∨ ∃ sign ∈ later.head?, sign.precedence = 5)
      (same : val.kinds ++ sign :: behind = .integer kind magnitude :: later) :
      ∃ sign ∈ later.head?, sign.precedence = 5 := by
    obtain ⟨first, rest, front, -⟩ := val.exists_kinds
    rw [front, List.cons_append, List.cons.injEq] at same
    obtain ⟨rfl, rfl⟩ := same
    cases rest with
    | nil => exact ⟨sign, rfl, binds⟩
    | cons second rest =>
      rcases inner _ front with ⟨mark, num, rfl, positive⟩ | found
      · rw [Expr.kinds, Literal.kinds, if_neg (by omega)] at front
        cases front
      · exact found
  induction expr using Expr.induct generalizing later with | step expr ih =>
  cases expr with
  | literal mark val =>
    cases val with
    | integer kind' val =>
      by_cases negative : val < 0
      · rw [Expr.kinds, Literal.kinds, if_pos negative] at same
        cases same
      · rw [Expr.kinds, Literal.kinds, if_neg negative] at same
        cases same
        exact .inl ⟨mark, val, rfl, by omega⟩
    | _ => cases same
  | index mark val off =>
    exact .inr (accessed rfl (fun later same => ih val List.mem_cons_self same) same)
  | member mark val field =>
    exact .inr (accessed rfl (fun later same => ih val List.mem_cons_self same) same)
  | method mark val callee args =>
    exact .inr (accessed rfl (fun later same => ih val List.mem_cons_self same) same)
  | call mark scope callee args => cases scope <;> cases same
  | _ => cases same

theorem allocate_primary (readable : (Expr.allocate mark ty count).readable next = true) :
    Primary (Expr.allocate mark ty count).kinds (.allocate mark ty count) next := by
  intro fuel _
  rw [readPrimary_succ, Expr.kinds.eq_def]
  apply Takes.first
  intro line
  apply Takes.advance (by simp)
  refine (typeName_takes ty).bind ?_ fun _ _ => trivial
  rintro _ rfl
  cases count with
  | none =>
    rw [Expr.readable, decide_eq_true_eq] at readable
    apply Takes.accept_other (by rintro _ rfl; exact readable)
    rw [if_neg (by decide)]
    exact .lastNode fun _ => rfl
  | some count =>
    rw [Expr.readable, decide_eq_true_eq] at readable
    apply Takes.accept (by simp)
    rw [if_pos rfl]
    apply Takes.fixedCount
    rintro ahead rfl
    have fixed : fixes (.integer .int count) ahead = some count := by simp [fixes, readable]
    rw [List.headD_nil, fixed]
    apply Takes.advance (by simp)
    exact .lastNode fun _ => rfl

theorem allocateMany_primary (reads : Reads count.kinds count next 5) (weak : next.precedence < 5)
    (open_ : ¬ (next.precedence = 0 ∧ count.isCount = true)) :
    Primary (Expr.allocateMany mark ty count).kinds (.allocateMany mark ty count) next := by
  intro fuel enough
  rw [Expr.kinds, List.length_cons, List.length_append, List.length_cons] at enough
  have operand : Takes _ _ _ (readOperand fuel) := reads.readOperand weak (by omega)
  obtain ⟨kind, later, same, -⟩ := count.exists_kinds
  have notFixed : fixes kind (later.headD next) = none := by
    cases kind with
    | integer kind magnitude =>
      rcases integer_first same with ⟨mark, val, rfl, positive⟩ | ⟨sign, first, binds⟩
      · rw [Expr.kinds, Literal.kinds, if_neg (by omega)] at same
        cases same
        rw [Expr.isCount, decide_eq_true positive, Bool.true_and] at open_
        rw [fixes, List.headD_nil, if_neg]
        simpa [and_comm] using open_
      · obtain ⟨rest, rfl⟩ := List.head?_eq_some_iff.mp first
        simp [fixes, binds]
    | _ => rfl
  rw [readPrimary_succ, Expr.kinds]
  apply Takes.first
  intro line
  apply Takes.advance (by simp)
  refine (typeName_takes ty).bind ?_ fun _ _ => trivial
  rintro _ rfl
  apply Takes.accept (by simp)
  rw [if_pos rfl]
  rw [same] at operand ⊢
  apply Takes.fixedCount
  rintro _ rfl
  rw [notFixed]
  apply operand.thenNode
  intro val same mark
  simp [Expr.unmarked, same]

/-! Whole expressions. -/

/-- A clear expression is read as it is written, wherever its text is readable. -/
theorem rereads_of_clear (expr : Expr) (clear : ∀ node ∈ expr.nodes, node.Clear) :
    Rereads expr := by
  induction expr using Expr.induct with | step expr ih =>
  intro next uncalled bare readable
  have self := clear expr expr.mem_nodes_self
  have parts (child : Expr) (part : child ∈ expr.children) : Rereads child :=
    ih child part fun node mem => clear node (Expr.nodes_child part mem)
  have primary (takes : Primary expr.kinds expr next) : Reads expr.kinds expr next 5 := by
    obtain ⟨kind, later, same, -⟩ := expr.exists_kinds
    exact .of_primary takes (by simp [same])
  cases expr with
  | literal mark val => exact primary (plain_primary self.plain self.exactly)
  | name mark text => exact primary (name_primary uncalled bare)
  | constant mark label => exact primary constant_primary
  | qualified mark scope label => exact primary (qualified_primary uncalled)
  | function mark callee params => exact primary (function_primary uncalled)
  | sizeOf mark ty => exact primary sizeOf_primary
  | allocate mark ty count => exact primary (allocate_primary readable)
  | addressOf mark val | load mark val | not mark val =>
    rw [Expr.readable, Bool.and_eq_true, decide_eq_true_eq] at readable
    exact primary (sign_primary (by simp) (parts val List.mem_cons_self next uncalled bare readable.2) readable.1)
  | cast mark tgt val =>
    rw [Expr.readable, Bool.and_eq_true, decide_eq_true_eq] at readable
    exact primary (cast_primary (parts val List.mem_cons_self next uncalled bare readable.2) readable.1)
  | allocateMany mark ty count =>
    simp only [Expr.readable, Bool.and_eq_true, decide_eq_true_eq, Bool.not_eq_true',
      Bool.and_eq_false_imp] at readable
    obtain ⟨⟨weak, open_⟩, inner⟩ := readable
    have reads := parts count List.mem_cons_self next uncalled bare inner
    exact primary (allocateMany_primary reads weak fun fixed => by simp [open_ fixed.1] at fixed)
  | array mark items =>
    have readable := Expr.readableList_iff.mp readable
    exact primary (array_primary
      (items_of_each self.plain fun item mem => (parts item mem).inside (readable item mem) rfl))
  | call mark scope callee args =>
    have readable := Expr.readableList_iff.mp readable
    exact primary (call_primary (arguments_of_each fun item mem => (parts item mem).inside (readable item mem) rfl))
  | index mark val off =>
    rw [Expr.readable, Bool.and_eq_true] at readable
    have reads := parts val List.mem_cons_self .leftBracket (by simp) (by simp) readable.1
    exact reads.index ((parts off (.tail _ (.head _))).inside readable.2 rfl)
  | member mark val field => exact (parts val List.mem_cons_self .dot (by simp) (by simp) readable).member uncalled
  | method mark val callee args =>
    rw [Expr.readable, Bool.and_eq_true, Expr.readableList_iff] at readable
    have reads := parts val List.mem_cons_self .dot (by simp) (by simp) readable.1
    exact reads.method (arguments_of_each fun item mem =>
      (parts item (List.mem_cons_of_mem _ mem)).inside (readable.2 item mem) rfl)
  | binary mark op left right =>
    rw [Expr.readable, Bool.and_eq_true] at readable
    have lefts := parts left List.mem_cons_self (.operator op.operator) (by simp) (by simp) readable.1
    have rights := (parts right (.tail _ (.head _))).closed readable.2 rfl
    have weak := op.precedence_operator.2
    have reads (next : Token.Kind) (closing : closes next = true) :
        Reads (left.kinds ++ .operator op.operator :: right.kinds) (.binary mark op left right) next
        (Infix.symbol op).precedence :=
      .operation (.symbol op) lefts (rights next closing) (Nat.le_of_lt weak) weak
      ((closes_weak closing).1 ▸ Nat.zero_le _)
    obtain ⟨kind, later, same, starts⟩ := left.exists_kinds
    have read : Primary _ _ next := paren_primary 0 0 (.of_reads ⟨kind, _, by rw [same]; rfl, starts⟩ reads)
    exact primary (by simpa [Expr.kinds] using read)

theorem expression_takes (clear : ∀ node ∈ expr.nodes, node.Clear)
    (readable : expr.readable .eof = true) :
    Takes (· = .eof) expr.kinds (·.unmarked = expr.unmarked) expression := by
  apply Takes.budget
  intro fuel enough
  exact (rereads_of_clear expr clear .eof (by simp) (by simp) readable).readExpr rfl (by omega)

end Parse
end TernLang
