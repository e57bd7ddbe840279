import TernLang.Proofs.Parse.Progress
import TernLang.Proofs.Syntax.Numbering
import TernLang.Proofs.Syntax.Rendering

/-! Expressions and statements that are read. Each reader goes on in the tokens, with a budget that
covers them, and its expressions can be written and are numbered in turn. -/
namespace TernLang
open Std.Do TernLang.Expr

set_option mvcgen.warning false

namespace Expr

def Written (expr : Expr) : Prop := ∀ node ∈ expr.nodes, node.Plain

theorem written_of_children {expr : Expr} (plain : expr.Plain)
    (parts : ∀ child ∈ expr.children, child.Written) :
    expr.Written := by
  intro node mem
  rcases mem_nodes_iff.mp mem with rfl | ⟨child, part, inside⟩
  · exact plain
  · exact parts child part node inside

/-- The expressions are numbered in turn, and can be written if the tokens can. -/
structure Made (lexed : Prop) (first : Nat) (exprs : List Expr) (next : Nat) : Prop where
  numbered : Numbered first (nodesList exprs) next
  written : lexed → ∀ expr ∈ exprs, expr.Written

namespace Made
variable {lexed lexed' : Prop} {first middle next : Nat} {expr : Expr} {exprs others : List Expr}

@[grind .] theorem nil (lexed : Prop) (first : Nat) : Made lexed first [] first :=
  ⟨.nil first, fun _ => List.forall_mem_nil _⟩

theorem mono (made : Made lexed first exprs next) (given : lexed' → lexed) :
    Made lexed' first exprs next :=
  ⟨made.numbered, fun known => made.written (given known)⟩

theorem append (made : Made lexed first exprs middle) (later : Made lexed' middle others next)
    (given : lexed → lexed') :
    Made lexed first (exprs ++ others) next where
  numbered := nodesList_append exprs others ▸ made.numbered.append later.numbered
  written known := List.forall_mem_append.mpr ⟨made.written known, later.written (given known)⟩

theorem cons (made : Made lexed first [expr] middle) (later : Made lexed' middle others next)
    (given : lexed → lexed') :
    Made lexed first (expr :: others) next := made.append later given

theorem node (parts : Made lexed first expr.children expr.mark.id) (plain : lexed → expr.Plain)
    (last : next = expr.mark.id + 1) : Made lexed first [expr] next where
  numbered := by
    rw [last, nodesList, nodesList, List.append_nil]
    exact parts.numbered.node
  written known := List.forall_mem_singleton.mpr (written_of_children (plain known) (parts.written known))

/-- Whatever was read before it, an expression is read on from one. -/
@[grind =] def Grows (lexed : Prop) (left : Expr) (first : Nat) (expr : Expr) (next : Nat) : Prop :=
  ∀ start numbers, (start → lexed) → Made start numbers [left] first → Made start numbers [expr] next

theorem grown {start : Prop} (grows : Grows lexed left first expr next) (given : start → lexed)
    (made : Made start numbers [left] first) : Made start numbers [expr] next :=
  grows start numbers given made

grind_pattern grown => Grows lexed left first expr next, Made start numbers [expr] next
grind_pattern mono => Made lexed first exprs next, Made lexed' first exprs next
grind_pattern append => Made lexed first exprs middle, Made lexed' middle others next, exprs ++ others
grind_pattern cons => Made lexed first [expr] middle, Made lexed' middle others next, expr :: others
grind_pattern node => Made lexed first [expr] next

end Made

attribute [grind =] children mark Plain Literal.Plain

end Expr

theorem Literal.plain_of_ofToken? (given : ofToken? negated kind = some val) : val.Plain := by
  unfold ofToken? at given
  split at given
  · next kind magnitude =>
    extract_lets num at given
    split at given
    · split at given
      · next inside =>
        cases given
        exact inside
      · contradiction
    · next unsigned =>
      cases given
      have positive : (0 : Int) < twoPow kind.bits := Int.natCast_pos.mpr (twoPow_pos _)
      constructor
      · rw [IntKind.least, if_neg unsigned]
        exact Int.emod_nonneg _ (by omega)
      · rw [IntKind.greatest, if_neg unsigned]
        exact Int.le_sub_one_of_lt (Int.emod_lt_of_pos _ positive)
  · cases given
    trivial
  · cases given
    trivial
  · cases given
    trivial
  · contradiction

theorem Token.Kind.operator_of_precedence {kind : Token.Kind} (binds : kind.precedence ≠ 0) :
    kind = .dot ∨ kind = .leftBracket ∨ (∃ name, kind = .word name) ∨
      ∃ operator op, kind = .operator operator ∧ BinaryOp.ofOperator? operator = some op := by
  cases kind with
  | operator operator => cases operator <;> simp [precedence, Operator.precedence, BinaryOp.ofOperator?] at binds ⊢
  | _ => simp [precedence] at binds ⊢

grind_pattern Literal.plain_of_ofToken? => Literal.ofToken? negated kind, some val
grind_pattern Token.Kind.operator_of_precedence => kind.precedence

namespace Parse

variable (before : Reading)

/-- The expressions were read, from a token at least. -/
@[grind =] def Makes (exprs : List Expr) (after : Reading) : Prop :=
  before.cursor.Onward 1 after.cursor ∧ Made before.cursor.Lexed before.nodes exprs after.nodes

/-- The expression was read on from one that was read before, if the next token binds at least as
strongly as `floor`. -/
@[grind =] def Continues (floor : Nat) (left : Expr) (before : Reading) (expr : Expr)
    (after : Reading) : Prop :=
  let binds := before.cursor.current.kind.precedence
  before.cursor.Onward (if binds = 0 ∨ binds < floor then 0 else 1) after.cursor ∧
    Made.Grows before.cursor.Lexed left before.nodes expr after.nodes

@[spec] theorem numeric_runs (negated : Bool) (before : Reading) :
    Runs True before (fun val after => after = before ∧ val.Plain) (numeric negated) := by
  mvcgen -trivial [numeric] <;> grind -ring -linarith

@[spec] theorem readTypes_runs (fuel : Nat) (before : Reading) :
    Runs (before.cursor.Within 1 fuel) before (ReadsTypes before) (readTypes fuel) := by
  induction fuel generalizing before with
  | zero =>
    mvcgen -trivial [readTypes]
    grind -ring -linarith
  | succ fuel inner =>
    apply Runs.intro
    mvcgen -trivial [readTypes, inner] <;> clear inner <;> grind -ring -linarith

variable (line : Nat)

@[spec] theorem readFunction_runs (before : Reading) :
    Runs before.cursor.Ends before (fun expr => Makes before [expr]) (readFunction line) := by
  apply Runs.intro
  mvcgen -trivial [readFunction] <;> grind -ring -linarith

@[spec] theorem fixedCount_runs :
    Runs before.cursor.Ends before (fun count after => after = before ∧
      (count ≠ none → before.cursor.current.kind ≠ .eof))
      fixedCount? := by
  apply Runs.intro
  mvcgen -trivial [fixedCount?] <;> grind -ring -linarith

/-- Every reader of expressions goes on, with a budget that covers the tokens. -/
structure ExprsRun (fuel : Nat) : Prop where
  whole (before : Reading) :
    Runs (before.cursor.Within 2 fuel) before (fun expr => Makes before [expr]) (readExpr fuel)
  operators (floor : Nat) (left : Expr) (before : Reading) :
    Runs (before.cursor.Within 1 fuel) before (Continues floor left before)
      (readOperators fuel floor left)
  right (precedence : Nat) (before : Reading) :
    Runs (before.cursor.Within 2 fuel) before (fun expr => Makes before [expr])
      (readRight fuel precedence)
  stronger (precedence : Nat) (right : Expr) (before : Reading) :
    Runs (before.cursor.Within 2 fuel) before (Continues (precedence + 1) right before)
      (readStronger fuel precedence right)
  operand (before : Reading) :
    Runs (before.cursor.Within 2 fuel) before (fun expr => Makes before [expr]) (readOperand fuel)
  primary (before : Reading) :
    Runs (before.cursor.Within 1 fuel) before (fun expr => Makes before [expr]) (readPrimary fuel)
  arguments (before : Reading) :
    Runs (before.cursor.Within 1 fuel) before (Makes before) (readArguments fuel)
  items (before : Reading) :
    Runs (before.cursor.Within 3 fuel) before (Makes before) (readItems fuel)

theorem exprs_run (fuel : Nat) : ExprsRun fuel := by
  induction fuel with
  | zero =>
    constructor <;> intros <;>
      mvcgen -trivial [readExpr, readOperators, readRight, readStronger, readOperand, readPrimary,
        readArguments, readItems] <;>
      grind -ring -linarith
  | succ fuel inner =>
    obtain ⟨whole, operators, right, stronger, operand, primary, arguments, items⟩ := inner
    constructor <;> intros <;> apply Runs.intro <;>
      mvcgen -trivial [readExpr, readOperators, readRight, readStronger, readOperand, readPrimary,
        readArguments, readItems,
        whole, operators, right, stronger, operand, primary, arguments, items] <;>
      clear whole operators right stronger operand primary arguments items <;> grind +splitImp -ring -linarith

@[spec] theorem expression_runs :
    Runs before.cursor.Ends before (fun expr => Makes before [expr]) expression := by
  have whole (fuel : Nat) := (exprs_run fuel).whole
  apply Runs.intro
  mvcgen -trivial [expression, whole] <;> clear whole <;> grind -ring -linarith

/-! Statements. -/

attribute [grind =] Stmt.roots Stmt.rootsList

@[spec] theorem readVariable_runs (before : Reading) :
    Runs before.cursor.Ends before (fun stmt => Makes before stmt.roots) (readVariable line) := by
  apply Runs.intro
  mvcgen -trivial [readVariable] <;> grind -ring -linarith

@[spec] theorem readEffect_runs (before : Reading) :
    Runs before.cursor.Ends before (fun stmt => Makes before stmt.roots) (readEffect line) := by
  apply Runs.intro
  mvcgen -trivial [readEffect] <;> grind -ring -linarith

@[spec] theorem readLeave_runs (before : Reading) (there : before.cursor.current.kind ≠ .eof) :
    Runs before.cursor.Ends before (fun stmt => Makes before stmt.roots) (readLeave line) := by
  apply Runs.intro
  mvcgen -trivial [readLeave] <;> grind -ring -linarith

/-- Every reader of statements goes on, with a budget that covers the tokens. -/
structure StmtsRun (fuel : Nat) : Prop where
  block (before : Reading) : Runs (before.cursor.Within 1 fuel) before (fun block =>
    Makes before (Stmt.rootsList block)) (readBlock fuel)
  body (before : Reading) : Runs (before.cursor.Within 3 fuel) before (fun block =>
    Makes before (Stmt.rootsList block)) (readBody fuel)
  statement (before : Reading) :
    Runs (before.cursor.Within 2 fuel) before (fun stmt => Makes before stmt.roots) (readStmt fuel)
  loop (polarity : Polarity) (before : Reading) (there : before.cursor.current.kind ≠ .eof) :
    Runs (before.cursor.Within 1 fuel) before (fun stmt => Makes before stmt.roots)
      (readLoop fuel polarity)
  branch (polarity : Polarity) (before : Reading) (there : before.cursor.current.kind ≠ .eof) :
    Runs (before.cursor.Within 1 fuel) before (fun stmt => Makes before stmt.roots)
      (readBranch fuel polarity)
  otherwise (before : Reading) :
    Runs (before.cursor.Within 2 fuel) before (fun block => Makes before (Stmt.rootsList block))
      (readElse fuel)

theorem stmts_run (fuel : Nat) : StmtsRun fuel := by
  induction fuel with
  | zero =>
    constructor <;> intros <;> mvcgen -trivial [readBlock, readBody, readStmt, readLoop, readBranch, readElse] <;>
      grind -ring -linarith
  | succ fuel inner =>
    obtain ⟨block, body, statement, loop, branch, otherwise⟩ := inner
    constructor <;> intros <;> apply Runs.intro <;>
      mvcgen -trivial [readBlock, readBody, readStmt, readLoop, readBranch, readElse,
        block, body, statement, loop, branch, otherwise] <;>
      clear block body statement loop branch otherwise <;> grind -ring -linarith

@[spec] theorem block_runs :
    Runs before.cursor.Ends before (fun body => Makes before (Stmt.rootsList body)) block := by
  have inner (fuel : Nat) := (stmts_run fuel).block
  apply Runs.intro
  mvcgen -trivial [block, inner] <;> clear inner <;> grind -ring -linarith

end Parse
end TernLang
