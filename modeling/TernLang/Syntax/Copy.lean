import TernLang.Syntax

/-! Copies of expressions and statements with fresh node numbers. A copy is numbered part
before whole from a counter of nodes, which never wraps: 32 bits are taken to be enough. -/
namespace TernLang

/-- Number a node with the next number of the counter. -/
def Expr.fresh (make : Mark → Expr) (line : Nat) : StateM Nat Expr := fun next =>
  (make ⟨next, line⟩, next + 1)

namespace Expr

mutual

/-- A copy in which `constant` says what stands for each named constant. -/
def copyWith (constant : Mark → String → StateM Nat Expr) : Expr → StateM Nat Expr
  | .literal mark val => fresh (.literal · val) mark.line
  | .name mark text => fresh (.name · text) mark.line
  | .addressOf mark val => do
    let val ← val.copyWith constant
    fresh (.addressOf · val) mark.line
  | .load mark val => do
    let val ← val.copyWith constant
    fresh (.load · val) mark.line
  | .index mark val off => do
    let val ← val.copyWith constant
    let off ← off.copyWith constant
    fresh (.index · val off) mark.line
  | .member mark val field => do
    let val ← val.copyWith constant
    fresh (.member · val field) mark.line
  | .call mark scope callee args => do
    let args ← copyListWith constant args
    fresh (.call · scope callee args) mark.line
  | .method mark val callee args => do
    let val ← val.copyWith constant
    let args ← copyListWith constant args
    fresh (.method · val callee args) mark.line
  | .not mark val => do
    let val ← val.copyWith constant
    fresh (.not · val) mark.line
  | .cast mark tgt val => do
    let val ← val.copyWith constant
    fresh (.cast · tgt val) mark.line
  | .function mark callee params => fresh (.function · callee params) mark.line
  | .sizeOf mark ty => fresh (.sizeOf · ty) mark.line
  | .allocate mark ty count => fresh (.allocate · ty count) mark.line
  | .allocateMany mark ty count => do
    let count ← count.copyWith constant
    fresh (.allocateMany · ty count) mark.line
  | .array mark items => do
    let items ← copyListWith constant items
    fresh (.array · items) mark.line
  | .constant mark label => constant mark label
  | .qualified mark scope label => fresh (.qualified · scope label) mark.line
  | .binary mark op left right => do
    let left ← left.copyWith constant
    let right ← right.copyWith constant
    fresh (.binary · op left right) mark.line

def copyListWith (constant : Mark → String → StateM Nat Expr) : List Expr → StateM Nat (List Expr)
  | [] => pure []
  | item :: items => do
    let item ← item.copyWith constant
    let items ← copyListWith constant items
    return item :: items

end

/-- A named constant stays a reference. -/
def keepConstant (mark : Mark) (label : String) : StateM Nat Expr :=
  fresh (.constant · label) mark.line

/-- A copy that differs in node numbers only. -/
def copy (expr : Expr) : StateM Nat Expr := expr.copyWith keepConstant

/-- Replace a constant by a copy of its value, constants in it included. A constant met
inside its own expansion stays a reference; so no path is longer than the table. -/
def expandConstant (value? : String → Option Expr) :
    (fuel : Nat) → (expanding : List String) → Mark → String → StateM Nat Expr
  | 0, _, mark, label => keepConstant mark label
  | fuel + 1, expanding, mark, label =>
    if expanding.contains label then keepConstant mark label
    else match value? label with
      | none => keepConstant mark label
      | some val => val.copyWith (expandConstant value? fuel (label :: expanding))

/-- A copy for another program: constants of the program it comes from are expanded. -/
def copyOut (constants : List (String × Expr)) (expr : Expr) : StateM Nat Expr :=
  expr.copyWith (expandConstant (constants.lookup ·) constants.length [])

end Expr

namespace Stmt

mutual

/-- A copy that differs in node numbers only. -/
def copy : Stmt → StateM Nat Stmt
  | .declare line name ty => return .declare line name ty
  | .define line name ty val => return .define line name ty (← val.copy)
  | .leave line none => return .leave line none
  | .leave line (some val) => return .leave line (some (← val.copy))
  | .assign line tgt val => do
    let tgt ← tgt.copy
    return .assign line tgt (← val.copy)
  | .call line val => return .call line (← val.copy)
  | .method line val => return .method line (← val.copy)
  | .branch line polarity cond body => do
    let cond ← cond.copy
    return .branch line polarity cond (← copyList body)
  | .branchElse line polarity cond body otherwise => do
    let cond ← cond.copy
    let body ← copyList body
    return .branchElse line polarity cond body (← copyList otherwise)
  | .loop line polarity cond body => do
    let cond ← cond.copy
    return .loop line polarity cond (← copyList body)
  | .delete line val => return .delete line (← val.copy)

def copyList : List Stmt → StateM Nat (List Stmt)
  | [] => return []
  | s :: ss => do
    let s ← s.copy
    return s :: (← copyList ss)

end

end Stmt
end TernLang
