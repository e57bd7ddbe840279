import TernLang.Lowering.Expr

/-! Lowering of statements. -/
namespace TernLang.Lowering

def freeType : Ir.FunctionType := { params := [.pointer], result := .void }

section
variable (ctx : Context)

def lowerDeclare (line : Nat) (name : String) (ty : TypeName) : Lower Unit := do
  let lowered ← solidType ctx line ty (.voidVariable name)
  let slot ← build (.alloca lowered)
  build (.store (.zero lowered) slot)
  defineVariable ctx line name slot ty (.redeclaredVariable name)

def lowerDefine (line : Nat) (name : String) (ty : TypeName) (val : Expr) : Lower Unit := do
  let lowered ← solidType ctx line ty (.voidVariable name)
  let val ← lowerExpr ctx val
  expectInto ctx line val.type ty (.initial name ty)
  let slot ← build (.alloca lowered)
  build (.store val.value slot)
  defineVariable ctx line name slot ty (.redeclaredVariable name)

/-- Keep the result and go to the block that returns. -/
def lowerLeave (line : Nat) (val : Option Expr) : Lower Unit := do
  let fn := ctx.function
  match val, ctx.exit with
  | some val, some exit => do
    let val ← lowerExpr ctx val
    expectInto ctx line val.type fn.result (.result fn.name fn.result)
    build (.store val.value exit.pointer)
  | none, none => pure ()
  | some _, none => failType ctx line (.returnsVoid fn.name)
  | none, some _ => failType ctx line (.mustReturn fn.name fn.result)
  build (.branch quitBlock)

def lowerAssign (line : Nat) (tgt val : Expr) : Lower Unit := do
  let tgt ← lowerAddress ctx tgt
  let val ← lowerExpr ctx val
  expectInto ctx line val.type tgt.type (.target tgt.type)
  build (.store val.value tgt.value)

def lowerDelete (line : Nat) (val : Expr) : Lower Unit := do
  let typed ← lowerExpr ctx val
  if (← classify ctx line typed.type) ≠ .pointer then failType ctx line (.notDeletable typed.type)
  let (callee, sig) ← routine "free" freeType
  let _ ← build (.call callee sig [typed.value])

/-- Branch to the body or past it. -/
def branchOn (polarity : Polarity) (cond : Ir.Value) (body past : Nat) : Lower Unit :=
  match polarity with
  | .whenTrue => build (.condBranch cond body past)
  | .whenFalse => build (.condBranch cond past body)

/-- Lower a nested block in a scope of its own, and go on elsewhere unless it has left. -/
def lowerArm (block next : Nat) (lowerBody : Lower Bool) : Lower Unit := do
  build (.position block)
  modify fun state => { state with scope := state.scope.child }
  let left ← lowerBody
  modify fun state => { state with scope := state.scope.parent }
  if ! left then build (.branch next)

/-- A body that runs if the condition allows. -/
def lowerBranch (polarity : Polarity) (cond : Expr) (lowerBody : Lower Bool) : Lower Unit := do
  let cond ← lowerCondition ctx cond
  let body ← build (.appendBlock "if.true")
  let past ← build (.appendBlock "if.false")
  branchOn polarity cond body past
  lowerArm body past lowerBody
  build (.position past)

def lowerBranchElse (polarity : Polarity) (cond : Expr) (lowerBody lowerOther : Lower Bool) :
    Lower Unit := do
  let cond ← lowerCondition ctx cond
  let body ← build (.appendBlock "if.true")
  let other ← build (.appendBlock "if.false")
  let past ← build (.appendBlock "if.end")
  branchOn polarity cond body other
  lowerArm body past lowerBody
  lowerArm other past lowerOther
  build (.position past)

/-- A body that runs as long as the condition allows. -/
def lowerLoop (polarity : Polarity) (cond : Expr) (lowerBody : Lower Bool) : Lower Unit := do
  let test ← build (.appendBlock "loop.test")
  let body ← build (.appendBlock "loop.body")
  let past ← build (.appendBlock "loop.exit")
  build (.branch test)
  build (.position test)
  branchOn polarity (← lowerCondition ctx cond) body past
  lowerArm body test lowerBody
  build (.position past)

mutual

def lowerStmt : Stmt → Lower Unit
  | .declare line name ty => lowerDeclare ctx line name ty
  | .define line name ty val => lowerDefine ctx line name ty val
  | .leave line val => lowerLeave ctx line val
  | .assign line tgt val => lowerAssign ctx line tgt val
  | .call _ val | .method _ val => do let _ ← lowerExpr ctx val
  | .branch _ polarity cond body => lowerBranch ctx polarity cond (lowerBlock body)
  | .branchElse _ polarity cond body otherwise =>
    lowerBranchElse ctx polarity cond (lowerBlock body) (lowerBlock otherwise)
  | .loop _ polarity cond body => lowerLoop ctx polarity cond (lowerBlock body)
  | .delete line val => lowerDelete ctx line val

/-- Lower statements in order; the result tells whether they end by leaving the function.
What follows a statement that leaves is not lowered. -/
def lowerBlock : List Stmt → Lower Bool
  | [] => return false
  | stmt :: stmts => do
    lowerStmt stmt
    if stmt.isTerminator then return true else lowerBlock stmts

end

end
end TernLang.Lowering
