import TernLang.Program

/-! The integer core of the language and what its programs mean. The meaning follows the
structure of the source; nested calls and turns of a loop are counted, so that every program
has an answer for every count. -/
namespace TernLang.Core

inductive Scalar where
  | bool
  | integer (kind : IntKind)
  | usize
deriving DecidableEq

variable (scalar : Scalar) (val : Int)

namespace Scalar

def primitive : Scalar → Primitive
  | bool => .bool
  | integer kind => .integer kind
  | usize => .usize

def type : TypeName := .named scalar.primitive.name

def all : List Scalar :=
  [bool, integer .byte, integer .ubyte, integer .short, integer .ushort, integer .int, integer .uint,
    integer .long, integer .ulong, usize]

def ofType? (type : TypeName) : Option Scalar := all.find? (·.type = type)

def bits : Scalar → Nat
  | bool => 1
  | integer kind => kind.bits
  | usize => 64

def isSigned : Scalar → Bool
  | integer kind => kind.isSigned
  | bool | usize => false

/-- The value that an integer wraps around to. -/
def wrap : Int :=
  let low := val % twoPow scalar.bits
  if scalar.isSigned ∧ twoPow (scalar.bits - 1) ≤ low then low - twoPow scalar.bits else low

theorem bits_pos : 0 < scalar.bits := by
  rcases scalar with _ | kind | _
  · decide
  · cases kind <;> decide
  · decide

theorem wrap_emod :
    scalar.wrap val % twoPow scalar.bits = val % twoPow scalar.bits := by
  simp only [wrap]
  split
  · rw [Int.sub_emod_right, Int.emod_emod]
  · rw [Int.emod_emod]

@[simp] theorem wrap_wrap : scalar.wrap (scalar.wrap val) = scalar.wrap val := by
  rw [wrap, wrap_emod]
  rfl

end Scalar

/-- A value of a type, within its range. -/
structure Datum where
  scalar : Scalar
  value : Int
  fits : scalar.wrap value = value
deriving DecidableEq

namespace Datum

def of : Datum := ⟨scalar, scalar.wrap val, scalar.wrap_wrap val⟩

def ofBool (val : Bool) : Datum := of .bool (if val then 1 else 0)

def isTrue (datum : Datum) : Bool := datum.value != 0

def cast (tgt : Scalar) (datum : Datum) : Datum :=
  match tgt with
  | .bool => ofBool datum.isTrue
  | .integer _ | .usize => of tgt datum.value

end Datum

inductive Stop where
  /-- The count of calls and turns is used up. -/
  | outOfFuel
  | divisionByZero
  /-- The program is outside the core, or badly typed. -/
  | illFormed
deriving DecidableEq

/-- An operation on two values of one type. -/
def binary (op : BinaryOp) (left right : Datum) : Except Stop Datum :=
  let a := left.value
  let b := right.value
  match op with
  | .add => return .of left.scalar (a + b)
  | .subtract => return .of left.scalar (a - b)
  | .multiply => return .of left.scalar (a * b)
  | .divide => if b = 0 then throw .divisionByZero else return .of left.scalar (a.tdiv b)
  | .modulus => if b = 0 then throw .divisionByZero else return .of left.scalar (a.tmod b)
  | .equal => return .ofBool (a = b)
  | .notEqual => return .ofBool (a ≠ b)
  | .less => return .ofBool (a < b)
  | .lessEqual => return .ofBool (a ≤ b)
  | .greater => return .ofBool (a > b)
  | .greaterEqual => return .ofBool (a ≥ b)
  | .and => return .ofBool (left.isTrue && right.isTrue)
  | .or => return .ofBool (left.isTrue || right.isTrue)

/-- Variables in nested scopes, the innermost first. -/
abbrev Env := List (Table String Datum)

namespace Env

def get (env : Env) (name : String) : Except Stop Datum :=
  match env.findSome? (·.get? name) with
  | some datum => return datum
  | none => throw .illFormed

def define (name : String) (datum : Datum) : Env → Env
  | [] => []
  | scope :: outer => scope.insert name datum :: outer

def assign (name : String) (datum : Datum) : Env → Env
  | [] => []
  | scope :: outer =>
    if scope.contains name then scope.insert name datum :: outer else scope :: assign name datum outer

end Env

/-- Functions as their callers see them: a name and arguments give a result, or nothing. -/
abbrev Calls := String → List Datum → Except Stop (Option Datum)

section
variable (call : Calls) (env : Env)

mutual

def evalExpr : Expr → Except Stop Datum
  | .literal _ (.bool val) => return .ofBool val
  | .literal _ (.integer kind val) => return .of (.integer kind) val
  | .name _ name => env.get name
  | .call _ none name args => do
    match ← call name (← evalArgs args) with
    | some datum => return datum
    | none => throw .illFormed
  | .not _ val => do return .ofBool (! (← evalExpr val).isTrue)
  | .cast _ tgt val => match Scalar.ofType? tgt with
    | some tgt => do return (← evalExpr val).cast tgt
    | none => throw .illFormed
  | .binary _ op left right => do
    let left ← evalExpr left
    let right ← evalExpr right
    binary op left right
  | _ => throw .illFormed

def evalArgs : List Expr → Except Stop (List Datum)
  | [] => return []
  | arg :: args => do
    let datum ← evalExpr arg
    return datum :: (← evalArgs args)

end

end

inductive Flow where
  /-- Behind it. -/
  | next (env : Env)
  /-- Out of the function, with its result. -/
  | leave (res : Option Datum)

/-- Run a block in a scope of its own. -/
def nested (run : Env → Except Stop Flow) (env : Env) : Except Stop Flow := do
  match ← run (.empty :: env) with
  | .next env => return .next env.tail
  | .leave res => return .leave res

def allows (call : Calls) (polarity : Polarity) (cond : Expr) (env : Env) : Except Stop Bool := do
  let holds := (← evalExpr call env cond).isTrue
  return match polarity with
    | .whenTrue => holds
    | .whenFalse => ! holds

def turns (test : Env → Except Stop Bool) (body : Env → Except Stop Flow) : (fuel : Nat) → Env → Except Stop Flow
  | 0, _ => throw .outOfFuel
  | fuel + 1, env => do
    if ← test env then
      match ← body env with
      | .next env => turns test body fuel env
      | .leave res => return .leave res
    else return .next env

section
variable (call : Calls) (fuel : Nat)

mutual

def execStmt : Stmt → Env → Except Stop Flow
  | .declare _ name type, env => match Scalar.ofType? type with
    | some scalar => return .next (env.define name (.of scalar 0))
    | none => throw .illFormed
  | .define _ name _ val, env => do return .next (env.define name (← evalExpr call env val))
  | .assign _ (.name _ name) val, env => do return .next (env.assign name (← evalExpr call env val))
  | .call _ (.call _ none name args), env => do
    let _ ← call name (← evalArgs call env args)
    return .next env
  | .leave _ none, _ => return .leave none
  | .leave _ (some val), env => do return .leave (some (← evalExpr call env val))
  | .branch _ polarity cond body, env => do
    if ← allows call polarity cond env then nested (execBlock body) env else return .next env
  | .branchElse _ polarity cond body otherwise, env => do
    if ← allows call polarity cond env then nested (execBlock body) env
    else nested (execBlock otherwise) env
  | .loop _ polarity cond body, env =>
    turns (allows call polarity cond) (nested (execBlock body)) fuel env
  | _, _ => throw .illFormed

def execBlock : List Stmt → Env → Except Stop Flow
  | [], env => return .next env
  | stmt :: stmts, env => do
    match ← execStmt stmt env with
    | .next env => execBlock stmts env
    | .leave res => return .leave res

end

end

def bindParams : List Field → List Datum → Table String Datum → Table String Datum
  | param :: params, arg :: args, table => bindParams params args (table.insert param.name arg)
  | _, _, table => table

/-- The function a call means: the name and the types of the arguments are those declared. -/
def callee? (prog : Program) (name : String) (args : List Datum) : Option Function :=
  prog.functions.find? fun fn =>
    fn.name = name ∧ fn.paramTypes = args.map (·.scalar.type)

/-- Call a function. One that falls off its end returns zero. -/
def callFunction (prog : Program) : (fuel : Nat) → Function → List Datum → Except Stop (Option Datum)
  | 0, _, _ => throw .outOfFuel
  | fuel + 1, fn, args => do
    let call name args := match callee? prog name args with
      | some fn => callFunction prog fuel fn args
      | none => throw .illFormed
    match ← execBlock call fuel fn.body [bindParams fn.params args .empty] with
    | .next _ => return (Scalar.ofType? fn.result).map (.of · 0)
    | .leave res => return res

/-- The functions of a program as their callers see them. -/
def calls (prog : Program) (fuel : Nat) : Calls := fun name args =>
  match callee? prog name args with
  | some fn => callFunction prog fuel fn args
  | none => throw .illFormed

mutual

def isCoreExpr : Expr → Bool
  | .literal _ (.bool _) | .literal _ (.integer ..) | .name .. => true
  | .call _ none _ args => areCoreExprs args
  | .not _ val => isCoreExpr val
  | .cast _ tgt val => (Scalar.ofType? tgt).isSome && isCoreExpr val
  | .binary _ _ left right => isCoreExpr left && isCoreExpr right
  | _ => false

def areCoreExprs : List Expr → Bool
  | [] => true
  | expr :: exprs => isCoreExpr expr && areCoreExprs exprs

end

mutual

def isCoreStmt : Stmt → Bool
  | .declare _ _ type => (Scalar.ofType? type).isSome
  | .define _ _ type val => (Scalar.ofType? type).isSome && isCoreExpr val
  | .assign _ (.name ..) val => isCoreExpr val
  | .call _ (.call _ none _ args) => areCoreExprs args
  | .leave _ none => true
  | .leave _ (some val) => isCoreExpr val
  | .branch _ _ cond body | .loop _ _ cond body => isCoreExpr cond && areCoreStmts body
  | .branchElse _ _ cond body otherwise =>
    isCoreExpr cond && areCoreStmts body && areCoreStmts otherwise
  | _ => false

def areCoreStmts : List Stmt → Bool
  | [] => true
  | stmt :: stmts => isCoreStmt stmt && areCoreStmts stmts

end

def isCoreFunction (fn : Function) : Bool :=
  ! fn.isExternal && ! fn.isVariadic && ! fn.isMethod &&
    fn.params.all (fun param => (Scalar.ofType? param.type).isSome) &&
    (fn.result = .void || (Scalar.ofType? fn.result).isSome) && areCoreStmts fn.body

end TernLang.Core
