import TernLang.Token
import TernLang.TypeName

/-! Expressions and statements. Every expression node carries its number and its line; the
parser numbers nodes as it completes them, so a node's parts have smaller numbers. -/
namespace TernLang

/-- Number and line of an expression node. -/
structure Mark where
  id : Nat
  line : Nat
deriving DecidableEq, Inhabited

inductive Literal where
  | bool (val : Bool)
  | integer (kind : IntKind) (val : Int)
  | half (val : Binary32)
  | float (val : Binary32)
  | double (val : Binary64)
  | string (text : String)
  | null
deriving DecidableEq

inductive BinaryOp where
  | add | subtract | multiply | divide | modulus
  | equal | notEqual | less | lessEqual | greater | greaterEqual
  | and | or
deriving DecidableEq

namespace BinaryOp

def text : BinaryOp → String
  | add => "+"
  | subtract => "-"
  | multiply => "*"
  | divide => "/"
  | modulus => "%"
  | equal => "=="
  | notEqual => "!="
  | less => "<"
  | lessEqual => "<="
  | greater => ">"
  | greaterEqual => ">="
  | and => "and"
  | or => "or"

def isComparison : BinaryOp → Bool
  | equal | notEqual | less | lessEqual | greater | greaterEqual => true
  | _ => false

/-- The operation an operator stands for between two operands. -/
def ofOperator? : Operator → Option BinaryOp
  | .plus => some add
  | .minus => some subtract
  | .star => some multiply
  | .slash => some divide
  | .percent => some modulus
  | .equal => some equal
  | .notEqual => some notEqual
  | .less => some less
  | .lessEqual => some lessEqual
  | .greater => some greater
  | .greaterEqual => some greaterEqual
  | .and => some and
  | .or => some or
  | .not | .assign | .ampersand => none

end BinaryOp

inductive Expr where
  | literal (mark : Mark) (val : Literal)
  | name (mark : Mark) (text : String)
  | addressOf (mark : Mark) (val : Expr)
  | load (mark : Mark) (val : Expr)
  | index (mark : Mark) (val off : Expr)
  | member (mark : Mark) (val : Expr) (field : String)
  | call (mark : Mark) (scope : Option String) (name : String) (args : List Expr)
  | method (mark : Mark) (val : Expr) (name : String) (args : List Expr)
  | not (mark : Mark) (val : Expr)
  | cast (mark : Mark) (tgt : TypeName) (val : Expr)
  | function (mark : Mark) (name : String) (params : Option (List TypeName))
  | sizeOf (mark : Mark) (ty : TypeName)
  | allocate (mark : Mark) (ty : TypeName) (count : Option Nat)
  | allocateMany (mark : Mark) (ty : TypeName) (count : Expr)
  | array (mark : Mark) (items : List Expr)
  | constant (mark : Mark) (name : String)
  | qualified (mark : Mark) (scope name : String)
  | binary (mark : Mark) (op : BinaryOp) (left right : Expr)
deriving Inhabited

namespace Expr

def mark : Expr → Mark
  | literal m _ | name m _ | addressOf m _ | load m _ | index m _ _ | member m _ _ | call m _ _ _
  | method m _ _ _ | not m _ | cast m _ _ | function m _ _ | sizeOf m _ | allocate m _ _
  | allocateMany m _ _ | array m _ | constant m _ | qualified m _ _ | binary m _ _ _ => m

def line (expr : Expr) : Nat := expr.mark.line

/-- Whether the expression denotes storage. -/
def isMutable : Expr → Bool
  | name .. | load .. | index .. | member .. | qualified .. => true
  | _ => false

def isLiteral : Expr → Bool
  | literal .. => true
  | _ => false

/-- Direct parts in order of evaluation. -/
def children : Expr → List Expr
  | addressOf _ val | load _ val | not _ val | member _ val _ | cast _ _ val
  | allocateMany _ _ val => [val]
  | index _ val off => [val, off]
  | call _ _ _ args | array _ args => args
  | method _ val _ args => val :: args
  | binary _ _ left right => [left, right]
  | literal .. | name .. | function .. | sizeOf .. | allocate .. | constant .. | qualified .. => []

mutual

/-- All nodes, parts before wholes. -/
def nodes : Expr → List Expr
  | e@(addressOf _ value) | e@(load _ value) | e@(not _ value) | e@(member _ value _)
  | e@(cast _ _ value) | e@(allocateMany _ _ value) => value.nodes ++ [e]
  | e@(index _ value offset) => value.nodes ++ offset.nodes ++ [e]
  | e@(call _ _ _ args) | e@(array _ args) => nodesList args ++ [e]
  | e@(method _ value _ args) => value.nodes ++ nodesList args ++ [e]
  | e@(binary _ _ left right) => left.nodes ++ right.nodes ++ [e]
  | e@(literal ..) | e@(name ..) | e@(function ..) | e@(sizeOf ..) | e@(allocate ..)
  | e@(constant ..) | e@(qualified ..) => [e]

def nodesList : List Expr → List Expr
  | [] => []
  | e :: es => e.nodes ++ nodesList es

end

end Expr

/-- When a condition lets its body run. -/
inductive Polarity where
  | whenTrue
  | whenFalse
deriving DecidableEq

inductive Stmt where
  | declare (line : Nat) (name : String) (ty : TypeName)
  | define (line : Nat) (name : String) (ty : TypeName) (val : Expr)
  | leave (line : Nat) (val : Option Expr)
  | assign (line : Nat) (tgt val : Expr)
  | call (line : Nat) (val : Expr)
  | method (line : Nat) (val : Expr)
  | branch (line : Nat) (polarity : Polarity) (cond : Expr) (body : List Stmt)
  | branchElse (line : Nat) (polarity : Polarity) (cond : Expr) (body otherwise : List Stmt)
  | loop (line : Nat) (polarity : Polarity) (cond : Expr) (body : List Stmt)
  | delete (line : Nat) (val : Expr)
deriving Inhabited

namespace Stmt

def line : Stmt → Nat
  | declare l _ _ | define l _ _ _ | leave l _ | assign l _ _ | call l _ | method l _
  | branch l _ _ _ | branchElse l _ _ _ _ | loop l _ _ _ | delete l _ => l

/-- Whether control never passes the statement. -/
def isTerminator : Stmt → Bool
  | leave .. => true
  | _ => false

def isConditional : Stmt → Bool
  | branch .. | branchElse .. | loop .. => true
  | _ => false

mutual

/-- Top expressions of a statement, in order. -/
def roots : Stmt → List Expr
  | declare .. | leave _ none => []
  | define _ _ _ val | leave _ (some val) | call _ val | method _ val | delete _ val => [val]
  | assign _ tgt val => [tgt, val]
  | branch _ _ cond body | loop _ _ cond body => cond :: rootsList body
  | branchElse _ _ cond body otherwise => cond :: (rootsList body ++ rootsList otherwise)

def rootsList : List Stmt → List Expr
  | [] => []
  | s :: ss => s.roots ++ rootsList ss

end

end Stmt
end TernLang
