import Mathlib.Data.List.Forall2
import TernLang.Lowering
import TernLang.Proofs.Syntax
import TernLang.Proofs.Typing.Classes

/-! Types of expressions, by rules. An expression has its type among variables with given types;
statements say which variables an expression stands among. -/
namespace TernLang

open List

def Literal.type : Literal → TypeName
  | bool _ => .named "bool"
  | integer kind _ => .named kind.name
  | half _ => .named "half"
  | float _ => .named "float"
  | double _ => .named "double"
  | string _ => .pointer (.named "ubyte")
  | null => .named "ptr"

def BinaryOp.isTest (op : BinaryOp) : Bool := (Lowering.logical? op).isSome || op.isComparison

def Variables : Type := String → Option TypeName

namespace Variables

def none : Variables := fun _ => .none

def declare (vars : Variables) (name : String) (type : TypeName) : Variables :=
  fun other => if other = name then some type else vars other

def ofFields (fields : List Field) : Variables :=
  fields.foldl (fun vars field => vars.declare field.name field.type) none

def after (vars : Variables) : Stmt → Variables
  | .declare _ name type | .define _ name type _ => vars.declare name type
  | _ => vars

def ofScope (scope : Scope) : Variables := fun name => (scope.lookup? name).map (·.type)

end Variables

variable (prog : Program)

namespace Program

/-- The aggregate that a value of a type is or points to, by its resolved type. -/
def Reaches (type aggregate : TypeName) : Prop :=
  prog.Resolves type aggregate ∨ ∃ tgt, prog.Resolves type (.pointer tgt) ∧ prog.Resolves tgt aggregate

/-- The type of a variable: a local one hides a global one. -/
inductive HasVariable (prog : Program) (vars : Variables) (name : String) : TypeName → Prop where
  | inner {type : TypeName} : vars name = some type → HasVariable prog vars name type
  | outer {global : Global} : vars name = none → prog.global? name = some global →
    HasVariable prog vars name global.type

inductive HasType (prog : Program) (vars : Variables) : Expr → TypeName → Prop where
  | literal (mark : Mark) (val : Literal) : HasType prog vars (.literal mark val) val.type
  | name {name : String} {type : TypeName} (mark : Mark) : prog.HasVariable vars name type →
    HasType prog vars (.name mark name) type
  | addressOf {val : Expr} {type : TypeName} (mark : Mark) : HasType prog vars val type →
    HasType prog vars (.addressOf mark val) (.pointer type)
  | load {val : Expr} {type tgt : TypeName} (mark : Mark) : HasType prog vars val type →
    prog.Resolves type (.pointer tgt) → HasType prog vars (.load mark val) tgt
  | index {val : Expr} {type elem : TypeName} (mark : Mark) (off : Expr) :
    HasType prog vars val type →
    prog.Resolves type (.pointer elem) ∨ prog.Resolves type (.array elem) →
    HasType prog vars (.index mark val off) elem
  | length {val : Expr} {type elem : TypeName} (mark : Mark) : HasType prog vars val type →
    prog.Reaches type (.array elem) → HasType prog vars (.member mark val "length") (.named "usize")
  | member {val : Expr} {type : TypeName} {owner name : String} {struct : Structure} {field : Field}
    (mark : Mark) :
    HasType prog vars val type → prog.Reaches type (.named owner) →
      prog.structure? owner = some struct →
    struct.members.find? (·.name == name) = some field →
      HasType prog vars (.member mark val name) field.type
  | field {val : Expr} {type : TypeName} {owner name : String} {cls : Class} {field : ClassField}
    (mark : Mark) :
    HasType prog vars val type → prog.Reaches type (.named owner) → prog.structure? owner = none →
    prog.class? owner = some cls → cls.instanceFields.find? (·.name == name) = some field →
    HasType prog vars (.member mark val name) field.type
  | call {name : String} {args : List Expr} {types : List TypeName} {location : Location}
    {sig : Signature}
    (mark : Mark) : Forall₂ (HasType prog vars) args types →
    prog.findCallable location name types = .ok (some sig) →
    HasType prog vars (.call mark none name args) sig.result
  /-- A variable is called if no callable of its name takes the arguments. -/
  | callVariable {name : String} {args : List Expr} {types params : List TypeName}
    {location : Location}
    {type result : TypeName} {stdcall variadic : Bool} (mark : Mark) :
    Forall₂ (HasType prog vars) args types → prog.findCallable location name types = .ok none →
    prog.HasVariable vars name type →
      prog.Resolves type (.function params result stdcall variadic) →
    HasType prog vars (.call mark none name args) result
  | callStatic {scope name : String} {args : List Expr} {types : List TypeName}
    {location : Location}
    {cls : Class} {sig : Signature} (mark : Mark) : prog.class? scope = some cls →
    Forall₂ (HasType prog vars) args types →
    prog.findMethod location cls name types true = .ok (some sig) →
    HasType prog vars (.call mark (some scope) name args) sig.result
  | method {val : Expr} {type : TypeName} {owner name : String} {args : List Expr}
    {types : List TypeName}
    {location : Location} {cls : Class} {sig : Signature} (mark : Mark) :
      HasType prog vars val type →
    prog.Reaches type (.named owner) → prog.class? owner = some cls →
    Forall₂ (HasType prog vars) args types →
    prog.findMethod location cls name types false = .ok (some sig) →
    HasType prog vars (.method mark val name args) sig.result
  | not (mark : Mark) (val : Expr) : HasType prog vars (.not mark val) (.named "bool")
  | cast (mark : Mark) (tgt : TypeName) (val : Expr) : HasType prog vars (.cast mark tgt val) tgt
  | function {name : String} {params : Option (List TypeName)} {location : Location}
    {sig : Signature}
    (mark : Mark) : prog.findExact location name params = .ok (some sig) →
    HasType prog vars (.function mark name params) sig.pointerType
  | sizeOf (mark : Mark) (type : TypeName) : HasType prog vars (.sizeOf mark type) (.named "usize")
  | allocate (mark : Mark) (type : TypeName) (count : Option Nat) :
    HasType prog vars (.allocate mark type count) (.pointer type)
  | allocateMany (mark : Mark) (type : TypeName) (count : Expr) :
    HasType prog vars (.allocateMany mark type count) (.pointer type)
  | array {first : Expr} {type : TypeName} (mark : Mark) (rest : List Expr) :
    HasType prog vars first type →
    HasType prog vars (.array mark (first :: rest)) (.pointer type)
  | constant {name : String} {constant : Constant} {type : TypeName} (mark : Mark) :
    prog.constant? name = some constant → HasType prog vars constant.value type →
    HasType prog vars (.constant mark name) type
  | enumeration {scope : String} {enum_ : Enumeration} (mark : Mark) (name : String) :
    prog.enum? scope = some enum_ → HasType prog vars (.qualified mark scope name) (.named scope)
  | static {scope name : String} {cls : Class} {field : ClassField} (mark : Mark) :
    prog.class? scope = some cls → cls.staticField? name = some field →
    HasType prog vars (.qualified mark scope name) field.type
  | test {op : BinaryOp} (mark : Mark) (left right : Expr) : op.isTest →
    HasType prog vars (.binary mark op left right) (.named "bool")
  | arithmetic {op : BinaryOp} {left right : Expr} {first second type : TypeName}
    {location : Location} (mark : Mark) :
    op.isTest = false → HasType prog vars left first → HasType prog vars right second →
    prog.join location first second = .ok (some type) →
      HasType prog vars (.binary mark op left right) type

/-- Parts of an expression, with the values of constants in place of their names. -/
inductive Contains (prog : Program) : Expr → Expr → Prop where
  | self (expr : Expr) : Contains prog expr expr
  | part {expr child inner : Expr} : child ∈ expr.children → Contains prog child inner →
    Contains prog expr inner
  | constant {name : String} {constant : Constant} {inner : Expr} (mark : Mark) :
    prog.constant? name = some constant →
    Contains prog constant.value inner → Contains prog (.constant mark name) inner

/-- No array literal in the expression starts with an item without value. -/
def SolidItems (vars : Variables) (expr : Expr) : Prop :=
  ∀ mark first rest type, prog.Contains expr (.array mark (first :: rest)) → prog.HasType vars first type →
    ¬prog.Resolves type .void

theorem SolidItems.child {prog : Program} {expr child : Expr} (solid : prog.SolidItems vars expr)
    (part : child ∈ expr.children) : prog.SolidItems vars child := by
  intro mark first rest type contains
  exact solid mark first rest type (.part part contains)

end Program

def Stmt.parts : Stmt → List Expr
  | declare .. | leave _ none => []
  | define _ _ _ val | leave _ (some val) | call _ val | method _ val | delete _ val => [val]
  | assign _ tgt val => [tgt, val]
  | branch _ _ cond _ | branchElse _ _ cond _ _ | loop _ _ cond _ => [cond]

/-- An expression of a block and the variables it stands among. What follows a statement that leaves
is not reached. -/
inductive Stands : Variables → List Stmt → Variables → Expr → Prop where
  | here {vars : Variables} {stmt : Stmt} {expr : Expr} (rest : List Stmt) : expr ∈ stmt.parts →
    Stands vars (stmt :: rest) vars expr
  | inner {vars vars' : Variables} {stmt : Stmt} {block : List Stmt} {expr : Expr}
    (rest : List Stmt) :
    block ∈ stmt.blocks → Stands vars block vars' expr → Stands vars (stmt :: rest) vars' expr
  | later {vars vars' : Variables} {stmt : Stmt} {rest : List Stmt} {expr : Expr} :
    stmt.isTerminator = false →
    Stands (vars.after stmt) rest vars' expr → Stands vars (stmt :: rest) vars' expr

namespace Program

/-- No array literal in the block starts with an item without value. -/
def SolidBlock (vars : Variables) (block : List Stmt) : Prop :=
  ∀ vars' expr, Stands vars block vars' expr → prog.SolidItems vars' expr

namespace SolidBlock
variable {prog : Program} {vars : Variables} {stmt : Stmt} {rest block : List Stmt}
  (solid : prog.SolidBlock vars (stmt :: rest))
include solid

theorem part (mem : expr ∈ stmt.parts) : prog.SolidItems vars expr :=
  solid vars expr (.here rest mem)

theorem inner (mem : block ∈ stmt.blocks) : prog.SolidBlock vars block := by
  intro vars' expr stands
  exact solid vars' expr (.inner rest mem stands)

theorem later (stays : stmt.isTerminator = false) : prog.SolidBlock (vars.after stmt) rest := by
  intro vars' expr stands
  exact solid vars' expr (.later stays stands)

end SolidBlock

/-- No array literal in the body of a function starts with an item without value. -/
def SolidArrays : Prop :=
  ∀ entry ∈ Lowering.allFunctions prog, entry.1.isExternal = false →
    prog.SolidBlock (.ofFields entry.1.params) entry.1.body

end Program

/-! A condition on array literals that can be evaluated. -/

/-- An array literal starts with a literal. -/
def Expr.startsKnown : Expr → Bool
  | array _ (literal .. :: _) => true
  | array .. => false
  | _ => true

theorem Stmt.parts_subset (stmt : Stmt) : stmt.parts ⊆ stmt.roots := by
  intro expr mem
  cases stmt with
  | leave line val => cases val <;> exact mem
  | branch | branchElse | loop =>
    obtain rfl := mem_singleton.mp mem
    exact mem_cons_self
  | declare | define | assign | call | method | delete => exact mem

theorem Stands.mem_roots (stands : Stands vars block vars' expr) : expr ∈ Stmt.rootsList block := by
  induction stands with
  | here rest mem => exact mem_append_left _ (Stmt.parts_subset _ mem)
  | inner rest part _ ih => exact mem_append_left _ (Stmt.rootsList_block part ih)
  | later _ _ ih => exact mem_append_right _ ih

namespace Program

def startsKnown : Bool :=
  (prog.constants.map (·.value) ++ (Lowering.allFunctions prog).flatMap (Stmt.rootsList ·.1.body)).all
    fun root => root.nodes.all Expr.startsKnown

theorem Contains.startsKnown {prog : Program} (contains : prog.Contains expr node)
    (constants : ∀ constant ∈ prog.constants, ∀ node ∈ constant.value.nodes, node.startsKnown)
    (known : ∀ node ∈ expr.nodes, node.startsKnown) : node.startsKnown := by
  induction contains with
  | self expr => exact known expr expr.mem_nodes_self
  | part mem _ ih => exact ih fun node inside => known node (Expr.nodes_child mem inside)
  | constant mark there _ ih => exact ih (constants _ (mem_of_find?_eq_some there))

end Program
end TernLang
