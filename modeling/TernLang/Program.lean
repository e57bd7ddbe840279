import TernLang.Build
import TernLang.Error
import TernLang.Syntax

/-! A program: the declarations of one file, in tables, and what it imports. Every
declaration remembers the file it was written in. -/
namespace TernLang

/-- A named parameter or member. -/
structure Field where
  name : String
  type : TypeName
deriving DecidableEq

structure Structure where
  name : String
  members : List Field
  isPublic : Bool
  isPacked : Bool
  line : Nat
  origin : Path
deriving DecidableEq

def Structure.memberIndex? (structure_ : Structure) (name : String) : Option Nat :=
  structure_.members.findIdx? (·.name == name)

structure ClassField where
  name : String
  type : TypeName
  isPublic : Bool
  isStatic : Bool
deriving DecidableEq

/-- A function or method with a body. -/
structure Function where
  name : String
  /-- A method that is not static has `this` in front. -/
  params : List Field
  result : TypeName
  body : List Stmt
  isPublic : Bool
  isStatic : Bool
  isStdcall : Bool
  /-- The body is compiled elsewhere. -/
  isExternal : Bool := false
  /-- The last parameter is a slice that takes every further argument. -/
  isVariadic : Bool
  /-- Zero for a free function, else one more than the index of its class. -/
  classOffset : Nat
  line : Nat
  origin : Path

namespace Function

def paramTypes (fn : Function) : List TypeName := fn.params.map (·.type)

def isMethod (fn : Function) : Bool := fn.classOffset != 0

/-- Element type of the variadic tail. -/
def tail? (fn : Function) : Option TypeName :=
  if fn.isVariadic then fn.params.getLast?.bind (·.type.element?) else none

def location (fn : Function) : Location := ⟨fn.origin, fn.line⟩

end Function

/-- A structure with methods; static fields are kept outside its instances. -/
structure Class where
  name : String
  members : List ClassField
  methods : List Function
  isPublic : Bool
  isImported : Bool := false
  line : Nat
  origin : Path

namespace Class

/-- Fields of an instance, in layout order. -/
def instanceFields (cls : Class) : List ClassField := cls.members.filter (! ·.isStatic)

def instanceIndex? (cls : Class) (name : String) : Option Nat :=
  cls.instanceFields.findIdx? (·.name == name)

def staticField? (cls : Class) (name : String) : Option ClassField :=
  cls.members.find? fun field => field.isStatic && field.name == name

/-- Symbol of the global that holds a static field. -/
def staticSymbol (cls : Class) (field : String) : String := cls.name ++ "::" ++ field

end Class

/-- A callable without a body in this program. -/
structure External where
  name : String
  params : List TypeName
  result : TypeName
  isPublic : Bool
  /-- An imported function, known by its mangled symbol. -/
  isMangled : Bool
  isStdcall : Bool
  isVariadic : Bool
  line : Nat
  origin : Path
deriving DecidableEq

structure Global where
  name : String
  type : TypeName
  isPublic : Bool
  isImported : Bool := false
  /-- Another object file has the storage. -/
  isExternal : Bool
  line : Nat
  origin : Path
deriving DecidableEq

/-- An expression that stands for each use of a name. -/
structure Constant where
  name : String
  value : Expr
  isPublic : Bool
  line : Nat
  origin : Path

structure Alias where
  name : String
  binding : TypeName
  isPublic : Bool
  line : Nat
  origin : Path
deriving DecidableEq

structure EnumField where
  name : String
  value : Option Nat
deriving DecidableEq

structure Enumeration where
  name : String
  fields : List EnumField
  isPublic : Bool
  line : Nat
  origin : Path
deriving DecidableEq

namespace Enumeration

/-- A member without a value of its own follows its predecessor, modulo a word. -/
def valuesFrom (next : Nat) : List EnumField → List Nat
  | [] => []
  | field :: fields =>
    let val := field.value.getD next
    val :: valuesFrom ((val + 1) % twoPow 64) fields

def values (enum_ : Enumeration) : List Nat := valuesFrom 0 enum_.fields

def value? (enum_ : Enumeration) (member : String) : Option Nat := do
  let idx ← enum_.fields.findIdx? (·.name == member)
  enum_.values[idx]?

/-- The least of the widths 8, 16, 32 and 64 that holds every value. -/
def bits (enum_ : Enumeration) : Nat :=
  let largest := enum_.values.foldl max 0
  if largest < twoPow 8 then 8 else if largest < twoPow 16 then 16 else if largest < twoPow 32 then 32 else 64

end Enumeration

/-- An import as it is written. -/
structure ImportRequest where
  name : String
  isPublic : Bool
  line : Nat
deriving DecidableEq

/-- A file whose declarations were merged in. -/
structure ImportRecord where
  file : Path
  isPublic : Bool
deriving DecidableEq

structure Program where
  file : Path
  /-- Expression nodes numbered so far. -/
  nodes : Nat := 0
  structures : List Structure := []
  classes : List Class := []
  functions : List Function := []
  externals : List External := []
  globals : List Global := []
  constants : List Constant := []
  aliases : List Alias := []
  enums : List Enumeration := []
  dependencies : List Dependency := []
  linkLibraries : List String := []
  dynamicLibraries : List String := []
  importRequests : List ImportRequest := []
  imports : List ImportRecord := []

namespace Program

def location (prog : Program) (line : Nat) : Location := ⟨prog.file, line⟩

/-- The directory of the file; the current one if the path has no parent. -/
def directory (prog : Program) : Path := prog.file.parent?.getD ⟨"."⟩

def structure? (prog : Program) (name : String) : Option Structure :=
  prog.structures.find? (·.name == name)

def class? (prog : Program) (name : String) : Option Class :=
  prog.classes.find? (·.name == name)

def global? (prog : Program) (name : String) : Option Global :=
  prog.globals.find? (·.name == name)

def constant? (prog : Program) (name : String) : Option Constant :=
  prog.constants.find? (·.name == name)

def alias? (prog : Program) (name : String) : Option Alias :=
  prog.aliases.find? (·.name == name)

def enum? (prog : Program) (name : String) : Option Enumeration :=
  prog.enums.find? (·.name == name)

/-- The class a method belongs to. -/
def owner? (program : Program) (function : Function) : Option Class :=
  match function.classOffset with
  | 0 => none
  | index + 1 => program.classes[index]?

/-- What a name that cannot be called stands for. -/
def valueNamed? (prog : Program) (name : String) : Option Category :=
  if (prog.structure? name).isSome then some .struct
  else if (prog.class? name).isSome then some .objectClass
  else if (prog.global? name).isSome then some .global
  else if (prog.constant? name).isSome then some .constant
  else if (prog.alias? name).isSome then some .typeAlias
  else if (prog.enum? name).isSome then some .enumeration
  else none

def hasFunction (prog : Program) (name : String) : Bool := prog.functions.any (·.name == name)

def hasExternal (prog : Program) (name : String) : Bool := prog.externals.any (·.name == name)

def hasCallable (program : Program) (name : String) : Bool :=
  program.hasFunction name || program.hasExternal name

/-- What a name stands for. -/
def declared? (prog : Program) (name : String) : Option Category :=
  match prog.valueNamed? name with
  | some cat => some cat
  | none =>
    if prog.hasFunction name then some .function
    else if prog.hasExternal name then some .external
    else none

/-- Whether a function of this name has exactly these parameter types. -/
def hasFunctionLike (prog : Program) (name : String) (params : List TypeName) : Bool :=
  prog.functions.any fun f => f.name == name && f.paramTypes == params

def hasExternalLike (prog : Program) (name : String) (params : List TypeName) : Bool :=
  prog.externals.any fun e => e.name == name && e.params == params

end Program
end TernLang
