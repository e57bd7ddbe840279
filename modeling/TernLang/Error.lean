import TernLang.Machine.Fault
import TernLang.Path
import TernLang.Token
import TernLang.TypeName

/-! Causes of failure, one type per stage, and the reports they are shown as. -/
namespace TernLang

structure Location where
  file : Path
  line : Nat
deriving DecidableEq, Inhabited

def Location.text (loc : Location) : String :=
  loc.file.text ++ "(" ++ toString loc.line ++ ")"

def Location.start (file : Path) : Location := ⟨file, 1⟩

inductive Category where
  | struct
  | objectClass
  | global
  | constant
  | typeAlias
  | enumeration
  | function
  | external
deriving DecidableEq

def Category.text : Category → String
  | struct => "structure"
  | objectClass => "class"
  | global => "global"
  | constant => "constant"
  | typeAlias => "type alias"
  | enumeration => "enum"
  | function => "function"
  | external => "external"

inductive LexError where
  | unrecognized (character : Char)
  | unterminatedString
  | unterminatedComment
  | outOfRange (text : String)
  | unknownFloatSuffix (suffix : String)
  | unknownIntegerSuffix (suffix : String)
deriving DecidableEq

def LexError.message : LexError → String
  | unrecognized c => "unrecognized character '" ++ String.singleton c ++ "'"
  | unterminatedString => "unterminated string literal"
  | unterminatedComment => "unterminated block comment"
  | outOfRange text => "numeric literal '" ++ text ++ "' is out of range"
  | unknownFloatSuffix suffix => "unknown floating point suffix '" ++ suffix ++ "'"
  | unknownIntegerSuffix suffix => "unknown integer suffix '" ++ suffix ++ "'"

/-- What the grammar asks for at some place. -/
inductive Wanted where
  | token (kind : Token.Kind)
  | keyword (keyword : Keyword)
  | type
  | endOfType
  | identifier
  | string
  | endOfLine
  | declaration
  | enumValue
  | binaryOperator
  | expression
deriving DecidableEq

def Wanted.text : Wanted → String
  | token kind => kind.quoted
  | keyword k => "keyword '" ++ k.text ++ "'"
  | type => "type"
  | endOfType => "end of type name"
  | identifier => "identifier"
  | string => "string literal"
  | endOfLine => "end of line"
  | declaration => "declaration"
  | enumValue => "enum value"
  | binaryOperator => "binary operator"
  | expression => "expression"

inductive ParseError where
  | expected (wanted : Wanted) (found : Token.Kind)
  | variadicNotLast
  | emptyArray
  | notAssignable (expression : String)
  | notStatement (expression : String)
  | exhausted
deriving DecidableEq

def ParseError.message : ParseError → String
  | expected wanted found => "expected " ++ wanted.text ++ ", found " ++ found.quoted
  | variadicNotLast => "variadic parameter must be the last parameter"
  | emptyArray => "array literal must not be empty"
  | notAssignable expression => "cannot assign to '" ++ expression ++ "'"
  | notStatement expression => "expression '" ++ expression ++ "' is not a statement"
  | exhausted => "the parse went on without a token"

/-- Undeclared, repeated or hidden names. -/
inductive NameError where
  | declared (name : String) (cat : Category)
  | declaredSame (name : String)
  | duplicateParameterOf (parameter fn : String)
  | duplicateMember (member owner : String)
  | duplicateEnumMember (member owner : String)
  | duplicateMethod (method owner : String)
  | duplicateField (field owner : String)
  | importClash (name : String) (cat : Category)
  | overloaded (name : String)
  | undeclaredType (ty : TypeName)
  | duplicateParameter (name : String)
  | redeclaredVariable (name : String)
  | undeclaredFunction (name : String)
  | undeclaredCall (name : String) (args : List TypeName)
  | noEnumMember (owner member : String)
  | undeclaredScope (name : String)
  | noStaticField (owner field : String)
  | privateStaticField (owner field : String)
  | undeclaredVariable (name : String)
  | noSliceMember (ty : TypeName) (member : String)
  | noMember (ty : TypeName) (member : String)
  | privateField (field owner : String)
  | undeclaredConstant (name : String)
  | selfReference (constant : String)
  | undeclaredClass (name : String)
  | undeclaredStaticMethod (owner method : String) (args : List TypeName)
  | undeclaredMethod (owner method : String) (args : List TypeName)
  | privateMethod (owner method : String)
  | unknownModule (name : String)
  | circularImport (file : Path)
deriving DecidableEq

def callText (name : String) (args : List TypeName) : String :=
  "'" ++ name ++ "(" ++ TypeName.textList args ++ ")'"

def NameError.message : NameError → String
  | declared name cat => "'" ++ name ++ "' is already declared as a " ++ cat.text
  | declaredSame name => "'" ++ name ++ "' is already declared with the same arguments"
  | duplicateParameterOf parameter fn =>
    "duplicate parameter '" ++ parameter ++ "' in function '" ++ fn ++ "'"
  | duplicateMember member owner => "duplicate member '" ++ member ++ "' in structure '" ++ owner ++ "'"
  | duplicateEnumMember member owner => "duplicate member '" ++ member ++ "' in enum '" ++ owner ++ "'"
  | duplicateMethod method owner =>
    "method '" ++ method ++ "' is already declared in class '" ++ owner ++ "' with the same arguments"
  | duplicateField field owner => "duplicate field '" ++ field ++ "' in class '" ++ owner ++ "'"
  | importClash name cat =>
    "imported '" ++ name ++ "' clashes with an existing " ++ cat.text ++ " of the same name"
  | overloaded name => "'" ++ name ++ "' is overloaded; write 'func &" ++ name ++ "(T...)' to pick one"
  | undeclaredType ty => "undeclared type '" ++ ty.text ++ "'"
  | duplicateParameter name => "duplicate parameter '" ++ name ++ "'"
  | redeclaredVariable name => "variable '" ++ name ++ "' is already declared in this scope"
  | undeclaredFunction name => "undeclared function '" ++ name ++ "'"
  | undeclaredCall name args => "undeclared function " ++ callText name args
  | noEnumMember owner member => "enum '" ++ owner ++ "' has no member '" ++ member ++ "'"
  | undeclaredScope name => "undeclared enum or class '" ++ name ++ "'"
  | noStaticField owner field => "class '" ++ owner ++ "' has no static field '" ++ field ++ "'"
  | privateStaticField owner field => "field '" ++ owner ++ "::" ++ field ++ "' is private"
  | undeclaredVariable name => "undeclared variable '" ++ name ++ "'"
  | noSliceMember ty member => "slice '" ++ ty.text ++ "' has no member '" ++ member ++ "'"
  | noMember ty member => "'" ++ ty.text ++ "' has no member '" ++ member ++ "'"
  | privateField field owner => "field '" ++ field ++ "' of class '" ++ owner ++ "' is private"
  | undeclaredConstant name => "undeclared constant '$" ++ name ++ "'"
  | selfReference name => "constant '$" ++ name ++ "' refers to itself"
  | undeclaredClass name => "undeclared class '" ++ name ++ "'"
  | undeclaredStaticMethod owner method args =>
    "undeclared static method " ++ callText (owner ++ "::" ++ method) args
  | undeclaredMethod owner method args => "undeclared method " ++ callText (owner ++ "." ++ method) args
  | privateMethod owner method => "method '" ++ owner ++ "." ++ method ++ "' is private"
  | unknownModule name => "unknown module '" ++ name ++ "'"
  | circularImport file => "circular import of '" ++ file.text ++ "'"

/-- Where a value of the wrong type was about to go. -/
inductive Destination where
  | initial (name : String) (ty : TypeName)
  | target (ty : TypeName)
  | result (fn : String) (ty : TypeName)
  | argument (fn : String) (ty : TypeName)
  | item (ty : TypeName)
deriving DecidableEq

def Destination.text : Destination → String
  | initial name ty => "cannot initialize '" ++ name ++ "' of type '" ++ ty.text ++ "' with a value of type"
  | target ty => "'" ++ ty.text ++ "' cannot be assigned a value of type"
  | result fn ty => "'" ++ fn ++ "' must return '" ++ ty.text ++ "', not a value of type"
  | argument fn ty =>
    "argument of '" ++ fn ++ "' of type '" ++ ty.text ++ "' cannot take a value of type"
  | item ty => "array literal of '" ++ ty.text ++ "' cannot hold a value of type"

inductive TypeError where
  | notCondition (ty : TypeName)
  | voidMember (name : String) (ty : TypeName)
  | voidGlobal (sym : String)
  | voidParameter (fn : String)
  | voidVariable (name : String)
  | mismatch (destination : Destination) (found : TypeName)
  | returnsVoid (fn : String)
  | mustReturn (fn : String) (ty : TypeName)
  | notAddressable (expression : String)
  | voidLoad
  | notPointer (ty : TypeName)
  | notIndexable (ty : TypeName)
  | notIndex (ty : TypeName)
  | voidHasNoMembers
  | voidHasNoSize
  | incompatible (left right : TypeName) (op : String)
  | unsupported (op : String) (ty : TypeName)
  | badCast (src tgt : TypeName)
  | voidArgument
  | argumentCount (fn : String) (expected found : Nat)
  | noMethods (ty : TypeName)
  | notDeletable (ty : TypeName)
deriving DecidableEq

def TypeError.message : TypeError → String
  | notCondition ty => "'" ++ ty.text ++ "' cannot be used as a condition"
  | voidMember name ty => "member '" ++ name ++ "' cannot have type '" ++ ty.text ++ "'"
  | voidGlobal sym => "global '" ++ sym ++ "' cannot have type 'void'"
  | voidParameter fn => "parameter of '" ++ fn ++ "' cannot have type 'void'"
  | voidVariable name => "variable '" ++ name ++ "' cannot have type 'void'"
  | mismatch destination found => destination.text ++ " '" ++ found.text ++ "'"
  | returnsVoid fn => "'" ++ fn ++ "' returns void and cannot return a value"
  | mustReturn fn ty => "'" ++ fn ++ "' must return a value of type '" ++ ty.text ++ "'"
  | notAddressable expression => "'" ++ expression ++ "' is not addressable"
  | voidLoad => "cannot load a value of type 'void'"
  | notPointer ty => "cannot dereference a value of type '" ++ ty.text ++ "'"
  | notIndexable ty => "cannot index a value of type '" ++ ty.text ++ "'"
  | notIndex ty => "expected an integer index, found '" ++ ty.text ++ "'"
  | voidHasNoMembers => "a 'void' value has no members"
  | voidHasNoSize => "'void' has no size"
  | incompatible left right op =>
    "incompatible types '" ++ left.text ++ "' and '" ++ right.text ++ "' for '" ++ op ++ "'"
  | unsupported op ty => "operator '" ++ op ++ "' cannot be applied to '" ++ ty.text ++ "'"
  | badCast src tgt => "cannot cast '" ++ src.text ++ "' to '" ++ tgt.text ++ "'"
  | voidArgument => "cannot pass a 'void' value"
  | argumentCount fn expected found =>
    "'" ++ fn ++ "' expects " ++ toString expected ++ " arguments, found " ++ toString found
  | noMethods ty => "'" ++ ty.text ++ "' has no methods"
  | notDeletable ty => "cannot delete a value of type '" ++ ty.text ++ "'"

/-- Failures of the surrounding system, as it words them. -/
inductive SystemError where
  | notFound
  | notDirectory
  | isDirectory
deriving DecidableEq

def SystemError.message : SystemError → String
  | notFound => "No such file or directory (os error 2)"
  | notDirectory => "Not a directory (os error 20)"
  | isDirectory => "Is a directory (os error 21)"

/-- Failures of a tool that was started, or could not be. -/
inductive ToolError where
  | cannotRun (driver : Path) (cause : SystemError)
  | failedOn (driver listing : Path)
  | notProduced (output : Path)
deriving DecidableEq

def ToolError.message : ToolError → String
  | cannotRun driver cause => "cannot run '" ++ driver.text ++ "': " ++ cause.message
  | failedOn driver listing => "'" ++ driver.text ++ "' failed on '" ++ listing.text ++ "': "
  | notProduced output => "failed to produce '" ++ output.text ++ "': "

/-- Alias resolution that went wrong by itself. -/
inductive AliasError where
  | starLeft (ty : TypeName)
  /-- Calls that nest without an end, and take the whole stack. -/
  | endless
deriving DecidableEq

def AliasError.message : AliasError → String
  | starLeft ty => "pointer modifier left on '" ++ ty.text ++ "' after alias resolution"
  | endless => "alias resolution does not end"

/-- Uses of a session that it does not allow. -/
inductive SessionError where
  | stillParsing (file : Path)
  | alreadyCached (file : Path)
  | notLoaded (file : Path)
  | tooDeep (file : Path)
  | noProgram (idx : Nat)
deriving DecidableEq

def SessionError.message : SessionError → String
  | stillParsing file => "'" ++ file.text ++ "' is still being parsed"
  | alreadyCached file => "'" ++ file.text ++ "' is already cached"
  | notLoaded file => "dependency '" ++ file.text ++ "' was never loaded"
  | tooDeep file => "imports are nested too deeply at '" ++ file.text ++ "'"
  | noProgram idx => "no cached program " ++ toString idx

inductive Error where
  | lex (loc : Location) (cause : LexError)
  | parse (loc : Location) (cause : ParseError)
  | name (loc : Location) (cause : NameError)
  | type (loc : Location) (cause : TypeError)
  | recursiveAlias (loc : Location) (name : String)
  | alias (cause : AliasError)
  | cannotOpen (file : Path)
  | system (cause : SystemError)
  | backend (cause : ToolError)
  | link (cause : ToolError)
  | execution (fault : Machine.Fault)
  | layout (cause : Ir.LayoutError)
  | session (cause : SessionError)

inductive Report.Kind where
  | lex | parse | resolution | type | recursiveAlias | io | backend | link | execution | internal
deriving DecidableEq

/-- The words in front of reports that have no location. -/
def Report.Kind.heading : Report.Kind → String
  | io => "I/O error: "
  | backend => "backend error: "
  | link => "link error: "
  | execution => "execution error: "
  | internal => "internal compiler error: "
  | _ => ""

structure Report where
  kind : Report.Kind
  location : Option Location := none
  /-- The text without its location. -/
  plain : String

namespace Report

def text (report : Report) : String :=
  match report.location with
  | some loc => loc.text ++ ": " ++ report.plain
  | none => report.plain

def located (kind : Kind) (loc : Location) (message : String) : Report :=
  ⟨kind, some loc, message⟩

/-- A report that points nowhere says what went wrong in its heading. -/
def unlocated (kind : Kind) (message : String) : Report := ⟨kind, none, kind.heading ++ message⟩

def recursiveAlias (loc : Location) (name : String) : Report :=
  located .recursiveAlias loc ("recursive alias '" ++ name ++ "'")

def cannotOpen (file : Path) : Report := ⟨.io, none, "cannot open '" ++ file.text ++ "'"⟩

end Report

def Error.report : Error → Report
  | lex loc cause => .located .lex loc cause.message
  | parse loc cause => .located .parse loc cause.message
  | name loc cause => .located .resolution loc cause.message
  | type loc cause => .located .type loc cause.message
  | recursiveAlias loc found => .recursiveAlias loc found
  | .alias cause => .unlocated .internal cause.message
  | cannotOpen file => .cannotOpen file
  | system cause => .unlocated .io cause.message
  | backend cause => .unlocated .backend cause.message
  | link cause => .unlocated .link cause.message
  | execution (.layout cause) | layout cause => .unlocated .internal cause.message
  | execution fault => .unlocated .execution fault.message
  | session cause => .unlocated .internal cause.message

/-- The texts of a failure and of what lies behind it, outermost first. -/
def Error.chain (error : Error) : List String :=
  match error with
  | system cause => [error.report.text, cause.message]
  | _ => [error.report.text]

end TernLang
