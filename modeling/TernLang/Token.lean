import TernLang.Decimal.Shortest
import TernLang.Primitive

/-! Tokens of the language: keywords, operators, literals and marks, with the text each
is written as and its binding strength in operator position. -/
namespace TernLang

inductive Keyword where
  | function | foreign | struct | objectClass | typeAlias | enumeration | constant | global
  | importing | link | dynamic
  | returning | ifTrue | ifFalse | whileTrue | whileFalse | otherwise | delete
  | allocate | cast | sizeOf | functionValue | null
  | visible | hidden | static | packed | stdcall | external
deriving DecidableEq

namespace Keyword

def all : List Keyword :=
  [function, foreign, struct, objectClass, typeAlias, enumeration, constant, global, importing, link,
    dynamic, returning, ifTrue, ifFalse, whileTrue, whileFalse, otherwise, delete, allocate, cast,
    sizeOf, functionValue, null, visible, hidden, static, packed, stdcall, external]

def text : Keyword → String
  | function => "def"
  | foreign => "foreign"
  | struct => "struct"
  | objectClass => "class"
  | typeAlias => "type"
  | enumeration => "enum"
  | constant => "constant"
  | global => "global"
  | importing => "import"
  | link => "link"
  | dynamic => "dynamic"
  | returning => "return"
  | ifTrue => "if"
  | ifFalse => "unless"
  | whileTrue => "while"
  | whileFalse => "until"
  | otherwise => "else"
  | delete => "delete"
  | allocate => "new"
  | cast => "cast"
  | sizeOf => "sizeof"
  | functionValue => "func"
  | null => "null"
  | visible => "public"
  | hidden => "private"
  | static => "static"
  | packed => "packed"
  | stdcall => "stdcall"
  | external => "external"

def ofText? (text : String) : Option Keyword := all.find? (·.text == text)

/-- Words that qualify the declaration after them. -/
def isAttribute : Keyword → Bool
  | visible | hidden | static | packed | stdcall | external => true
  | _ => false

end Keyword

inductive Operator where
  | plus | minus | star | slash | percent
  | equal | notEqual | less | lessEqual | greater | greaterEqual
  | and | or | not
  | assign | ampersand
deriving DecidableEq

namespace Operator

def text : Operator → String
  | plus => "+"
  | minus => "-"
  | star => "*"
  | slash => "/"
  | percent => "%"
  | equal => "=="
  | notEqual => "!="
  | less => "<"
  | lessEqual => "<="
  | greater => ">"
  | greaterEqual => ">="
  | and => "and"
  | or => "or"
  | not => "!"
  | assign => "="
  | ampersand => "&"

/-- Binding strength between two operands; zero for operators that never stand there. -/
def precedence : Operator → Nat
  | and | or => 1
  | equal | notEqual | less | lessEqual | greater | greaterEqual => 2
  | plus | minus => 3
  | star | slash | percent => 4
  | not | assign | ampersand => 0

end Operator

/-- Line and column, both from one. -/
structure Position where
  line : Nat := 1
  column : Nat := 1
deriving DecidableEq

namespace Position

/-- Behind one more character of the line. -/
def advance (pos : Position) : Position := { pos with column := pos.column + 1 }

/-- At the start of the next line. -/
def feed (pos : Position) : Position := ⟨pos.line + 1, 1⟩

end Position

namespace Token

/-- Integer literals carry their magnitude; a minus sign is a token of its own. -/
inductive Kind where
  | bool (val : Bool)
  | integer (kind : IntKind) (magnitude : Nat)
  | half (val : Binary32)
  | float (val : Binary32)
  | double (val : Binary64)
  | string (text : String)
  | word (text : String)
  | keyword (keyword : Keyword)
  | operator (operator : Operator)
  | leftParen | rightParen | leftBrace | rightBrace | leftBracket | rightBracket
  | comma | dot | ellipsis | colon | doubleColon | arrow | dollar
  | newline
  | eof
deriving DecidableEq

namespace Kind

/-- Binding strength in operator position; zero does not continue an expression.
A bare word there is a named operator. -/
def precedence : Kind → Nat
  | operator op => op.precedence
  | word _ => 3
  | dot | leftBracket => 5
  | _ => 0

def isNumeric : Kind → Bool
  | integer .. | half _ | float _ | double _ => true
  | _ => false

/-- How the token is written. -/
def text : Kind → String
  | bool val => if val then "true" else "false"
  | integer kind magnitude => toString magnitude ++ kind.suffix
  | half val => val.text ++ "h"
  | float val => val.text
  | double val => val.text ++ "d"
  | string text => "\"" ++ text ++ "\""
  | word text => text
  | keyword k => k.text
  | operator op => op.text
  | leftParen => "("
  | rightParen => ")"
  | leftBrace => "\x7b"
  | rightBrace => "\x7d"
  | leftBracket => "["
  | rightBracket => "]"
  | comma => ","
  | dot => "."
  | ellipsis => "..."
  | colon => ":"
  | doubleColon => "::"
  | arrow => "->"
  | dollar => "$"
  | newline => "newline"
  | eof => "end of file"

/-- The token as diagnostics show it. -/
def quoted (kind : Kind) : String := "'" ++ kind.text ++ "'"

end Kind
end Token

structure Token where
  kind : Token.Kind
  position : Position
deriving DecidableEq

end TernLang
