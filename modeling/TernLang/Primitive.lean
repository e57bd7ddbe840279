import TernLang.Power

/-! Built-in types. -/
namespace TernLang

/-- The fixed-width integer types. -/
inductive IntKind where
  | byte | ubyte | short | ushort | int | uint | long | ulong
deriving DecidableEq

namespace IntKind

def isSigned : IntKind → Bool
  | byte | short | int | long => true
  | ubyte | ushort | uint | ulong => false

def bits : IntKind → Nat
  | byte | ubyte => 8
  | short | ushort => 16
  | int | uint => 32
  | long | ulong => 64

def name : IntKind → String
  | byte => "byte"
  | ubyte => "ubyte"
  | short => "short"
  | ushort => "ushort"
  | int => "int"
  | uint => "uint"
  | long => "long"
  | ulong => "ulong"

/-- Letters after the digits of a literal; plain digits are an `int`. -/
def suffix : IntKind → String
  | byte => "sb"
  | ubyte => "ub"
  | short => "ss"
  | ushort => "us"
  | int => ""
  | uint => "ui"
  | long => "sl"
  | ulong => "ul"

/-- Least value of the type. -/
def least (kind : IntKind) : Int := if kind.isSigned then -(twoPow (kind.bits - 1) : Int) else 0

/-- Greatest value of the type. -/
def greatest (kind : IntKind) : Int :=
  if kind.isSigned then (twoPow (kind.bits - 1) : Int) - 1 else (twoPow kind.bits : Int) - 1

/-- Greatest magnitude a literal may be written with: a signed one may still be negated. -/
def greatestMagnitude (kind : IntKind) : Nat :=
  if kind.isSigned then twoPow (kind.bits - 1) else twoPow kind.bits - 1

end IntKind

inductive Primitive where
  | void
  | bool
  | integer (kind : IntKind)
  | usize
  | half
  | float
  | double
  | pointer
deriving DecidableEq

namespace Primitive

def all : List Primitive :=
  [.void, .bool, .integer .byte, .integer .ubyte, .integer .short, .integer .ushort,
    .integer .int, .integer .uint, .integer .long, .integer .ulong, .usize, .half, .float,
    .double, .pointer]

def name : Primitive → String
  | void => "void"
  | bool => "bool"
  | integer kind => kind.name
  | usize => "usize"
  | half => "half"
  | float => "float"
  | double => "double"
  | pointer => "ptr"

def ofName? (name : String) : Option Primitive := all.find? (·.name == name)

def isFixedInteger : Primitive → Bool
  | integer _ => true
  | _ => false

def isInteger : Primitive → Bool
  | integer _ | usize => true
  | _ => false

def isFloat : Primitive → Bool
  | half | float | double => true
  | _ => false

def isSigned : Primitive → Bool
  | integer kind => kind.isSigned
  | _ => false

/-- Width in bits of the scalar types. -/
def bits? : Primitive → Option Nat
  | bool => some 1
  | integer kind => some kind.bits
  | usize | double => some 64
  | float => some 32
  | half => some 16
  | void | pointer => none

end Primitive
end TernLang
