import TernLang.Decimal.Fixed
import TernLang.Machine.Arithmetic
import TernLang.Machine.Memory

/-! Formatted output: a text with directives that take arguments. A directive is `%`, an
optional precision, length marks and a letter; one with another letter is written as it is. -/
namespace TernLang.Machine

/-- What a directive may go on with. -/
inductive Directive.Stage where
  | start
  | precision
  | length
deriving DecidableEq

/-- A directive up to its letter. -/
structure Directive where
  stage : Directive.Stage := .start
  precision : Option Nat := none
  isLong : Bool := false

namespace Directive

def width (directive : Directive) : Nat := if directive.isLong then 64 else 32

/-- The directive with one more character, unless that is its letter. -/
def extend? (directive : Directive) (c : Char) : Option Directive :=
  if directive.stage = .start ∧ c = '.' then some { directive with stage := .precision, precision := some 0 }
  else if directive.stage = .precision ∧ c.isDigit then
    some { directive with precision := directive.precision.map fun n => 10 * n + (c.toNat - '0'.toNat) }
  else if c = 'l' then some { directive with stage := .length, isLong := true }
  else none

end Directive

def textBytes (text : String) : List UInt8 := text.toUTF8.toList

/-- The next argument and those after it. -/
def nextArgument : List Slot → Except Fault (Slot × List Slot)
  | [] => throw .missingFormatArgument
  | slot :: rest => return (slot, rest)

def byteChar (byte : UInt8) : Char := Char.ofNat byte.toNat

/-- What a finished directive writes, and the arguments it leaves. -/
def Directive.write (directive : Directive) (memory : Memory) (letter : UInt8) (args : List Slot) :
    Except Fault (List UInt8 × List Slot) := do
  let width := directive.width
  match byteChar letter with
  | 'd' | 'i' => do
    let (slot, rest) ← nextArgument args
    return (textBytes (toString (Word.signed (← slot.word) width)), rest)
  | 'u' => do
    let (slot, rest) ← nextArgument args
    return (textBytes (toString (Word.truncate (← slot.word) width).toNat), rest)
  | 'x' => do
    let (slot, rest) ← nextArgument args
    return (textBytes (Word.hex 1 (Word.truncate (← slot.word) width).toNat false), rest)
  | 'f' => do
    let (slot, rest) ← nextArgument args
    return (textBytes (Decimal.fixed (directive.precision.getD 6) (← slot.real)), rest)
  | 'c' => do
    let (slot, rest) ← nextArgument args
    return (textBytes (String.singleton (byteChar (← slot.word).toUInt8)), rest)
  | 's' => do
    let (slot, rest) ← nextArgument args
    return (← memory.text (← slot.word), rest)
  | '%' => return (textBytes "%", args)
  | other => return (textBytes (String.ofList ['%', other]), args)

/-- The formatted text. `pending` is the directive being read. -/
def formatFrom (memory : Memory) : (pending : Option Directive) → List UInt8 → List Slot →
    Except Fault (List UInt8)
  | none, [], _ => return []
  | some _, [], _ => return textBytes "%"
  | none, byte :: rest, args =>
    if byteChar byte = '%' then formatFrom memory (some {}) rest args
    else do return byte :: (← formatFrom memory none rest args)
  | some directive, byte :: rest, args => match directive.extend? (byteChar byte) with
    | some directive => formatFrom memory (some directive) rest args
    | none => do
      let (text, args) ← directive.write memory byte args
      return text ++ (← formatFrom memory none rest args)

def format (memory : Memory) (text : List UInt8) (args : List Slot) : Except Fault (List UInt8) :=
  formatFrom memory none text args

end TernLang.Machine
