import TernLang.Binary.Half
import TernLang.Ir

/-! The written form of lowered code. -/
namespace TernLang

def IrType.text : IrType → String
  | void => "void"
  | int bits => "i" ++ toString bits
  | half => "half"
  | float => "float"
  | double => "double"
  | pointer => "ptr"
  | struct name => "%\"" ++ name ++ "\""
  | array elem count => "[" ++ toString count ++ " x " ++ elem.text ++ "]"
  | slice => "\x7b ptr, i64 \x7d"

namespace Ir

def commas (items : List String) : String := String.intercalate ", " items

/-- A float constant is written as bits: half ones on their own, others as doubles. -/
def floatText (ty : IrType) (val : Binary64) : String :=
  match ty with
  | .half => "0xH" ++ Word.hex 4 (Half.ofBinary64 val).toNat true
  | .float => "0x" ++ Word.hex 16 val.narrow.widen.bits.toNat true
  | _ => "0x" ++ Word.hex 16 val.bits.toNat true

def intText (ty : IrType) (word : UInt64) : String :=
  match ty with
  | .int 1 => if word = 0 then "false" else "true"
  | .int bits => toString (Word.signed word bits)
  | _ => toString word.toNat

def zeroText : IrType → String
  | .int _ => "0"
  | .half | .float | .double => "0.0"
  | .pointer => "null"
  | _ => "zeroinitializer"

def Value.operandText (val : Value) : String :=
  match val.operand with
  | .register idx => "%r" ++ toString idx
  | .argument idx => "%a" ++ toString idx
  | .int word => intText val.type word
  | .float num => floatText val.type num
  | .null => "null"
  | .zero => zeroText val.type
  | .global name | .function name => "@\"" ++ name ++ "\""

def Value.text (val : Value) : String := val.type.text ++ " " ++ val.operandText

/-- Parameter types, with the mark of a variadic tail. -/
def withTail (variadic : Bool) (params : List String) : String :=
  commas (if variadic then params ++ ["..."] else params)

def FunctionType.text (ty : FunctionType) : String :=
  ty.result.text ++ " (" ++ withTail ty.variadic (ty.params.map IrType.text) ++ ")"

def convention (ty : FunctionType) : String := if ty.stdcall then "x86_stdcallcc " else ""

/-- The assignment in front of an instruction that defines a register. -/
def defines (reg : Nat) : String := "%r" ++ toString reg ++ " = "

def Instruction.text : Instruction → String
  | alloca res ty => defines res ++ "alloca " ++ ty.text
  | load res ty ptr => defines res ++ "load " ++ ty.text ++ ", " ++ ptr.text
  | store val ptr => "store " ++ val.text ++ ", " ++ ptr.text
  | elementPtr res base ptr indices =>
    defines res ++ "getelementptr " ++ commas (base.text :: ptr.text :: indices.map Value.text)
  | binary res op left right =>
    defines res ++ op.text ++ " " ++ left.text ++ ", " ++ right.operandText
  | compare res predicate left right =>
    defines res ++ (if predicate.isFloat then "fcmp " else "icmp ") ++ predicate.text ++ " " ++
      left.text ++ ", " ++ right.operandText
  | cast res op val tgt =>
    defines res ++ op.text ++ " " ++ val.text ++ " to " ++ tgt.text
  | call res callee ty args =>
    (match res with
      | some reg => defines reg
      | none => "") ++
    "call " ++ convention ty ++ (if ty.variadic then ty.text else ty.result.text) ++ " " ++
      callee.operandText ++ "(" ++ commas (args.map Value.text) ++ ")"
  | extractValue res _ aggregate idx =>
    defines res ++ "extractvalue " ++ aggregate.text ++ ", " ++ toString idx
  | insertValue res aggregate val idx =>
    defines res ++ "insertvalue " ++ aggregate.text ++ ", " ++ val.text ++ ", " ++ toString idx

def Function.labelText (fn : Function) (idx : Nat) : String :=
  match fn.block? idx with
  | some block => block.label
  | none => "invalid"

/-- A block that does not end is written as unreachable. -/
def Function.terminatorText (fn : Function) : Option Terminator → String
  | some (.branch tgt) => "br label %" ++ fn.labelText tgt
  | some (.condBranch cond ifTrue ifFalse) =>
    "br " ++ cond.text ++ ", label %" ++ fn.labelText ifTrue ++ ", label %" ++
      fn.labelText ifFalse
  | some (.ret (some val)) => "ret " ++ val.text
  | some (.ret none) => "ret void"
  | none => "unreachable"

def Function.blockText (fn : Function) (block : Block) : String :=
  block.label ++ ":\n" ++
    String.join (block.instructions.map fun instr => "  " ++ instr.text ++ "\n") ++
    "  " ++ fn.terminatorText block.terminator ++ "\n"

def Function.text (fn : Function) : String :=
  let ty := fn.type
  let params := if fn.isDeclaration then ty.params.map IrType.text
    else ty.params.zipIdx.map fun (param, i) => param.text ++ " %a" ++ toString i
  let head := (if fn.isDeclaration then "declare " else "define ") ++
    (if fn.internal && ! fn.isDeclaration then "internal " else "") ++ convention ty ++
    ty.result.text ++ " @\"" ++ fn.symbol ++ "\"(" ++ withTail ty.variadic params ++ ")"
  if fn.isDeclaration then head ++ "\n"
  else head ++ " \x7b\n" ++ String.intercalate "\n" (fn.blocks.map fn.blockText) ++ "\x7d\n"

/-- Printable characters stand for themselves; other bytes are written in hexadecimal. -/
def escape (bytes : List UInt8) : String :=
  String.join <| bytes.map fun byte =>
    let n := byte.toNat
    if 32 ≤ n && n ≤ 126 && n != 34 && n != 92 then String.singleton (Char.ofNat n)
    else "\\" ++ Word.hex 2 n true

def structText (name : String) (struct : Struct) : String :=
  let fields := commas (struct.fields.map IrType.text)
  "%\"" ++ name ++ "\" = type " ++
    (if struct.packed then "<\x7b " ++ fields ++ " \x7d>" else "\x7b " ++ fields ++ " \x7d") ++ "\n"

def Global.text (global : Global) : String :=
  "@\"" ++ global.name ++ "\" = " ++
    (match global.initializer with
      | none => "external global " ++ global.type.text
      | some initializer =>
        (if global.hidden then "private unnamed_addr " else "") ++
        (if global.constant then "constant " else "global ") ++
        match initializer with
        | .zero => (Value.zero global.type).text
        | .bytes bytes => global.type.text ++ " c\"" ++ escape bytes ++ "\"") ++ "\n"

def Module.text (mod : Module) : String :=
  "; ModuleID = '" ++ mod.name ++ "'\nsource_filename = \"" ++
    escape mod.name.toUTF8.toList ++ "\"\n" ++
    (if mod.structs.isEmpty then "" else "\n") ++
    String.join (mod.structs.entries.map fun (name, struct) => structText name struct) ++
    (if mod.globals.isEmpty then "" else "\n") ++
    String.join (mod.globals.values.map Global.text) ++
    String.join (mod.functions.values.map fun fn => "\n" ++ fn.text)

end Ir
end TernLang
