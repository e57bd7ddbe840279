import TernLang.Cursor
import TernLang.Token.Lexer

/-! Reading type names: marks, then a name or a function signature. -/
namespace TernLang.Parse

mutual

def readType : (fuel : Nat) → Parse TypeName
  | 0 => exhausted
  | fuel + 1 => do
    if ← accept (.operator .star) then
      return .pointer (← readType fuel)
    else if (← cursor).sliceAhead 0 then
      advance
      advance
      return .array (← readType fuel)
    else match ← peek with
      | .word name => do
        advance
        return .named name
      | .keyword .stdcall => do
        advance
        expectKeyword .function
        readSignature fuel true
      | .keyword .function => do
        advance
        readSignature fuel false
      | _ => unexpected .type

def readSignature : (fuel : Nat) → (stdcall : Bool) → Parse TypeName
  | 0, _ => exhausted
  | fuel + 1, stdcall => do
    expect .leftParen
    let (params, variadic) ← if ← check .rightParen then pure ([], false) else readParams fuel
    expect .rightParen
    let res ← readType fuel
    return .function params res stdcall variadic

def readParams : (fuel : Nat) → Parse (List TypeName × Bool)
  | 0 => exhausted
  | fuel + 1 => do
    if ← accept .ellipsis then return ([], true)
    let param ← readType fuel
    if ← accept .comma then
      let (params, variadic) ← readParams fuel
      return (param :: params, variadic)
    else return ([param], false)

end

/-- Read one type name. -/
def typeName : Parse TypeName := do readType (← budget)

end TernLang.Parse

namespace TernLang.TypeName

/-- The file that diagnostics of a lone type name give. -/
def loneFile : Path := ⟨"<type>"⟩

/-- A text that is one type name. -/
def parse (text : String) : Except Error TypeName := do
  let tokens ← Token.tokenize loneFile text
  let (ty, reading) ← Parse.typeName.run { cursor := .start loneFile tokens }
  if reading.cursor.current.kind = .eof then return ty
  else throw (.parse reading.cursor.location (.expected .endOfType reading.cursor.current.kind))

end TernLang.TypeName
