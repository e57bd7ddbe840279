/-! Reading bytes as UTF-8 text. Bytes that belong to no character give one replacement
character for each longest run that begins a character. -/
namespace TernLang.Text

/-- A character whose first bytes were read. -/
structure Pending where
  /-- Bits read so far. -/
  code : Nat
  /-- Bytes still to come. -/
  missing : Nat
  /-- The next byte lies between these. -/
  low : Nat := 0x80
  high : Nat := 0xBF

def replacement : Char := '�'

/-- A byte at which a character may begin: characters that are complete, and one that is not. -/
def begin (byte : Nat) : List Char × Option Pending :=
  if byte < 0x80 then ([Char.ofNat byte], none)
  else if byte < 0xC2 then ([replacement], none)
  else if byte < 0xE0 then ([], some { code := byte % 0x20, missing := 1 })
  else if byte = 0xE0 then ([], some { code := 0, missing := 2, low := 0xA0 })
  else if byte = 0xED then ([], some { code := 0xD, missing := 2, high := 0x9F })
  else if byte < 0xF0 then ([], some { code := byte % 0x10, missing := 2 })
  else if byte = 0xF0 then ([], some { code := 0, missing := 3, low := 0x90 })
  else if byte < 0xF4 then ([], some { code := byte % 8, missing := 3 })
  else if byte = 0xF4 then ([], some { code := 4, missing := 3, high := 0x8F })
  else ([replacement], none)

/-- One byte more. -/
def advance (pending : Option Pending) (byte : Nat) : List Char × Option Pending :=
  match pending with
  | none => begin byte
  | some p =>
    if p.low ≤ byte ∧ byte ≤ p.high then
      let code := p.code * 0x40 + byte % 0x40
      if p.missing ≤ 1 then ([Char.ofNat code], none)
      else ([], some { code, missing := p.missing - 1 })
    else
      let (done, next) := begin byte
      (replacement :: done, next)

def decodeFrom : (pending : Option Pending) → List UInt8 → List Char
  | none, [] => []
  | some _, [] => [replacement]
  | pending, byte :: rest =>
    let (done, next) := advance pending byte.toNat
    done ++ decodeFrom next rest

def decode (bytes : List UInt8) : String := String.ofList (decodeFrom none bytes)

end TernLang.Text
