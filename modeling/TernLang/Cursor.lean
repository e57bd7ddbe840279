import TernLang.Error

/-! Reading a token list from the front. The cursor stays on the last token, and a parse
numbers the expression nodes it makes. -/
namespace TernLang

structure Cursor where
  file : Path
  current : Token
  rest : List Token

namespace Cursor

def start (file : Path) : List Token → Cursor
  | [] => ⟨file, ⟨.eof, ⟨0, 0⟩⟩, []⟩
  | first :: rest => ⟨file, first, rest⟩

/-- Move to the next token; the end mark is never passed. -/
def advance (cursor : Cursor) : Cursor :=
  if cursor.current.kind = .eof then cursor
  else match cursor.rest with
    | [] => cursor
    | next :: rest => ⟨cursor.file, next, rest⟩

/-- The kind of the token `offset` places ahead. -/
def peekAhead (cursor : Cursor) : Nat → Token.Kind
  | 0 => cursor.current.kind
  | offset + 1 => match cursor.rest[offset]? with
    | some token => token.kind
    | none => .eof

def pastNewlines (file : Path) : Token → List Token → Cursor
  | current, [] => ⟨file, current, []⟩
  | current, next :: rest =>
    if current.kind = .newline then pastNewlines file next rest else ⟨file, current, next :: rest⟩

/-- Move to the first token that is no line feed. -/
def skipNewlines (cursor : Cursor) : Cursor := pastNewlines cursor.file cursor.current cursor.rest

def line (cursor : Cursor) : Nat := cursor.current.position.line

def location (cursor : Cursor) : Location := ⟨cursor.file, cursor.line⟩

/-- Whether a slice mark stands `offset` places ahead. -/
def sliceAhead (cursor : Cursor) (off : Nat) : Bool :=
  cursor.peekAhead off = .leftBracket && cursor.peekAhead (off + 1) = .rightBracket

/-- More nested calls than a parse of the remaining tokens can make. -/
def budget (cursor : Cursor) : Nat := 8 * (cursor.rest.length + 1)

end Cursor

/-- State of a parse: where it is and how many expression nodes it has made. -/
structure Reading where
  cursor : Cursor
  nodes : Nat := 0

abbrev Parse := StateT Reading (Except Error)

namespace Parse

def cursor : Parse Cursor := do return (← get).cursor

def peek : Parse Token.Kind := do return (← cursor).current.kind

def line : Parse Nat := do return (← cursor).line

def budget : Parse Nat := do return (← cursor).budget

def advance : Parse Unit := modify fun s => { s with cursor := s.cursor.advance }

def skipNewlines : Parse Unit := modify fun s => { s with cursor := s.cursor.skipNewlines }

def fail {α : Type} (cause : ParseError) : Parse α := do throw (.parse (← cursor).location cause)

def unexpected {α : Type} (wanted : Wanted) : Parse α := do fail (.expected wanted (← peek))

/-- A reader was called more often than there are tokens. -/
def exhausted {α : Type} : Parse α := fail .exhausted

def failLex {α : Type} (cause : LexError) : Parse α := do throw (.lex (← cursor).location cause)

def failName {α : Type} (line : Nat) (cause : NameError) : Parse α := do
  throw (.name ⟨(← cursor).file, line⟩ cause)

def check (kind : Token.Kind) : Parse Bool := do return (← peek) = kind

/-- Consume the token if it is of this kind. -/
def accept (kind : Token.Kind) : Parse Bool := do
  if ← check kind then
    advance
    return true
  else return false

def expect (kind : Token.Kind) : Parse Unit := do
  if ! (← accept kind) then unexpected (.token kind)

def expectKeyword (keyword : Keyword) : Parse Unit := do
  if ! (← accept (.keyword keyword)) then unexpected (.keyword keyword)

def word : Parse String := do
  match ← peek with
  | .word text => do
    advance
    return text
  | _ => unexpected .identifier

def string : Parse String := do
  match ← peek with
  | .string text => do
    advance
    return text
  | _ => unexpected .string

/-- The end of a line; a closing brace or the end of the text also ends it. -/
def lineEnd : Parse Unit := do
  match ← peek with
  | .newline => advance
  | .rightBrace | .eof => return ()
  | _ => unexpected .endOfLine

end Parse
end TernLang
