import TernLang.Program
import TernLang.Syntax.Parser

/-! Reading the declarations of a file. Each declaration is added to the program once it is
complete; the first failure ends the reading and keeps what was added before. -/
namespace TernLang

/-- Words in front of a declaration. -/
structure Attributes where
  isPublic : Bool := false
  isPrivate : Bool := false
  isStatic : Bool := false
  isPacked : Bool := false
  isStdcall : Bool := false
  isExternal : Bool := false

namespace Attributes

/-- Take an attribute in; later words on visibility win. -/
def add (attributes : Attributes) : Keyword → Attributes
  | .visible => { attributes with isPublic := true }
  | .hidden => { attributes with isPublic := false, isPrivate := true }
  | .static => { attributes with isStatic := true }
  | .packed => { attributes with isPacked := true }
  | .stdcall => { attributes with isStdcall := true }
  | .external => { attributes with isExternal := true }
  | _ => attributes

end Attributes

namespace Parse

/-- The attribute at the cursor. `stdcall` is one only before a callable declaration,
because it also starts a function type. -/
def attribute? (cursor : Cursor) : Option Keyword :=
  match cursor.current.kind with
  | .keyword .stdcall => match cursor.peekAhead 1 with
    | .keyword .function | .keyword .foreign => some .stdcall
    | _ => none
  | .keyword keyword => if keyword.isAttribute then some keyword else none
  | _ => none

def readAttributes : (fuel : Nat) → Attributes → Parse Attributes
  | 0, _ => exhausted
  | fuel + 1, attributes => do
    match attribute? (← cursor) with
    | some keyword => do
      advance
      readAttributes fuel (attributes.add keyword)
    | none => return attributes

def attributes : Parse Attributes := do readAttributes (← budget) {}

/-- Items between parentheses, separated by commas; lines may end around them. `item` gets
the items before it. -/
def readList {α : Type} (item : List α → Parse α) : (fuel : Nat) → List α → Parse (List α)
  | 0, _ => exhausted
  | fuel + 1, before => do
    skipNewlines
    let found ← item before
    let items := before ++ [found]
    skipNewlines
    if ← accept .comma then readList item fuel items else return items

/-- A parenthesized list that may be empty. -/
def parenthesized {α : Type} (item : List α → Parse α) : Parse (List α) := do
  expect .leftParen
  skipNewlines
  let items ← if ← check .rightParen then pure [] else readList item (← budget) []
  expect .rightParen
  return items

/-- A parameter; only the last one may be variadic. The flag tells whether it is. -/
def parameter (function : String) (line : Nat) (implicit : List Field)
    (before : List (Field × Bool)) : Parse (Field × Bool) := do
  if before.any (·.2) then fail .variadicNotLast
  let name ← word
  if (implicit ++ before.map (·.1)).any (·.name == name) then
    failName line (.duplicateParameterOf name function)
  if ← accept .ellipsis then
    let elem ← typeName
    return (⟨name, .array elem⟩, true)
  else return (⟨name, ← typeName⟩, false)

/-- What a method takes first, which is not written. -/
def implicitParams (attributes : Attributes) : (owner : Option (String × Nat)) → List Field
  | some (cls, _) => if attributes.isStatic then [] else [⟨"this", .pointer (.named cls)⟩]
  | none => []

/-- `name(parameters) result { body }` after its keyword; `owner` is the class of a method
and the offset of that class. -/
def function (program : Program) (attributes : Attributes) (owner : Option (String × Nat)) :
    Parse Function := do
  let line ← line
  let name ← word
  let implicit := implicitParams attributes owner
  let params ← parenthesized (parameter name line implicit)
  let _ ← accept .arrow
  let result ← if ← check .leftBrace then pure TypeName.void else typeName
  let body ← block
  return {
    name
    params := implicit ++ params.map (·.1)
    result
    body
    isPublic := attributes.isPublic
    isStatic := attributes.isStatic
    isStdcall := attributes.isStdcall
    isVariadic := params.any (·.2)
    classOffset := (owner.map (·.2)).getD 0
    line
    origin := program.file }

/-- A name that nothing declares yet. -/
def requireNew (prog : Program) (name : String) (line : Nat) : Parse Unit := do
  if let some cat := prog.declared? name then failName line (.declared name cat)

/-- A callable clashes with every other kind of declaration, and with a callable of the same
name and parameters. -/
def requireNewCallable (program : Program) (name : String) (params : List TypeName) (line : Nat) :
    Parse Unit := do
  if let some category := program.valueNamed? name then failName line (.declared name category)
  if program.hasFunctionLike name params || program.hasExternalLike name params then
    failName line (.declaredSame name)

/-- Parameter types of a foreign function, up to the closing parenthesis. Names in front of
the types are skipped. -/
def readForeignParams : (fuel : Nat) → Parse (List TypeName × Bool)
  | 0 => exhausted
  | fuel + 1 => do
    skipNewlines
    if ← accept .ellipsis then
      skipNewlines
      return ([], true)
    let cursor ← cursor
    match cursor.current.kind, cursor.peekAhead 1 with
    | .word _, .comma | .word _, .rightParen | .word _, .newline => pure ()
    | .word _, _ => advance
    | _, _ => pure ()
    let ty ← typeName
    skipNewlines
    if ← accept .comma then
      let (types, variadic) ← readForeignParams fuel
      return (ty :: types, variadic)
    else return ([ty], false)

def foreign (program : Program) (attributes : Attributes) (line : Nat) : Parse Program := do
  let name ← word
  expect .leftParen
  skipNewlines
  let (params, variadic) ←
    if ← check .rightParen then pure ([], false) else readForeignParams (← budget)
  expect .rightParen
  let result ← match ← peek with
    | .newline | .eof => pure TypeName.void
    | _ => typeName
  lineEnd
  requireNewCallable program name params line
  let found : External := {
    name
    params
    result
    isPublic := attributes.isPublic
    isMangled := false
    isStdcall := attributes.isStdcall
    isVariadic := variadic
    line
    origin := program.file }
  return { program with externals := program.externals ++ [found] }

def member (owner : String) (line : Nat) (before : List Field) : Parse Field := do
  let name ← word
  if before.any (·.name == name) then failName line (.duplicateMember name owner)
  return ⟨name, ← typeName⟩

def structure_ (prog : Program) (attributes : Attributes) (line : Nat) : Parse Program := do
  let name ← word
  requireNew prog name line
  let members ← parenthesized (member name line)
  lineEnd
  let found : Structure := {
    name
    members
    isPublic := attributes.isPublic
    isPacked := attributes.isPacked
    line
    origin := prog.file }
  return { prog with structures := prog.structures ++ [found] }

/-- A method of the class, unlike those before it. -/
def method (prog : Program) (attributes : Attributes) (owner : String) (off : Nat)
    (before : List Function) : Parse Function := do
  let found ← function prog attributes (some (owner, off))
  if before.any fun m => m.name == found.name && m.paramTypes == found.paramTypes then
    failName found.line (.duplicateMethod found.name owner)
  return found

def classField (attributes : Attributes) (owner : String) (before : List ClassField) :
    Parse ClassField := do
  let line ← line
  let name ← word
  if before.any (·.name == name) then failName line (.duplicateField name owner)
  let ty ← typeName
  lineEnd
  return ⟨name, ty, attributes.isPublic, attributes.isStatic⟩

/-- Fields and methods up to the closing brace. Members are public unless marked private. -/
def readClassBody (prog : Program) (owner : String) (off : Nat) :
    (fuel : Nat) → List ClassField → List Function → Parse (List ClassField × List Function)
  | 0, _, _ => exhausted
  | fuel + 1, fields, methods => do
    skipNewlines
    if ← accept .rightBrace then return (fields, methods)
    if ← check .eof then unexpected (.token .rightBrace)
    let written ← attributes
    let attributes := { written with isPublic := written.isPublic || ! written.isPrivate }
    if ← accept (.keyword .function) then
      let found ← method prog attributes owner off methods
      readClassBody prog owner off fuel fields (methods ++ [found])
    else
      let found ← classField attributes owner fields
      readClassBody prog owner off fuel (fields ++ [found]) methods

def objectClass (prog : Program) (attributes : Attributes) (line : Nat) : Parse Program := do
  let name ← word
  requireNew prog name line
  expect .leftBrace
  let (members, methods) ←
    readClassBody prog name (prog.classes.length + 1) (← budget) [] []
  lineEnd
  let found : Class := {
    name
    members
    methods
    isPublic := attributes.isPublic
    line
    origin := prog.file }
  return { prog with classes := prog.classes ++ [found] }

def typeAlias (prog : Program) (attributes : Attributes) (line : Nat) : Parse Program := do
  let name ← word
  requireNew prog name line
  expect (.operator .assign)
  let binding ← typeName
  lineEnd
  let found : Alias := { name, binding, isPublic := attributes.isPublic, line, origin := prog.file }
  return { prog with aliases := prog.aliases ++ [found] }

def enumValue : Parse Nat := do
  match ← peek with
  | .integer _ magnitude => do
    advance
    return magnitude
  | _ => unexpected .enumValue

def enumField (owner : String) (line : Nat) (before : List EnumField) : Parse EnumField := do
  let name ← word
  if before.any (·.name == name) then failName line (.duplicateEnumMember name owner)
  if ← accept (.operator .assign) then return ⟨name, some (← enumValue)⟩ else return ⟨name, none⟩

def enumeration (prog : Program) (attributes : Attributes) (line : Nat) : Parse Program := do
  let name ← word
  requireNew prog name line
  let fields ← parenthesized (enumField name line)
  lineEnd
  let found : Enumeration := { name, fields, isPublic := attributes.isPublic, line, origin := prog.file }
  return { prog with enums := prog.enums ++ [found] }

def constant (prog : Program) (attributes : Attributes) (line : Nat) : Parse Program := do
  let name ← word
  requireNew prog name line
  expect (.operator .assign)
  let val ← expression
  lineEnd
  let found : Constant := { name, value := val, isPublic := attributes.isPublic, line, origin := prog.file }
  return { prog with constants := prog.constants ++ [found] }

def global (program : Program) (attributes : Attributes) (line : Nat) : Parse Program := do
  let name ← word
  requireNew program name line
  let type ← typeName
  lineEnd
  let found : Global := {
    name
    type
    isPublic := attributes.isPublic
    isExternal := attributes.isExternal
    line
    origin := program.file }
  return { program with globals := program.globals ++ [found] }

def importRequest (prog : Program) (attributes : Attributes) (line : Nat) : Parse Program := do
  let name ← match ← peek with
    | .string _ => string
    | _ => word
  lineEnd
  let found : ImportRequest := { name, isPublic := attributes.isPublic, line }
  return { prog with importRequests := prog.importRequests ++ [found] }

/-- One declaration, after its attributes. -/
def declaration (prog : Program) (attributes : Attributes) : Parse Program := do
  let line ← line
  match ← peek with
  | .keyword .function => do
    advance
    let found ← function prog attributes none
    requireNewCallable prog found.name found.paramTypes found.line
    return { prog with functions := prog.functions ++ [found] }
  | .keyword .foreign => do
    advance
    foreign prog attributes line
  | .keyword .struct => do
    advance
    structure_ prog attributes line
  | .keyword .objectClass => do
    advance
    objectClass prog attributes line
  | .keyword .typeAlias => do
    advance
    typeAlias prog attributes line
  | .keyword .enumeration => do
    advance
    enumeration prog attributes line
  | .keyword .constant => do
    advance
    constant prog attributes line
  | .keyword .global => do
    advance
    global prog attributes line
  | .keyword .importing => do
    advance
    importRequest prog attributes line
  | .keyword .link => do
    advance
    let library ← string
    lineEnd
    return if prog.linkLibraries.contains library then prog
      else { prog with linkLibraries := prog.linkLibraries ++ [library] }
  | .keyword .dynamic => do
    advance
    let library ← string
    lineEnd
    return { prog with dynamicLibraries := prog.dynamicLibraries ++ [library] }
  | _ => unexpected .declaration

end Parse

namespace Program

/-- Take declarations in until the text ends or one fails. -/
def extend : (fuel : Nat) → Reading → Program → Program × Option Error
  | 0, reading, prog =>
    ({ prog with nodes := reading.nodes }, some (.parse reading.cursor.location .exhausted))
  | fuel + 1, reading, prog =>
    let cursor := reading.cursor.skipNewlines
    if cursor.current.kind = .eof then ({ prog with nodes := reading.nodes }, none)
    else
      let step : Parse Program := do Parse.declaration prog (← Parse.attributes)
      match step.run { reading with cursor } with
      | .ok (extended, reading) => extend fuel reading extended
      | .error e => ({ prog with nodes := reading.nodes }, some e)

/-- Add the declarations of a token list; a failure keeps those before it. -/
def addTokens (prog : Program) (tokens : List Token) : Program × Option Error :=
  extend (tokens.length + 1) { cursor := .start prog.file tokens, nodes := prog.nodes } prog

/-- The program a source text declares. -/
def parse (file : Path) (src : String) : Except Error Program := do
  let tokens ← Token.tokenize file src
  match Program.addTokens { file } tokens with
  | (prog, none) => return prog
  | (_, some e) => throw e

end Program
end TernLang
