import TernLang.Text.Segments

/-! File paths. A path keeps the text it was written with; two paths name the same
place when their components agree. -/
namespace TernLang

structure Path where
  text : String
deriving DecidableEq, Inhabited

namespace Path

inductive Component where
  | root
  | current
  | parent
  | name (text : String)
deriving DecidableEq

/-- The text before the named components, `/` or a leading `.`, and what follows it. -/
def split (path : Path) : List Char × List Char :=
  match path.text.toList with
  | '/' :: body => (['/'], body)
  | ['.'] => (['.'], [])
  | '.' :: '/' :: body => (['.'], '/' :: body)
  | body => ([], body)

/-- Empty pieces and later `.` pieces name nothing. -/
def silent (piece : List Char) : Bool := piece.isEmpty || piece == ['.']

def Component.ofPiece (piece : List Char) : Component :=
  if piece == ['.', '.'] then .parent else .name (String.ofList piece)

def components (path : Path) : List Component :=
  let (start, body) := path.split
  let front : List Component := match start with
    | ['/'] => [.root]
    | ['.'] => [.current]
    | _ => []
  front ++ ((Text.segments '/' body).filter (! silent ·)).map Component.ofPiece

/-- Equality of places: repeated and trailing slashes and inner `.` do not matter. -/
def same (left right : Path) : Bool := left.components == right.components

def isAbsolute (path : Path) : Bool := path.text.toList.head? == some '/'

/-- Pieces up to the last one that names something. -/
def pieces (path : Path) : List (List Char) :=
  Text.trimRight silent (Text.segments '/' path.split.2)

/-- The path without its last component; the root and the empty path have none. -/
def parent? (path : Path) : Option Path :=
  match path.pieces.reverse with
  | [] => if path.split.1 == ['.'] then some ⟨""⟩ else none
  | _ :: earlier =>
    let kept := Text.trimRight silent earlier.reverse
    some ⟨String.ofList (path.split.1 ++ Text.unsegment '/' kept)⟩

/-- The last component, if it is a plain name. -/
def fileName? (path : Path) : Option (List Char) :=
  match path.pieces.getLast? with
  | none => none
  | some piece => if piece == ['.', '.'] then none else some piece

/-- A file name cut at its last dot, unless that dot comes first. -/
def cutAtDot (name : List Char) : List Char × Option (List Char) :=
  match (Text.segments '.' name).reverse with
  | last :: earlier =>
    let stem := Text.unsegment '.' earlier.reverse
    if earlier.isEmpty || stem.isEmpty then (name, none) else (stem, some last)
  | [] => (name, none)

def extension? (path : Path) : Option String :=
  path.fileName?.bind fun name => (cutAtDot name).2.map String.ofList

/-- Replace what follows the stem; a path without a file name is left alone. -/
def withExtension (path : Path) (extension : String) : Path :=
  match path.fileName? with
  | none => path
  | some name =>
    let stem := (cutAtDot name).1
    let kept := path.pieces.dropLast ++ [stem]
    let suffix := if extension.isEmpty then "" else "." ++ extension
    ⟨String.ofList (path.split.1 ++ Text.unsegment '/' kept) ++ suffix⟩

/-- Append a relative path; an absolute one replaces. -/
def join (path : Path) (other : String) : Path :=
  if (Path.mk other).isAbsolute then ⟨other⟩
  else if path.text.isEmpty || path.text.toList.getLast? == some '/' then ⟨path.text ++ other⟩
  else ⟨path.text ++ "/" ++ other⟩

end Path
end TernLang
