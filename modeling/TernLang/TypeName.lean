/-! Names of types as they are written: a base name or a function signature behind
pointer and slice marks. -/
namespace TernLang

inductive TypeName where
  | named (name : String)
  | pointer (tgt : TypeName)
  | array (elem : TypeName)
  | function (params : List TypeName) (res : TypeName) (stdcall variadic : Bool)
deriving Inhabited

namespace TypeName

mutual

def decEq : (left right : TypeName) → Decidable (left = right)
  | named a, named b => if h : a = b then isTrue (h ▸ rfl) else isFalse (by simp [h])
  | pointer a, pointer b => match decEq a b with
    | isTrue h => isTrue (h ▸ rfl)
    | isFalse h => isFalse (by simp [h])
  | array a, array b => match decEq a b with
    | isTrue h => isTrue (h ▸ rfl)
    | isFalse h => isFalse (by simp [h])
  | function ps r s v, function ps' r' s' v' => match decEqList ps ps', decEq r r' with
    | isTrue hp, isTrue hr =>
      if h : s = s' ∧ v = v' then isTrue (by simp [hp, hr, h]) else isFalse (by simp_all)
    | isFalse h, _ => isFalse (by simp [h])
    | _, isFalse h => isFalse (by simp [h])
  | named _, pointer _ | named _, array _ | named _, function .. => isFalse (by simp)
  | pointer _, named _ | pointer _, array _ | pointer _, function .. => isFalse (by simp)
  | array _, named _ | array _, pointer _ | array _, function .. => isFalse (by simp)
  | function .., named _ | function .., pointer _ | function .., array _ => isFalse (by simp)

def decEqList : (left right : List TypeName) → Decidable (left = right)
  | [], [] => isTrue rfl
  | a :: as, b :: bs => match decEq a b, decEqList as bs with
    | isTrue h, isTrue hs => isTrue (by simp [h, hs])
    | isFalse h, _ => isFalse (by simp [h])
    | _, isFalse h => isFalse (by simp [h])
  | [], _ :: _ => isFalse (by simp)
  | _ :: _, [] => isFalse (by simp)

end

instance : DecidableEq TypeName := decEq

def isPointer : TypeName → Bool
  | pointer _ => true
  | _ => false

def isArray : TypeName → Bool
  | array _ => true
  | _ => false

def isFunction : TypeName → Bool
  | function .. => true
  | _ => false

/-- The name of a type without marks. -/
def bareName? : TypeName → Option String
  | named name => some name
  | _ => none

def target? : TypeName → Option TypeName
  | pointer tgt => some tgt
  | _ => none

def element? : TypeName → Option TypeName
  | array elem => some elem
  | _ => none

mutual

/-- How the type is written. -/
def text : TypeName → String
  | named name => name
  | pointer tgt => "*" ++ tgt.text
  | array elem => "[]" ++ elem.text
  | function params res stdcall variadic =>
    (if stdcall then "stdcall " else "") ++ "def(" ++ textList params ++
      (if variadic then (if params.isEmpty then "..." else ", ...") else "") ++ ") " ++ res.text

/-- Types separated by commas. -/
def textList : List TypeName → String
  | [] => ""
  | [ty] => ty.text
  | ty :: types => ty.text ++ ", " ++ textList types

end

def void : TypeName := named "void"

/-- The marks in front of a type's base. -/
inductive Modifier where
  | pointer
  | array
deriving DecidableEq

def Modifier.text : Modifier → String
  | .pointer => "*"
  | .array => "[]"

/-- Marks from the outermost in, and the base behind them. -/
def unwrap : TypeName → List Modifier × TypeName
  | pointer tgt => let (modifiers, base) := tgt.unwrap; (.pointer :: modifiers, base)
  | array elem => let (modifiers, base) := elem.unwrap; (.array :: modifiers, base)
  | base => ([], base)

/-- Leading stars of a written type and what follows them. -/
def splitStars (text : String) : Nat × String :=
  let cs := text.toList
  ((cs.takeWhile (· == '*')).length, String.ofList (cs.dropWhile (· == '*')))

end TypeName
end TernLang
