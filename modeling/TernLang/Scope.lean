import TernLang.Ir
import TernLang.TypeName

/-! Local variables in nested scopes. An inner variable hides an outer one of its name. -/
namespace TernLang

/-- A stack slot and the declared type of what it holds. -/
structure Variable where
  slot : Ir.Value
  type : TypeName

/-- The innermost scope and those around it. -/
structure Scope where
  locals : Table String Variable := .empty
  outer : List (Table String Variable) := []

namespace Scope

/-- Enter a nested scope. -/
def child (scope : Scope) : Scope := ⟨.empty, scope.locals :: scope.outer⟩

/-- Leave the scope; around the outermost one lies an empty one. -/
def parent (scope : Scope) : Scope :=
  match scope.outer with
  | [] => {}
  | locals :: outer => ⟨locals, outer⟩

/-- Whether the innermost scope has the name. -/
def hasHere (scope : Scope) (name : String) : Bool := scope.locals.contains name

/-- Define a variable; a name that is taken here is refused. -/
def define? (scope : Scope) (name : String) (var : Variable) : Option Scope :=
  if scope.hasHere name then none
  else some { scope with locals := scope.locals.insert name var }

/-- The variable a name means, innermost scope first. -/
def lookup? (scope : Scope) (name : String) : Option Variable :=
  (scope.locals :: scope.outer).findSome? (·.get? name)

end Scope
end TernLang
