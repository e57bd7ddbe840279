import TernLang.Program

/-! Alias resolution: every alias name in a type is replaced by its binding until none is left. The
name behind the leading stars of a type is followed from alias to alias. Slice elements and the
types in a signature are then resolved by calls of their own, each of which starts anew. -/
namespace TernLang

namespace TypeName

/-- The number of leading stars, and the type behind them. -/
def unstar : TypeName → Nat × TypeName
  | pointer target => let (stars, rest) := target.unstar; (stars + 1, rest)
  | type => (0, type)

/-- The type behind so many more stars. -/
def starred (type : TypeName) : (stars : Nat) → TypeName
  | 0 => type
  | stars + 1 => (pointer type).starred stars

mutual

/-- How deep slices and signatures are nested. -/
def nesting : TypeName → Nat
  | named _ => 0
  | pointer tgt => tgt.nesting
  | array elem => elem.nesting + 1
  | function params res _ _ => max (nestingList params) res.nesting + 1

def nestingList : List TypeName → Nat
  | [] => 0
  | ty :: types => max ty.nesting (nestingList types)

end

/-- A type without leading stars and aliases, with the types in it resolved from left to right. -/
def resolveParts (resolve : TypeName → Except Error TypeName) : TypeName → Except Error TypeName
  | named name => return named name
  | pointer target => throw (.alias (.starLeft (pointer target)))
  | array element => do return array (← resolve element)
  | function params result stdcall variadic => do
    let params ← params.mapM resolve
    return function params (← resolve result) stdcall variadic

end TypeName

namespace Program

section
variable (prog : Program) (loc : Location)

/-- Take off the leading stars and replace an alias behind them by its binding, until there is none.
`stars` were taken off before, and `visited` are the aliases that were replaced. None is replaced
twice, so the table bounds how often this goes on. -/
def followAliases (fuel stars : Nat) (visited : List String) (ty : TypeName) :
    Except Error (Nat × TypeName) :=
  let (depth, rest) := ty.unstar
  match rest.bareName?.bind prog.alias? with
  | none => return (stars + depth, rest)
  | some found =>
    if visited.contains found.name then throw (.recursiveAlias loc found.name)
    else match fuel with
      | 0 => throw (.recursiveAlias loc found.name)
      | fuel + 1 => followAliases fuel (stars + depth) (found.name :: visited) found.binding

/-- Resolve a type by calls that nest no deeper than `depth`. -/
def resolveWithin : (depth : Nat) → TypeName → Except Error TypeName
  | 0, _ => throw (.alias .endless)
  | depth + 1, ty => do
    let (stars, rest) ← prog.followAliases loc prog.aliases.length 0 [] ty
    return (← rest.resolveParts (resolveWithin depth)).starred stars

/-- Calls that nest deeper come to the same alias again, and would never end. -/
def resolveDepth (ty : TypeName) : Nat :=
  ty.nesting + prog.aliases.length * TypeName.nestingList (prog.aliases.map (·.binding)) + 1

/-- The type with every alias in it replaced. -/
def resolve (ty : TypeName) : Except Error TypeName :=
  prog.resolveWithin loc (prog.resolveDepth ty) ty

end

end Program
end TernLang
