import TernLang.Proofs.Success

/-! The names in a type, and putting other types in their place. -/
namespace TernLang.TypeName

open List

@[elab_as_elim] theorem induct {motive : TypeName → Prop} (named : ∀ name, motive (.named name))
    (pointer : ∀ tgt, motive tgt → motive (.pointer tgt))
    (array : ∀ elem, motive elem → motive (.array elem))
    (function : ∀ params res stdcall variadic, (∀ param ∈ params, motive param) → motive res →
      motive (.function params res stdcall variadic)) (ty : TypeName) : motive ty :=
  @TypeName.rec motive (fun types => ∀ ty ∈ types, motive ty) named pointer array
    (fun params res stdcall variadic => function params res stdcall variadic) (forall_mem_nil _)
    (fun _ _ first rest => forall_mem_cons.mpr ⟨first, rest⟩) ty

mutual

def names : TypeName → List String
  | named name => [name]
  | pointer tgt => tgt.names
  | array elem => elem.names
  | function params res _ _ => namesList params ++ res.names

def namesList : List TypeName → List String
  | [] => []
  | ty :: types => ty.names ++ namesList types

end

theorem mem_namesList {types : List TypeName} :
    name ∈ namesList types ↔ ∃ ty ∈ types, name ∈ ty.names := by
  induction types with
  | nil => simp [namesList]
  | cons ty types ih => simp [namesList, ih]

mutual

/-- The type with every name replaced at once. -/
def mapNames (put : String → TypeName) : TypeName → TypeName
  | named name => put name
  | pointer tgt => pointer (tgt.mapNames put)
  | array elem => array (elem.mapNames put)
  | function params res stdcall variadic => function (mapNamesList put params) (res.mapNames put) stdcall variadic

def mapNamesList (put : String → TypeName) : List TypeName → List TypeName
  | [] => []
  | ty :: types => ty.mapNames put :: mapNamesList put types

end

theorem mapNamesList_eq (put : String → TypeName) (types : List TypeName) :
    mapNamesList put types = types.map (mapNames put) := by
  induction types with
  | nil => rfl
  | cons ty types ih => rw [mapNamesList, ih, map_cons]

variable {put put' : String → TypeName} {ty : TypeName} {name : String}

theorem mapNames_congr (same : ∀ name ∈ ty.names, put name = put' name) :
    ty.mapNames put = ty.mapNames put' := by
  induction ty using induct with
  | named name => exact same name mem_cons_self
  | pointer tgt ih => rw [mapNames, mapNames, ih same]
  | array elem ih => rw [mapNames, mapNames, ih same]
  | function params res stdcall variadic each ih =>
    simp only [names, mem_append, mem_namesList] at same
    rw [mapNames, mapNames, mapNamesList_eq, mapNamesList_eq, ih fun name mem => same name (.inr mem)]
    rw [map_congr_left fun param mem => each param mem fun name inside => same name (.inl ⟨param, mem, inside⟩)]

theorem mapNames_named (ty : TypeName) : ty.mapNames .named = ty := by
  induction ty using induct with
  | named name => rfl
  | pointer tgt ih => rw [mapNames, ih]
  | array elem ih => rw [mapNames, ih]
  | function params res stdcall variadic each ih =>
    rw [mapNames, mapNamesList_eq, ih, map_congr_left each, map_id']

theorem mapNames_mapNames (ty : TypeName) :
    (ty.mapNames put).mapNames put' = ty.mapNames fun name => (put name).mapNames put' := by
  induction ty using induct with
  | named name => rfl
  | pointer tgt ih => rw [mapNames, mapNames, mapNames, ih]
  | array elem ih => rw [mapNames, mapNames, mapNames, ih]
  | function params res stdcall variadic each ih =>
    simp only [mapNames, mapNamesList_eq, ih, map_map]
    exact congrArg (function · _ stdcall variadic) (map_congr_left each)

theorem mem_names_mapNames :
    name ∈ (ty.mapNames put).names ↔ ∃ inner ∈ ty.names, name ∈ (put inner).names := by
  induction ty using induct with
  | named inner => simp [mapNames, names]
  | pointer tgt ih => exact ih
  | array elem ih => exact ih
  | function params res stdcall variadic each ih =>
    simp only [mapNames, mapNamesList_eq, names, mem_append, mem_namesList, mem_map, ih]
    grind

end TernLang.TypeName
