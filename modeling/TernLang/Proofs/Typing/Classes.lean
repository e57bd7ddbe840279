import TernLang.Proofs.Typing.Joining

/-! Classes of types. Whether a type resolves and what class it has does not depend on the place it
is asked for; a type that is resolved stays as it is; and types that join have one class. -/
namespace TernLang

open Success

/-- Integers have a width of one to eight bytes, and floats one of the three float types. -/
def TypeClass.Usual : TypeClass → Prop
  | integer bits _ => bits = 8 ∨ bits = 16 ∨ bits = 32 ∨ bits = 64
  | float ty => ty.isFloat
  | void | bool | pointer | slice | aggregate _ => True

theorem TypeClass.irType_eq_void {found : TypeClass} (usual : found.Usual) :
    found.irType = .void ↔ found = .void := by
  cases found with
  | float ty => cases ty <;> simp_all [irType, Usual, IrType.isFloat]
  | _ => simp [irType, IrType.bool]

/-- The lowered type of what a condition tests. -/
def Condition.irType : Condition → IrType
  | bool => .bool
  | notZero kind => .int kind.bits

theorem Enumeration.bits_cases (enum_ : Enumeration) :
    enum_.bits = 8 ∨ enum_.bits = 16 ∨ enum_.bits = 32 ∨ enum_.bits = 64 := by
  unfold bits
  grind

variable (primitive : Primitive)

namespace Primitive

theorem mem_all : primitive ∈ all := by
  cases primitive with
  | integer kind => cases kind <;> decide
  | _ => decide

@[simp] theorem ofName?_name : ofName? primitive.name = some primitive := by
  have each : ∀ primitive ∈ all, ofName? primitive.name = some primitive := by decide
  exact each primitive primitive.mem_all

theorem name_of_ofName? {name : String} {primitive : Primitive} (known : ofName? name = some primitive) :
    primitive.name = name := by simpa using List.find?_some known

end Primitive

namespace Program
variable {prog : Program} {name : String} {loc here there : Location} {ty shown resolved : TypeName}
  {found : TypeClass} {lowered : IrType}

/-- The class of a type whose slices have elements with a class. -/
inductive Denotes (prog : Program) : TypeName → TypeClass → Prop where
  | pointer (target : TypeName) : Denotes prog (.pointer target) .pointer
  | function (params : List TypeName) (res : TypeName) (stdcall variadic : Bool) :
    Denotes prog (.function params res stdcall variadic) .pointer
  | array {element : TypeName} {inner : TypeClass} : Denotes prog element inner →
    Denotes prog (.array element) .slice
  | bound {name : String} {entry : Alias} {found : TypeClass} :
    prog.alias? name = some entry → Denotes prog entry.binding found →
      Denotes prog (.named name) found
  | bare {name : String} {found : TypeClass} :
    prog.alias? name = none → prog.classifyName? name = some found →
      Denotes prog (.named name) found

/-- A type denotes what it does once some of its aliases are replaced. -/
theorem denotes_of_unfold : ∀ (ty : TypeName) {found : TypeClass}, prog.Denotes (prog.unfold ty) found →
    prog.Denotes ty found
  | .pointer target, _, .pointer _ => .pointer target
  | .function params res stdcall variadic, _, .function .. => .function params res stdcall variadic
  | .array element, _, .array inner => .array (denotes_of_unfold element inner)
  | .named name, _, denotes => by
    cases known : prog.alias? name with
    | none => rwa [(unaliased_named known).unfold] at denotes
    | some entry => exact .bound known (unfold_named known ▸ denotes)

theorem denotes_of_unaliased : ∀ (resolved : TypeName) {shown : TypeName} {found : TypeClass},
  prog.Unaliased resolved →
    prog.classifyResolved loc shown resolved = .ok found → prog.Denotes resolved found
  | .pointer target, _, _, _, rfl => .pointer target
  | .function params res stdcall variadic, _, _, _, rfl => .function params res stdcall variadic
  | .array element, _, _, plain, classifies => by
    simp only [classifyResolved, bind_ok, pure_ok] at classifies
    obtain ⟨_, classifies, rfl⟩ := classifies
    exact .array (denotes_of_unaliased element plain classifies)
  | .named name, _, _, plain, classifies => by
    simp only [classifyResolved] at classifies
    split at classifies
    · next known =>
      cases classifies
      exact .bare (plain name List.mem_cons_self) known
    · contradiction

theorem denotes_of_iterate (rounds : Nat) (denotes : prog.Denotes (prog.unfold^[rounds] ty) found) :
    prog.Denotes ty found := by
  induction rounds generalizing ty with
  | zero => exact denotes
  | succ rounds ih => exact denotes_of_unfold ty (ih denotes)

theorem classify_denotes (classifies : prog.classify loc ty = .ok found) :
    prog.Denotes ty found := by
  simp only [classify, bind_ok] at classifies
  obtain ⟨resolved, resolves, classifies⟩ := classifies
  obtain ⟨rounds, rfl, plain⟩ := resolve_iff.mp resolves
  exact denotes_of_iterate rounds (denotes_of_unaliased _ plain classifies)

theorem Denotes.classifyResolved (denotes : prog.Denotes ty found)
    (resolves : prog.resolve loc ty = .ok resolved) (shown : TypeName) :
    prog.classifyResolved loc shown resolved = .ok found := by
  induction denotes generalizing resolved shown with
  | pointer target =>
    obtain ⟨_, -, rfl⟩ := resolve_pointer.mp resolves
    rfl
  | function params res stdcall variadic =>
    obtain ⟨_, _, -, -, rfl⟩ := resolve_function.mp resolves
    rfl
  | array _ ih =>
    obtain ⟨element, inside, rfl⟩ := resolve_array.mp resolves
    rw [Program.classifyResolved, bind_ok]
    exact ⟨_, ih inside element, rfl⟩
  | bound known _ ih => exact ih ((resolve_bound known).mp resolves) shown
  | bare plain known =>
    cases (unaliased_named plain).resolve.symm.trans resolves
    simp only [Program.classifyResolved, known]
    rfl

/-! Places do not matter. -/

theorem classifyResolved_elsewhere : ∀ (resolved : TypeName) {found : TypeClass} {shown shown' : TypeName},
    prog.classifyResolved here shown resolved = .ok found → prog.classifyResolved there shown' resolved = .ok found
  | .named name, _, _, _, classifies => by
    simp only [classifyResolved] at classifies ⊢
    split at classifies
    · next known => simpa only [known] using classifies
    · contradiction
  | .array element, _, _, _, classifies => by
    simp only [classifyResolved, bind_ok] at classifies ⊢
    obtain ⟨inner, classifies, same⟩ := classifies
    exact ⟨inner, classifyResolved_elsewhere element classifies, same⟩
  | .pointer _, _, _, _, classifies => classifies
  | .function .., _, _, _, classifies => classifies

theorem classify_of_resolve (resolves : prog.resolve here ty = .ok resolved)
    (classifies : prog.classifyResolved there shown resolved = .ok found) :
    prog.classify here ty = .ok found := by
  simp only [classify, bind_ok]
  exact ⟨resolved, resolves, classifyResolved_elsewhere resolved classifies⟩

theorem classify_elsewhere (classifies : prog.classify here ty = .ok found) :
    prog.classify there ty = .ok found := by
  simp only [classify, bind_ok] at classifies
  obtain ⟨resolved, resolves, classifies⟩ := classifies
  exact classify_of_resolve (resolve_elsewhere resolves) classifies

theorem irType_ok (lowers : prog.irType here ty = .ok lowered) :
    ∃ found, prog.classify here ty = .ok found ∧ lowered = found.irType := by
  simp only [irType, bind_ok, pure_ok] at lowers
  obtain ⟨found, classifies, rfl⟩ := lowers
  exact ⟨found, classifies, rfl⟩

theorem irType_of_classify (classifies : prog.classify here ty = .ok found) :
    prog.irType here ty = .ok found.irType := by
  simp only [irType, bind_ok, pure_ok]
  exact ⟨found, classifies, rfl⟩

theorem irType_elsewhere (lowers : prog.irType here ty = .ok lowered) :
    prog.irType there ty = .ok lowered := by
  obtain ⟨found, classifies, rfl⟩ := irType_ok lowers
  exact irType_of_classify (classify_elsewhere classifies)

/-! Which classes there are. -/

theorem classifyName?_usual (known : prog.classifyName? name = some found) : found.Usual := by
  rw [classifyName?] at known
  split at known
  · next primitive _ =>
    cases known
    cases primitive with
    | integer kind => cases kind <;> simp [TypeClass.ofPrimitive, TypeClass.Usual, IntKind.bits]
    | _ => simp [TypeClass.ofPrimitive, TypeClass.Usual, IrType.isFloat]
  · split at known
    · cases known
      trivial
    · obtain ⟨enum_, -, rfl⟩ := Option.map_eq_some_iff.mp known
      exact enum_.bits_cases

theorem Denotes.usual (denotes : prog.Denotes ty found) : found.Usual := by
  induction denotes with
  | pointer | function | array => trivial
  | bound _ _ ih => exact ih
  | bare _ known => exact classifyName?_usual known

theorem classify_usual (classifies : prog.classify loc ty = .ok found) : found.Usual :=
  (classify_denotes classifies).usual

theorem classifyResolved_void (classifies : prog.classifyResolved loc shown resolved = .ok .void) :
    resolved = .void := by
  cases resolved with
  | named name =>
    simp only [classifyResolved, classifyName?] at classifies
    split at classifies
    · next known =>
      cases classifies
      split at known
      · next primitive builtIn =>
        cases primitive <;> simp [TypeClass.ofPrimitive] at known
        rw [TypeName.void, ← Primitive.name_of_ofName? builtIn]
        rfl
      · split at known
        · simp at known
        · simp at known
    · contradiction
  | array element =>
    simp only [classifyResolved, bind_ok, pure_ok] at classifies
    obtain ⟨_, -, same⟩ := classifies
    contradiction
  | pointer | function => cases classifies

theorem classify_builtIn (plain : prog.alias? primitive.name = none) :
    prog.classify loc (.named primitive.name) = .ok (.ofPrimitive primitive) := by
  simp only [classify, bind_ok]
  refine ⟨.named primitive.name, resolve_plain plain, ?_⟩
  simp only [classifyResolved, classifyName?, Primitive.ofName?_name]
  rfl

/-! Types that join. -/

theorem classifyResolved_pointer (addr : resolved.isGenericPointer ∨ resolved.isSpecificPointer) :
    prog.classifyResolved loc shown resolved = .ok .pointer := by
  cases resolved with
  | named name =>
    have generic : name = "ptr" := by
      simpa [TypeName.isGenericPointer, TypeName.isSpecificPointer, TypeName.isPointer,
      TypeName.isFunction] using addr
    subst generic
    rfl
  | array element =>
    simp [TypeName.isGenericPointer, TypeName.isSpecificPointer, TypeName.isPointer, TypeName.isFunction] at addr
  | pointer | function => rfl

theorem classifyResolved_below {other shown' : TypeName} (below : resolved.Below other) :
    prog.classifyResolved here shown resolved = .ok found ↔
      prog.classifyResolved there shown' other = .ok found := by
  rcases below with rfl | ⟨generic, specific⟩
  · exact ⟨classifyResolved_elsewhere _, classifyResolved_elsewhere _⟩
  · rw [classifyResolved_pointer (.inl generic), classifyResolved_pointer (.inr specific)]

theorem classify_iff (resolves : prog.resolve here ty = .ok resolved) :
    prog.classify there ty = .ok found ↔ prog.classifyResolved there ty resolved = .ok found := by
  rw [classify, resolve_elsewhere resolves]
  rfl

/-- Types that join have the class of the join, or all three have none. -/
theorem join_classes {left right joined : TypeName}
    (joins : prog.join here left right = .ok (some joined)) (found : TypeClass) :
    (prog.classify there left = .ok found ↔ prog.classify there joined = .ok found) ∧
      (prog.classify there right = .ok found ↔ prog.classify there joined = .ok found) := by
  simp only [join, bind_ok, pure_ok] at joins
  obtain ⟨first, resolvesLeft, second, resolvesRight, joins⟩ := joins
  obtain ⟨-, -, low, low', one⟩ := TypeName.join?_eq_some_iff.mp joins
  have resolves : prog.resolve here joined = .ok joined := by
    rcases one with rfl | rfl
    · exact resolve_resolved resolvesLeft
    · exact resolve_resolved resolvesRight
  rw [classify_iff resolvesLeft, classify_iff resolvesRight, classify_iff resolves]
  exact ⟨classifyResolved_below low, classifyResolved_below low'⟩

theorem join_class {left right joined : TypeName}
    (joins : prog.join here left right = .ok (some joined))
    (classifies : prog.classify there left = .ok found) :
    found ≠ .void ∧ prog.classify there right = .ok found ∧
      prog.classify there joined = .ok found := by
  have whole := (join_classes joins found).1.mp classifies
  refine ⟨?_, (join_classes joins found).2.mpr whole, whole⟩
  rintro rfl
  simp only [join, bind_ok, pure_ok] at joins
  obtain ⟨first, resolves, _, -, joins⟩ := joins
  exact (TypeName.join?_eq_some_iff.mp joins).1 (classifyResolved_void ((classify_iff resolves).mp classifies))

theorem join_resolved {left right first second : TypeName}
    (resolves : prog.resolve loc left = .ok first)
    (resolves' : prog.resolve loc right = .ok second) :
    prog.join loc left right = .ok (first.join? second) := by
  rw [join, resolves, resolves']
  rfl

theorem resolve_joined {first second joined : TypeName}
    (resolves : prog.resolve loc first = .ok first)
    (resolves' : prog.resolve loc second = .ok second) (joins : first.join? second = some joined) :
    prog.resolve loc joined = .ok joined := by
  rcases (TypeName.join?_eq_some_iff.mp joins).2.2.2.2 with rfl | rfl
  · exact resolves
  · exact resolves'

def joinBoth (prog : Program) (loc : Location) : Option TypeName → Option TypeName → Except Error (Option TypeName)
  | some left, some right => prog.join loc left right
  | _, _ => return none

/-- The order of joins does not matter, a type joins with itself, and values may go where types
join. -/
theorem join_lawful {a b c a' b' c' : TypeName} (first : prog.resolve loc a = .ok a')
    (second : prog.resolve loc b = .ok b') (third : prog.resolve loc c = .ok c') :
    (∃ outcome, prog.join loc a b = .ok outcome) ∧ prog.join loc a b = prog.join loc b a ∧
    prog.join loc a a = .ok (if a' = .void then none else some a') ∧
    (do prog.joinBoth loc (← prog.join loc a b) (some c)) =
      (do prog.joinBoth loc (some a) (← prog.join loc b c)) ∧
    (∀ given, prog.joinInto loc a b = .ok (some given) ↔
      given = b ∧ ∃ joined, prog.join loc a b = .ok (some joined)) ∧
    ∀ joined found, prog.join loc a b = .ok (some joined) →
      (prog.classify loc a = .ok found ↔ prog.classify loc joined = .ok found) ∧
      (prog.classify loc b = .ok found ↔ prog.classify loc joined = .ok found) := by
  refine ⟨⟨_, join_resolved first second⟩, ?_, ?_, ?_, fun given => ?_,
    fun joined found joins => join_classes joins found⟩
  · rw [join_resolved first second, join_resolved second first, TypeName.join?_comm]
  · rw [join_resolved first first]
    by_cases empty : a' = .void <;> simp [TypeName.join?, empty]
  · have here : (do prog.joinBoth loc (← prog.join loc a b) (some c)) =
        .ok ((a'.join? b').bind (·.join? c')) := by
      rw [join_resolved first second]
      cases joins : a'.join? b' with
      | none => rfl
      | some both =>
        exact join_resolved (resolve_joined (resolve_resolved first) (resolve_resolved second) joins)
          third
    have there : (do prog.joinBoth loc (some a) (← prog.join loc b c)) =
        .ok ((b'.join? c').bind a'.join?) := by
      rw [join_resolved second third]
      cases joins : b'.join? c' with
      | none => rfl
      | some both =>
        exact join_resolved first (resolve_joined (resolve_resolved second)
          (resolve_resolved third) joins)
    rw [here, there, TypeName.join?_assoc]
  · rw [joinInto, join_resolved first second]
    cases a'.join? b' <;> simp [bind, Except.bind, pure, Except.pure, eq_comm]

/-- A program with a name of its own for pointers to bytes. -/
def buffers : Program where
  file := ⟨"buffers.tn"⟩
  aliases := [⟨"Data", .pointer (.named "byte"), false, 1, ⟨"buffers.tn"⟩⟩]

theorem buffers_join :
    buffers.resolve ⟨⟨"buffers.tn"⟩, 2⟩ (.named "Data") = .ok (.pointer (.named "byte")) ∧
    buffers.join ⟨⟨"buffers.tn"⟩, 2⟩ (.named "Data") (.named "ptr") =
      .ok (some (.pointer (.named "byte"))) ∧
    buffers.join ⟨⟨"buffers.tn"⟩, 2⟩ (.named "Data") (.named "ptr") =
      buffers.join ⟨⟨"buffers.tn"⟩, 2⟩ (.named "ptr") (.named "Data") :=
  ⟨rfl, rfl, (join_lawful (c := .named "int") rfl rfl rfl).2.1⟩

theorem joinInto_class {src target joined : TypeName}
    (joins : prog.joinInto here src target = .ok (some joined))
    (classifies : prog.classify there src = .ok found) :
    found ≠ .void ∧ prog.classify there target = .ok found := by
  simp only [joinInto, bind_ok, pure_ok, Option.map_eq_some_iff] at joins
  obtain ⟨_, joins, common, rfl, -⟩ := joins
  obtain ⟨solid, same, -⟩ := join_class joins classifies
  exact ⟨solid, same⟩

theorem classify_primitive {primitive : Primitive}
    (builtIn : prog.primitive? here ty = .ok (some primitive)) :
    prog.classify here ty = .ok (.ofPrimitive primitive) := by
  simp only [primitive?, bind_ok, pure_ok] at builtIn
  obtain ⟨resolved, resolves, builtIn⟩ := builtIn
  obtain ⟨name, bare, known⟩ := Option.bind_eq_some_iff.mp builtIn
  cases resolved with
  | named _ =>
    cases bare
    simp only [classify, bind_ok]
    refine ⟨_, resolves, ?_⟩
    simp only [classifyResolved, classifyName?, known]
    rfl
  | _ => contradiction

theorem condition_irType (tests : prog.condition here ty = .ok test) :
    prog.irType here ty = .ok test.irType := by
  simp only [condition, bind_ok] at tests
  obtain ⟨builtIn, found, tests⟩ := tests
  split at tests
  · cases tests
    exact irType_of_classify (classify_primitive found)
  · cases tests
    exact irType_of_classify (classify_primitive found)
  · contradiction

/-! Lowered types, wherever they are asked for. -/

def Lowers (prog : Program) (ty : TypeName) (lowered : IrType) : Prop :=
  ∃ loc, prog.irType loc ty = .ok lowered

def Resolves (prog : Program) (ty resolved : TypeName) : Prop :=
  ∃ loc, prog.resolve loc ty = .ok resolved

theorem Lowers.irType (lowers : prog.Lowers ty lowered) (loc : Location) :
    prog.irType loc ty = .ok lowered := by
  obtain ⟨_, found⟩ := lowers
  exact irType_elsewhere found

theorem Lowers.unique {other : IrType} (lowers : prog.Lowers ty lowered)
    (again : prog.Lowers ty other) :
    lowered = other := by
  obtain ⟨loc, found⟩ := again
  exact Except.ok.inj ((lowers.irType loc).symm.trans found)

theorem Lowers.class (lowers : prog.Lowers ty lowered) (loc : Location) :
    ∃ found, prog.classify loc ty = .ok found ∧ found.Usual ∧ lowered = found.irType := by
  obtain ⟨found, classifies, same⟩ := irType_ok (lowers.irType loc)
  exact ⟨found, classifies, classify_usual classifies, same⟩

theorem lowers_of_classify (classifies : prog.classify loc ty = .ok found) :
    prog.Lowers ty found.irType := ⟨loc, irType_of_classify classifies⟩

theorem Resolves.resolve (resolves : prog.Resolves ty resolved) (loc : Location) :
    prog.resolve loc ty = .ok resolved := by
  obtain ⟨_, found⟩ := resolves
  exact resolve_elsewhere found

theorem Lowers.resolves (lowers : prog.Lowers ty lowered) :
    ∃ resolved, prog.Resolves ty resolved := by
  obtain ⟨loc, found⟩ := lowers
  obtain ⟨_, classifies, -⟩ := irType_ok found
  simp only [classify, bind_ok] at classifies
  obtain ⟨resolved, resolves, -⟩ := classifies
  exact ⟨resolved, loc, resolves⟩

theorem Lowers.resolves_void (lowers : prog.Lowers ty .void) : prog.Resolves ty .void := by
  obtain ⟨found, classifies, usual, same⟩ := lowers.class ⟨prog.file, 0⟩
  obtain rfl := (TypeClass.irType_eq_void usual).mp same.symm
  simp only [classify, bind_ok] at classifies
  obtain ⟨resolved, resolves, classifies⟩ := classifies
  exact ⟨_, classifyResolved_void classifies ▸ resolves⟩

namespace Resolves
variable {inner : TypeName}

theorem self (resolves : prog.Resolves ty resolved) : prog.Resolves resolved resolved := by
  obtain ⟨loc, found⟩ := resolves
  exact ⟨loc, resolve_resolved found⟩

theorem target (resolves : prog.Resolves ty (.pointer inner)) : prog.Resolves inner inner := by
  obtain ⟨loc, found⟩ := resolves.self
  obtain ⟨_, found, same⟩ := resolve_pointer.mp found
  cases same
  exact ⟨loc, found⟩

theorem pointer (resolves : prog.Resolves ty resolved) :
    prog.Resolves (.pointer ty) (.pointer resolved) := by
  obtain ⟨loc, found⟩ := resolves
  exact ⟨loc, resolve_pointer.mpr ⟨resolved, found, rfl⟩⟩

theorem lowers_address (resolves : prog.Resolves ty resolved) (addr : resolved.isSpecificPointer) :
    prog.Lowers ty .pointer := by
  obtain ⟨loc, found⟩ := resolves
  have classifies : prog.classifyResolved loc ty resolved = .ok .pointer := classifyResolved_pointer (.inr addr)
  exact lowers_of_classify (classify_of_resolve found classifies)

end Resolves

namespace Lowers

theorem pointer (lowers : prog.Lowers (.pointer ty) lowered) : lowered = .pointer := by
  obtain ⟨loc, found⟩ := lowers
  obtain ⟨_, classifies, rfl⟩ := irType_ok found
  cases classify_denotes classifies
  rfl

theorem slice (lowers : prog.Lowers (.array ty) lowered) : lowered = .slice := by
  obtain ⟨loc, found⟩ := lowers
  obtain ⟨_, classifies, rfl⟩ := irType_ok found
  cases classify_denotes classifies
  rfl

section
variable (lowers : prog.Lowers ty lowered)
include lowers

theorem eq_pointer (resolves : prog.Resolves ty resolved) (addr : resolved.isSpecificPointer) :
    lowered = .pointer := lowers.unique (resolves.lowers_address addr)

theorem eq_void (resolves : prog.Resolves ty .void) : lowered = .void := by
  obtain ⟨loc, found⟩ := resolves
  obtain ⟨_, classifies, rfl⟩ := irType_ok (lowers.irType loc)
  have void : prog.classifyResolved loc ty .void = .ok .void := rfl
  obtain rfl := Except.ok.inj (classifies.symm.trans (classify_of_resolve found void))
  rfl

theorem eq_slice {inner : TypeName} (resolves : prog.Resolves ty (.array inner)) :
    lowered = .slice := by
  obtain ⟨loc, found⟩ := resolves
  obtain ⟨_, classifies, rfl⟩ := irType_ok (lowers.irType loc)
  simp only [classify, found, bind_ok, Except.ok.injEq, exists_eq_left', classifyResolved, pure_ok] at classifies
  obtain ⟨_, -, rfl⟩ := classifies
  rfl

theorem joinInto {target joined : TypeName}
    (joins : prog.joinInto loc ty target = .ok (some joined)) :
    lowered ≠ .void ∧ prog.Lowers target lowered := by
  obtain ⟨found, classifies, usual, rfl⟩ := lowers.class loc
  obtain ⟨solid, same⟩ := joinInto_class joins classifies
  exact ⟨mt (TypeClass.irType_eq_void usual).mp solid, lowers_of_classify same⟩

theorem join {other joined : TypeName} (joins : prog.join loc ty other = .ok (some joined)) :
    ∃ found, prog.classify loc joined = .ok found ∧ found.Usual ∧ lowered = found.irType ∧
      lowered ≠ .void ∧
      prog.Lowers other lowered := by
  obtain ⟨found, classifies, usual, rfl⟩ := lowers.class loc
  obtain ⟨solid, right, both⟩ := join_class joins classifies
  exact ⟨found, both, usual, rfl, mt (TypeClass.irType_eq_void usual).mp solid, lowers_of_classify right⟩

end

end Lowers

theorem Denotes.aggregate (denotes : prog.Denotes ty (.aggregate name)) :
    (prog.structure? name).isSome ∨ (prog.class? name).isSome := by
  generalize same : TypeClass.aggregate name = found at denotes
  induction denotes with
  | pointer | function | array => contradiction
  | bound _ _ ih => exact ih same
  | bare _ known =>
    subst same
    rw [classifyName?] at known
    split at known
    · next primitive _ => cases primitive <;> simp [TypeClass.ofPrimitive] at known
    · split at known
      · next there =>
        cases known
        simpa using there
      · simp at known

end Program
end TernLang
