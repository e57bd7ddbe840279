import TernLang.Proofs.Lowering.Emission
import TernLang.Proofs.Typing.Overload

/-! Typed operands and calls. Conversions go from the type of a value to the type that is wanted,
and a call passes what the lowered signature of its callee takes. -/
namespace TernLang.Lowering

open List
open Ir (Instruction)
open Success Program

def Conversion.Fits (src tgt : IrType) : Conversion → Prop
  | keep => src = tgt
  | cast op => op.converts src tgt
  | test predicate => tgt = .bool ∧ predicate.takes src

theorem extension_converts (less : narrow < wide) (signed : Bool) :
    (extension signed).converts (.int narrow) (.int wide) := by
  cases signed <;> simpa [extension, Ir.CastOp.converts] using less

variable {tgt src : IrType}

theorem floatRank_cases (first : src.isFloat) (second : tgt.isFloat) :
    (floatRank src = floatRank tgt → src = tgt) ∧
    (floatRank src < floatRank tgt ↔ src.floatBits < tgt.floatBits) := by
  cases src <;> first | contradiction | (cases tgt <;> first | contradiction | decide)

variable {conv : Conversion} {name : String} {val : Ir.Value} {values : List Ir.Value} {cls : Class}

theorem conversion?_fits {src tgt : TypeClass} (usual : src.Usual) (usual' : tgt.Usual)
    (found : conversion? src tgt = some conv) : conv.Fits src.irType tgt.irType := by
  unfold conversion? at found
  split at found
  · next bits signed bits' _ =>
    split at found
    · next same =>
      cases found
      exact congrArg IrType.int same
    · next differs =>
      split at found
      · next more =>
        cases found
        simpa [Conversion.Fits, TypeClass.irType, Ir.CastOp.converts] using more
      · next fewer =>
        cases found
        exact extension_converts (by omega) signed
  · cases found
    rcases usual' with rfl | rfl | rfl | rfl <;> rfl
  · cases found
    rfl
  · cases found
    exact ⟨rfl, rfl⟩
  · cases found
    exact ⟨rfl, rfl⟩
  · cases found
    exact ⟨rfl, usual⟩
  · next bits signed ty =>
    cases found
    cases signed <;> exact usual'
  · cases found
    exact usual'
  · next ty bits signed =>
    cases found
    cases signed
    all_goals
      cases ty <;> first | contradiction | rfl
  · next src tgt =>
    obtain ⟨equal, less⟩ := floatRank_cases usual usual'
    split at found
    · next same =>
      cases found
      exact equal same
    · next differs =>
      split at found
      · next lower =>
        cases found
        simp only [Conversion.Fits, Ir.CastOp.converts, TypeClass.irType, Bool.and_eq_true]
        exact ⟨⟨usual, usual'⟩, decide_eq_true (less.mp lower)⟩
      · next higher =>
        cases found
        have less := (floatRank_cases usual' usual).2.mp (by omega)
        simp only [Conversion.Fits, Ir.CastOp.converts, TypeClass.irType, Bool.and_eq_true]
        exact ⟨⟨usual, usual'⟩, decide_eq_true less⟩
  · cases found
    rfl
  · cases found
    rfl
  · cases found
    rfl
  · cases found
    rfl
  · split at found
    · next same =>
      cases found
      exact congrArg IrType.struct same
    · contradiction
  · contradiction

theorem promotion?_fits {found : TypeClass} (usual : found.Usual)
    (promotes : promotion? found = some (conv, tgt)) : conv.Fits found.irType tgt := by
  unfold promotion? at promotes
  split at promotes
  · cases promotes
    rfl
  · next ty _ =>
    cases promotes
    cases ty <;> first | contradiction | rfl
  · cases promotes
    rfl
  · next bits signed =>
    split at promotes
    · next small =>
      cases promotes
      exact extension_converts small signed
    · cases promotes
      rfl
  · contradiction
  · cases promotes
    rfl

variable {prog : Program} {line : Nat} {s s' : State} {mod : Ir.Module}

theorem isSized_of_isFloat {ty : IrType} (isFloat : ty.isFloat) : mod.isSized ty := by
  cases ty <;> first | contradiction | rfl

theorem isSized_of_converts {op : Ir.CastOp} (converts : op.converts src tgt) :
    mod.isSized tgt := by
  unfold Ir.CastOp.converts at converts
  split at converts
  all_goals first | rfl | contradiction | exact isSized_of_isFloat converts | skip
  all_goals
    simp only [Bool.and_eq_true] at converts
    exact isSized_of_isFloat converts.1.2

variable {typed : Typed}

theorem Valued.class {loc : Location} {found : TypeClass} (valued : Valued prog s typed)
    (classifies : prog.classify loc typed.type = .ok found) :
    typed.value.type = found.irType ∧ (found ≠ .void → Carried s typed.value) := by
  have same := valued.lowers.unique (lowers_of_classify classifies)
  refine ⟨same, fun solid => valued.carried ?_⟩
  rw [same, ne_eq, TypeClass.irType_eq_void (classify_usual classifies)]
  exact solid

def Takes (prog : Program) (val : Ir.Value) (ty : TypeName) : Prop :=
  ∀ lowered, prog.Lowers ty lowered → val.type = lowered

theorem forall₂_of_zip {args : List Typed} {params : List TypeName}
    (enough : params.length ≤ args.length) {relation : Ir.Value → TypeName → Prop}
    (pairs : ∀ pair ∈ args.zip params, relation pair.1.value pair.2) :
    Forall₂ relation ((args.take params.length).map (·.value)) params := by
  induction params generalizing args with
  | nil => simp
  | cons param params ih =>
    cases args with
    | nil => simp at enough
    | cons arg args =>
      rw [zip_cons_cons, forall_mem_cons] at pairs
      rw [length_cons, length_cons] at enough
      exact .cons pairs.1 (ih (by omega) pairs.2)

theorem types_eq {types : List TypeName} {lowered : List IrType} {loc : Location}
    (takes : Forall₂ (Takes prog) values types) (solid : Forall₂ (Solid prog loc) types lowered) :
    values.map (·.type) = lowered := by
  induction takes generalizing lowered with
  | nil =>
    cases solid
    rfl
  | cons first _ ih =>
    cases solid with
    | cons found others => rw [map_cons, first _ ⟨loc, found.1⟩, ih others]

/-- Arguments that a call of the signature may pass. -/
structure Passes (prog : Program) (s : State) (sig : Signature) (args : List Typed) : Prop where
  count :
    if sig.isVariadic then args.length ≥ sig.params.length else args.length = sig.params.length
  fixed : ∀ pair ∈ args.zip sig.params, Carried s pair.1.value ∧ Takes prog pair.1.value pair.2
  rest : ∀ arg ∈ args.drop sig.params.length, Valued prog s arg
  tail : ∀ elem, sig.variadic = .tail elem → ∀ arg ∈ args.drop sig.params.length,
    Suits prog s arg.value elem

namespace Passes
variable {sig : Signature} {args : List Typed} {loc : Location}

theorem of_joins (valued : ∀ arg ∈ args, Valued prog s arg)
    (count : if sig.isVariadic then args.length ≥ sig.params.length
      else args.length = sig.params.length)
    (fixed : ∀ pair ∈ (args.map (·.type)).zip sig.params, ∃ joined,
      prog.joinInto loc pair.1 pair.2 = .ok (some joined))
    (tail : ∀ elem, sig.variadic = .tail elem →
      ∀ arg ∈ (args.map (·.type)).drop sig.params.length, ∃ joined,
        prog.joinInto loc arg elem = .ok (some joined)) : Passes prog s sig args := by
  refine ⟨count, ?_, fun arg mem => valued arg (mem_of_mem_drop mem), ?_⟩
  · intro pair mem
    have mapped : (pair.1.type, pair.2) ∈ (args.map (·.type)).zip sig.params := by
      rw [zip_map_left]
      exact mem_map_of_mem mem
    obtain ⟨_, joins⟩ := fixed _ mapped
    have suits := (valued pair.1 (of_mem_zip mem).1).suits joins
    exact ⟨suits.carried, fun _ lowers => suits.lowers.unique lowers⟩
  · intro elem tailed arg mem
    have mapped : arg.type ∈ (args.map (·.type)).drop sig.params.length := by
      rw [← map_drop]
      exact mem_map_of_mem mem
    obtain ⟨_, joins⟩ := tail elem tailed _ mapped
    exact (valued arg (mem_of_mem_drop mem)).suits joins

theorem of_accepts (valued : ∀ arg ∈ args, Valued prog s arg)
    (accepts : prog.Accepts loc (args.map (·.type)) sig) : Passes prog s sig args := by
  obtain ⟨count, fixed, tail⟩ := accepts
  rw [length_map] at count
  exact of_joins valued count fixed tail

theorem method (passes : Passes prog s sig args) (ptr : object.type = .pointer)
    (carried : Carried s object) (owner : TypeName) :
    Passes prog s { sig with params := .pointer owner :: sig.params }
      (⟨object, .pointer owner⟩ :: args) where
  count := by simpa [Signature.isVariadic] using passes.count
  fixed := by
    rw [zip_cons_cons, forall_mem_cons]
    refine ⟨⟨carried, ?_⟩, passes.fixed⟩
    intro lowered lowers
    rw [ptr, lowers.pointer]
  rest := passes.rest
  tail := passes.tail

theorem accepted (passes : Passes prog s sig args) {ty : Ir.FunctionType} {rest : List Ir.Value}
    (lowered : functionType prog loc sig = .ok ty) (none : sig.variadic = .none → rest = [])
    (slice : ∀ elem, sig.variadic = .tail elem → ∃ slice, rest = [slice] ∧
      Takes prog slice (.array elem)) :
    (∀ val ∈ (args.take sig.params.length).map (·.value), Carried s val) ∧
      ty.accepts (((args.take sig.params.length).map (·.value) ++ rest).map (·.type)) := by
  obtain ⟨params, -, variadic, -⟩ := functionType_ok lowered
  have enough : sig.params.length ≤ args.length := by
    have count := passes.count
    split at count <;> omega
  have pairs : Forall₂ (fun val ty => Carried s val ∧ Takes prog val ty)
      ((args.take sig.params.length).map (·.value)) sig.params := forall₂_of_zip enough passes.fixed
  obtain ⟨carried, takes⟩ := (forall₂_and_left _ _).mp pairs
  refine ⟨carried, ?_⟩
  rw [Ir.FunctionType.accepts, variadic]
  cases kind : sig.variadic with
  | none =>
    rw [Signature.declaredParams, kind] at params
    rw [none kind, append_nil]
    exact decide_eq_true (types_eq takes params)
  | tail elem =>
    rw [Signature.declaredParams, kind] at params
    obtain ⟨_, rfl, takesSlice⟩ := slice elem kind
    exact decide_eq_true (types_eq (rel_append takes (.cons takesSlice .nil)) params)
  | foreign =>
    rw [Signature.declaredParams, kind] at params
    rw [map_append, types_eq takes params]
    exact isPrefixOf_iff_prefix.mpr (prefix_append ..)

end Passes

theorem callablesNamed_declared (equipped : Equipped prog s.module)
    (mem : sig ∈ prog.callablesNamed name) :
    Declared prog s.module sig := by
  rw [callablesNamed, mem_append, mem_map, mem_map] at mem
  rcases mem with ⟨function, mem, rfl⟩ | ⟨ext, mem, rfl⟩
  · exact equipped.functions (function, none) (mem_allFunctions_function (mem_filter.mp mem).1)
  · exact equipped.externals ext (mem_filter.mp mem).1

theorem methodsNamed_declared (equipped : Equipped prog s.module) (known : cls ∈ prog.classes)
    (mem : sig ∈ methodsNamed cls name isStatic) : (s.module.function? sig.symbol).isSome := by
  rw [methodsNamed, mem_map] at mem
  obtain ⟨method, mem, rfl⟩ := mem
  have declared := equipped.functions (method, some cls) (mem_allFunctions_method known (mem_filter.mp mem).1)
  cases isStatic <;> exact declared.symbol

theorem carried_function (there : (s.module.function? sym).isSome) : Carried s (.function sym) :=
  ⟨rfl, rfl, there⟩

namespace Aim

variable {aim : Aim} {addr : Typed} {args : List Typed} {sig : Signature}

theorem Has.int (bits : Nat) (word : UInt64) : aim.Operand s (.int bits word) :=
  ⟨fun _ => trivial, fun _ => .int ..⟩

theorem Has.zero {ty : IrType} (sized : aim.typed → s.module.isSized ty) :
    aim.Operand s (.zero ty) :=
  ⟨fun _ => trivial, fun typed => .zero (sized typed)⟩

theorem Has.function (there : aim.typed → (s.module.function? sym).isSome) :
    aim.Operand s (.function sym) := ⟨fun _ => trivial, fun typed => carried_function (there typed)⟩

theorem Has.valued {ty : TypeName} (operand : aim.Operand s val)
    (lowers : aim.typed → aim.ctx.program.Lowers ty val.type) : aim.Value s ⟨val, ty⟩ :=
  ⟨operand.usable, fun typed => ⟨lowers typed, fun _ => operand.fact typed⟩⟩

theorem Has.class {loc : Location} {found : TypeClass} (valued : aim.Value s typed)
    (classifies : aim.ctx.program.classify loc typed.type = .ok found) (solid : found ≠ .void) :
    aim.Operand s typed.value ∧ (aim.typed → typed.value.type = found.irType) :=
  ⟨⟨valued.usable, fun typed => ((valued.fact typed).class classifies).2 solid⟩,
    fun typed => ((valued.fact typed).class classifies).1⟩

theorem Adds.sized (adds : aim.Adds s s') {ty : IrType} (sized : aim.typed → s.module.isSized ty)
    (typed : aim.typed) :
    s'.module.isSized ty :=
  (Ir.Module.isSized_congr (adds.leads typed).keeps.structs _).trans (sized typed)

section
variable (able : aim.Able s)
include able

/-! Values. -/

theorem nameAddress_does :
    aim.Does s (nameAddress aim.ctx line name) fun addr s' =>
      aim.Address s' addr ∧ aim.ctx.program.HasVariable (.ofScope s.scope) name addr.type := by
  intro addr s' run
  obtain ⟨rfl, kind⟩ := nameAddress_ok run
  refine ⟨.refl able, ?_⟩
  rcases kind with ⟨var, found, rfl⟩ | ⟨missing, global, found, rfl⟩
  · have mem := Scope.mem_all found
    refine ⟨⟨fun built => ((able.ready built).scope var mem).usable, fun typed => (able.checked typed).scope var mem⟩,
      .inner ?_⟩
    simp [Variables.ofScope, found]
  · refine ⟨⟨fun _ => trivial, fun typed => ?_⟩, .outer ?_ found⟩
    · have named : global.name = name := by simpa using find?_some found
      obtain ⟨there, lowered, lowers⟩ :=
        (able.checked typed).equipped.storages _ (mem_storages_global (mem_of_find?_eq_some found))
      refine ⟨rfl, ⟨rfl, rfl, ?_⟩, lowers.resolves⟩
      rw [← named]
      exact there
    · simp [Variables.ofScope, missing]

theorem loadFrom_does (located : aim.Address s addr) :
    aim.Does s (loadFrom aim.ctx line addr) fun typed s' => aim.Value s' typed ∧
      typed.type = addr.type := by
  refine .look solidType_ok ?_
  rintro lowered ⟨found, solid⟩
  have lowers : aim.ctx.program.Lowers addr.type lowered := ⟨_, found⟩
  refine (emit_does able (.load · lowered addr.value) (fun _ => ⟨rfl, rfl, rfl⟩)
    (by simpa [Instruction.operands] using located.operand) fun typed => ?_).bind ?_
  · have sized := (able.checked typed).equipped.sized lowers solid
    exact ⟨sized, sized, (located.fact typed).pointer⟩
  · rintro val s' adds ⟨operand, rfl⟩
    exact .pure adds.able ⟨operand.valued fun _ => lowers, rfl⟩

theorem applyConversion_does (operand : aim.Operand s val)
    (fits : aim.typed → conv.Fits val.type tgt) :
    aim.Does s (applyConversion val tgt conv) fun res s' =>
      aim.Operand s' res ∧ (aim.typed → res.type = tgt) := by
  cases conv with
  | keep => exact .pure able ⟨operand, fits⟩
  | cast op =>
    refine (emit_does able (.cast · op val tgt) (fun _ => ⟨rfl, rfl, rfl⟩)
      (by simpa [Instruction.operands] using operand) fun typed => ?_).mono ?_
    · exact ⟨isSized_of_converts (fits typed), fits typed⟩
    · rintro res s' _ ⟨operand, same⟩
      exact ⟨operand, fun _ => same⟩
  | test predicate =>
    refine (compare_does able operand (.zero fun typed => (operand.fact typed).sized)
      fun typed => ⟨rfl, (fits typed).2⟩).mono ?_
    rintro res s' _ ⟨operand, same⟩
    exact ⟨operand, fun typed => same.trans (fits typed).1.symm⟩

theorem convert_does {tgt : TypeName} (valued : aim.Value s typed) :
    aim.Does s (convert aim.ctx line typed tgt) fun val s' => aim.Value s' ⟨val, tgt⟩ := by
  refine .lift fun src first => .lift fun into second => ?_
  split
  · next conv converts =>
    have fits := conversion?_fits (classify_usual first) (classify_usual second) converts
    obtain ⟨operand, same⟩ := valued.class first (by
      rintro rfl
      contradiction)
    refine (applyConversion_does able operand fun typed => same typed ▸ fits).mono ?_
    rintro val s' _ ⟨operand, ty⟩
    exact operand.valued fun typed => ty typed ▸ lowers_of_classify second
  · exact .fail

theorem promote_does (valued : aim.Value s typed) :
    aim.Does s (promote aim.ctx line typed) fun val s' => aim.Operand s' val := by
  refine .lift fun found classifies => ?_
  split
  · next conv tgt promotes =>
    have fits := promotion?_fits (classify_usual classifies) promotes
    obtain ⟨operand, same⟩ := valued.class classifies (by
      rintro rfl
      contradiction)
    exact (applyConversion_does able operand fun typed => same typed ▸ fits).mono fun _ _ _ given => given.1
  · exact .fail

theorem widenIndex_does {idx : Typed} (valued : aim.Value s idx) :
    aim.Does s (widenIndex aim.ctx line idx) fun val s' =>
      aim.Operand s' val ∧ (aim.typed → val.type = .i64) := by
  refine .lift fun found classifies => ?_
  have casts {op : Ir.CastOp} (operand : aim.Operand s idx.value)
      (converts : aim.typed → op.converts idx.value.type .i64) :
      aim.Does s (applyConversion idx.value .i64 (.cast op)) fun val s' =>
        aim.Operand s' val ∧ (aim.typed → val.type = .i64) :=
    applyConversion_does able operand converts
  split
  · exact .pure able (valued.class classifies (by simp))
  · next bits signed narrow =>
    obtain ⟨operand, same⟩ := valued.class classifies (by simp)
    refine casts operand fun typed => ?_
    rw [same typed]
    refine extension_converts ?_ signed
    rcases classify_usual classifies with rfl | rfl | rfl | rfl <;> first | decide | contradiction
  · obtain ⟨operand, same⟩ := valued.class classifies (by simp)
    refine casts operand fun typed => ?_
    rw [same typed]
    rfl
  · exact .fail

theorem truth_does (valued : aim.Value s typed) :
    aim.Does s (truth aim.ctx line typed) fun val s' => aim.Operand s' val ∧
      (aim.typed → val.type = .bool) := by
  refine .lift fun cond tests => ?_
  have same : aim.typed → _ := fun checks => (valued.fact checks).lowers.unique ⟨_, condition_irType tests⟩
  split
  · exact .pure able
      ⟨⟨valued.usable, fun typed => (valued.fact typed).carried (by rw [same typed]; decide)⟩, same⟩
  · next kind =>
    have operand : aim.Operand s typed.value :=
      ⟨valued.usable, fun typed => (valued.fact typed).carried (by rw [same typed]; nofun)⟩
    refine (compare_does able operand (.zero fun typed => (operand.fact typed).sized) fun typed => ⟨rfl, ?_⟩).mono ?_
    · rw [same typed]
      rfl
    · rintro val s' _ ⟨operand, same⟩
      exact ⟨operand, fun _ => same⟩

/-! Arrays on the stack. -/

theorem storeItems_does {array : IrType} (sized : aim.typed → s.module.isSized array)
    (ptr : slot.type = .pointer) (addr : aim.Operand s slot)
    (operands : ∀ item ∈ items, aim.Operand s item) :
    aim.Does s (storeItems array slot idx items) fun _ _ => True := by
  induction items generalizing s idx with
  | nil => exact .pure able trivial
  | cons item items ih =>
    obtain ⟨first, others⟩ := forall_mem_cons.mp operands
    refine (emit_does able (.elementPtr · array slot [.int 64 0, .int 64 idx.toUInt64]) (fun _ => ⟨rfl, rfl, rfl⟩) ?_
      fun typed => ⟨rfl, sized typed, ptr, by simp [Ir.Value.int, IrType.isInteger]⟩).bind ?_
    · simp only [Instruction.operands, forall_mem_cons]
      exact ⟨addr, .int .., .int .., by simp⟩
    · rintro there s₁ placed ⟨pointed, same⟩
      refine (store_does placed.able (placed.operand first) pointed fun _ => same).bind ?_
      rintro _ s₂ stored -
      have both := placed.trans stored
      exact ih both.able (both.sized sized) (both.operand addr) fun item mem => both.operand (others item mem)

theorem stackArray_does {elem : IrType} (sized : aim.typed → s.module.isSized elem)
    (operands : ∀ item ∈ items, aim.Operand s item) :
    aim.Does s (stackArray elem items) fun slot s' => aim.Operand s' slot ∧
      slot.type = .pointer := by
  have array : aim.typed → s.module.isSized (.array elem items.length) := sized
  refine (alloca_does able array).bind ?_
  rintro slot s₁ allocated ⟨pointed, same⟩
  refine (storeItems_does allocated.able (allocated.sized array) same pointed
    fun item mem => allocated.operand (operands item mem)).bind ?_
  rintro _ s₂ stored -
  exact .pure stored.able ⟨stored.operand pointed, same⟩

/-! Calls. -/

theorem packSlice_does {elem : TypeName} {items : List Typed}
    (suits : ∀ item ∈ items, aim.Has s item.value (Suits aim.ctx.program s item.value elem)) :
    aim.Does s (packSlice aim.ctx line elem items) fun val s' => aim.Operand s' val ∧
      val.type = .slice := by
  unfold packSlice
  split
  · exact .pure able ⟨.zero fun _ => rfl, rfl⟩
  · next some =>
    refine .lift fun ty found => (stackArray_does able (fun typed => ?_) ?_).bind ?_
    · obtain ⟨item, mem⟩ := exists_mem_of_ne_nil items (by simpa using some)
      have suit := (suits item mem).fact typed
      rw [← suit.lowers.unique ⟨_, found⟩]
      exact suit.carried.sized
    · intro val mem
      obtain ⟨item, there, rfl⟩ := mem_map.mp mem
      exact ⟨(suits item there).usable, fun typed => ((suits item there).fact typed).carried⟩
    · rintro data s₁ stored ⟨pointed, same⟩
      refine (emit_does stored.able (.insertValue · (.zero .slice) data 0) (fun _ => ⟨rfl, rfl, rfl⟩) ?_
        fun _ => ⟨rfl, congrArg Option.some same.symm⟩).bind ?_
      · simp only [Instruction.operands, forall_mem_cons]
        exact ⟨.zero fun _ => rfl, pointed, by simp⟩
      · rintro half s₂ first ⟨pointed, same⟩
        have sameType : half.type = .slice := same
        refine (emit_does first.able (.insertValue · half (.int 64 items.length.toUInt64) 1)
          (fun _ => ⟨rfl, rfl, rfl⟩) ?_ fun _ => ?_).mono ?_
        · simp only [Instruction.operands, forall_mem_cons]
          exact ⟨pointed, .int .., by simp⟩
        · simp only [Instruction.Fits, sameType]
          exact ⟨rfl, rfl⟩
        · rintro val s₃ _ ⟨whole, same⟩
          exact ⟨whole, same.trans sameType⟩

theorem promoteList_does (valued : ∀ arg ∈ args, aim.Value s arg) :
    aim.Does s (promoteList aim.ctx line args) fun values s' => ∀ val ∈ values,
      aim.Operand s' val := by
  induction args generalizing s with
  | nil => exact .pure able (forall_mem_nil _)
  | cons arg args ih =>
    obtain ⟨head, tail⟩ := forall_mem_cons.mp valued
    refine (promote_does able head).bind fun val s₁ first here => ?_
    refine (ih first.able fun arg mem => first.valued (tail arg mem)).bind fun rest s₂ second there => ?_
    exact .pure second.able (forall_mem_cons.mpr ⟨second.operand here, there⟩)

theorem tailValues_does {rest : List Typed} (valued : ∀ arg ∈ rest, aim.Value s arg)
    (suits : aim.typed → ∀ elem, variadic = .tail elem →
      ∀ arg ∈ rest, Suits aim.ctx.program s arg.value elem) :
    aim.Does s (tailValues aim.ctx line variadic rest) fun values s' =>
      (∀ val ∈ values, aim.Operand s' val) ∧
      (variadic = .none → values = []) ∧
      ∀ elem, variadic = .tail elem → ∃ slice, values = [slice] ∧
        Takes aim.ctx.program slice (.array elem) := by
  cases variadic with
  | none => exact .pure able ⟨forall_mem_nil _, fun _ => rfl, by simp⟩
  | tail elem =>
    refine (packSlice_does able fun arg mem =>
      ⟨(valued arg mem).usable, fun typed => suits typed elem rfl arg mem⟩).bind ?_
    rintro slice s₁ packed ⟨operand, same⟩
    refine .pure packed.able ⟨by simpa using operand, by simp, ?_⟩
    rintro _ ⟨⟩
    refine ⟨slice, rfl, ?_⟩
    intro lowered lowers
    rw [same, lowers.slice]
  | foreign => exact (promoteList_does able valued).mono fun _ _ _ given => ⟨given, by simp, by simp⟩

theorem call_does {ty : Ir.FunctionType} {args : List Ir.Value} (called : aim.Operand s callee)
    (operands : ∀ arg ∈ args, aim.Operand s arg)
    (fits : aim.typed → callee.type = .pointer ∧ ty.accepts (args.map (·.type)))
    (res : aim.typed → ty.result ≠ .void → s.module.isSized ty.result) :
    aim.Does s (build (.call callee ty args)) fun val s' => val.type = ty.result ∧
      (aim.built → Usable aim.params s' val) ∧ (aim.typed → val.type ≠ .void → Carried s' val) := by
  have all : ∀ arg ∈ callee :: args, aim.Operand s arg := forall_mem_cons.mpr ⟨called, operands⟩
  simp only [Ir.Build.call]
  split
  · next void =>
    intro val s' run
    obtain ⟨rfl, rfl⟩ := build_ok.mp run
    refine ⟨⟨rfl, fun built => ?_, fun typed => ?_⟩, void.symm, fun _ => trivial, fun _ solid => absurd rfl solid⟩
    · exact emits_push (able.ready built) s.builder.nextRegister (.call none callee ty args) rfl rfl
        (fun arg mem => (all arg mem).usable built) (by simp [Instruction.result?]) (Nat.le_refl _)
    · exact push_leads (able.checked typed) s.builder.nextRegister
        ⟨fun arg mem => (all arg mem).fact typed, fits typed, .inl void⟩
  · next solid =>
    refine (emit_does able (fun reg => .call (some reg) callee ty args) (fun _ => ⟨rfl, rfl, rfl⟩) all
      fun typed => ⟨res typed solid, fits typed⟩).mono ?_
    rintro val s' _ ⟨operand, same⟩
    exact ⟨same, operand.usable, fun typed _ => operand.fact typed⟩

theorem emitCall_does {callee : Ir.Value} (ptr : aim.typed → callee.type = .pointer)
    (called : aim.Operand s callee)
    (usable : aim.built → ∀ arg ∈ args, Usable aim.params s arg.value)
    (passes : aim.typed → Passes aim.ctx.program s sig args) :
    aim.Does s (emitCall aim.ctx line sig callee args) fun typed s' =>
      aim.Value s' typed ∧ typed.type = sig.result := by
  refine .lift fun ty lowered => (tailValues_does able (fun arg mem =>
    ⟨fun built => usable built arg (mem_of_mem_drop mem), fun typed => (passes typed).rest arg mem⟩)
    fun typed => (passes typed).tail).bind ?_
  rintro rest s₁ first ⟨operands, none, slice⟩
  have accepted := fun typed => (passes typed).accepted lowered none slice
  have lowersResult : aim.ctx.program.Lowers sig.result ty.result := ⟨_, (functionType_ok lowered).2.1⟩
  refine (call_does first.able (first.operand called) ?_ (fun typed => ⟨ptr typed, (accepted typed).2⟩)
    fun typed solid => (first.able.checked typed).equipped.sized lowersResult solid).bind ?_
  · intro val mem
    rcases mem_append.mp mem with mem | mem
    · refine first.operand ⟨fun built => ?_, fun typed => (accepted typed).1 val mem⟩
      obtain ⟨arg, known, rfl⟩ := mem_map.mp mem
      exact usable built arg (mem_of_mem_take known)
    · exact operands val mem
  · rintro val s₂ second ⟨same, usable, carried⟩
    refine .pure second.able ⟨⟨usable, fun typed => ⟨?_, carried typed⟩⟩, rfl⟩
    rw [same]
    exact lowersResult

variable (valued : ∀ arg ∈ args, aim.Value s arg)
include valued

/-- Arguments that a callable accepts are passed to it. -/
theorem callable_does {loc : Location} (there : aim.typed → (s.module.function? sig.symbol).isSome)
    (accepts : aim.ctx.program.Accepts loc (args.map (·.type)) sig) :
    aim.Does s (emitCall aim.ctx line sig (.function sig.symbol) args) fun typed s' =>
      aim.Value s' typed ∧ typed.type = sig.result :=
  emitCall_does able (fun _ => rfl) (.function there) (fun built arg mem => (valued arg mem).usable built)
    fun typed => .of_accepts (fun arg mem => (valued arg mem).fact typed) accepts

theorem callNamed_does :
    aim.Does s (callNamed aim.ctx line name args) fun typed s' => aim.Value s' typed ∧ ∀ mark exprs,
      Forall₂ (aim.ctx.program.HasType (.ofScope s.scope)) exprs (args.map (·.type)) →
        aim.ctx.program.HasType (.ofScope s.scope) (.call mark none name exprs) typed.type := by
  intro typed s' run
  rcases callNamed_ok run with ⟨sig, found, run⟩ | ⟨missing, ptr, sig, s₁, held, run⟩
  · have chosen := choose_ok found
    obtain ⟨adds, val, same⟩ := callable_does able valued
      (fun typed => (callablesNamed_declared (able.checked typed).equipped chosen.mem).symbol)
      (chosen.accepted _ rfl) run
    exact ⟨adds, val, fun mark exprs types => same ▸ .call mark types found⟩
  · obtain ⟨addr, loaded, _, params, res, stdcall, variadic, addressed, loads, rfl, rfl, resolves, rfl⟩ :=
      functionVariable?_some held
    obtain ⟨-, located, named⟩ := nameAddress_does able addressed
    obtain ⟨first, callee, same⟩ := loadFrom_does able located loads
    have resolves : aim.ctx.program.Resolves addr.type (.function params res stdcall variadic) := ⟨_, resolves⟩
    obtain ⟨count, joins, run⟩ := callVariable_ok run
    have ptr := fun typed => (callee.fact typed).pointer (same ▸ resolves) rfl
    obtain ⟨second, val, same⟩ := emitCall_does first.able (fun typed => (ptr typed).1)
      ⟨callee.usable, fun typed => (ptr typed).2⟩
      (fun built arg mem => (first.valued (valued arg mem)).usable built)
      (fun typed => .of_joins (fun arg mem => (first.valued (valued arg mem)).fact typed) count joins (by
        intro elem tailed
        cases variadic <;> contradiction)) run
    exact ⟨first.trans second, val, fun mark exprs types => same ▸ .callVariable mark types missing named resolves⟩

variable (known : cls ∈ aim.ctx.program.classes)
include known

theorem callStatic_does :
    aim.Does s (callStatic aim.ctx line cls name args) fun typed s' => aim.Value s' typed ∧
      ∃ loc sig, aim.ctx.program.findMethod loc cls name (args.map (·.type)) true = .ok (some sig) ∧
        typed.type = sig.result := by
  refine .lift fun found chosen => ?_
  split
  · next sig =>
    refine .look (fun ran => ⟨expectVisible_ok ran, trivial⟩) fun _ _ => ?_
    have choice := choose_ok chosen
    refine (callable_does able valued
      (fun typed => methodsNamed_declared (able.checked typed).equipped known choice.mem)
      (choice.accepted _ rfl)).mono ?_
    rintro typed s' _ ⟨val, same⟩
    exact ⟨val, _, sig, chosen, same⟩
  · exact .fail

theorem callMethod_does {object : Typed} (located : aim.Address s object) :
    aim.Does s (callMethod aim.ctx line cls object name args) fun typed s' => aim.Value s' typed ∧
      ∃ loc sig,
        aim.ctx.program.findMethod loc cls name (args.map (·.type)) false = .ok (some sig) ∧
        typed.type = sig.result := by
  refine .lift fun found chosen => ?_
  split
  · next sig =>
    refine .look (fun ran => ⟨expectVisible_ok ran, trivial⟩) fun _ _ => ?_
    have choice := choose_ok chosen
    refine (emitCall_does able (fun _ => rfl)
      (.function fun typed => methodsNamed_declared (able.checked typed).equipped known choice.mem)
      (fun built => ?_) fun typed => ?_).mono ?_
    · exact forall_mem_cons.mpr ⟨located.usable built, fun arg mem => (valued arg mem).usable built⟩
    · exact (Passes.of_accepts (fun arg mem => (valued arg mem).fact typed) (choice.accepted _ rfl)).method
        (located.fact typed).pointer (located.fact typed).carried (.named cls.name)
    · rintro typed s' _ ⟨val, same⟩
      exact ⟨val, _, sig, chosen, same⟩
  · exact .fail

end

end Aim

end TernLang.Lowering
