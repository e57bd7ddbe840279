import TernLang.Proofs.Program.Merging
import TernLang.Proofs.Syntax.Written

/-! Reading a text. Each declaration that is read goes behind its table, and was checked to be new;
what every such step keeps holds of the program that a text declares. Where the tokens can be
written, names are words, the types of parameters and all expressions can be written, and a failure
lies in the text. A declaration takes a token at least and numbers its expressions in turn, so that
reading ends with the tokens. -/
namespace TernLang
open Std.Do TernLang.Expr List

set_option mvcgen.warning false

/-- What a function or method that is read from a file has. -/
structure Function.Written (function : Function) (file : Path) (offset : Nat) : Prop where
  offset : function.classOffset = offset
  origin : function.origin = file
  isExternal : function.isExternal = false
  tail : function.isVariadic → function.tail?.isSome

structure Function.Spelled (file : Path) (function : Function) : Prop where
  name : Token.isWord function.name = true
  params : ∀ ty ∈ function.paramTypes, ty.Written
  body : ∀ expr ∈ Stmt.rootsList function.body, expr.Written
  origin : function.origin = file
  isExternal : function.isExternal = false

structure External.Spelled (ext : External) : Prop where
  name : Token.isWord ext.name = true
  isMangled : ext.isMangled = false

/-- A method that is called on an object takes a pointer to it first. -/
def Function.TakesThis (function : Function) (cls : String) : Prop :=
  function.isStatic = false → ∃ params, function.params = ⟨"this", .pointer (.named cls)⟩ :: params

structure Class.Spelled (file : Path) (cls : Class) : Prop where
  name : Token.isWord cls.name = true
  takesThis : ∀ method ∈ cls.methods, method.TakesThis cls.name
  methods : ∀ method ∈ cls.methods, method.Spelled file
  origin : cls.origin = file
  isImported : cls.isImported = false

namespace Program

variable (prog : Program)

def roots : List Expr :=
  prog.constants.map (·.value) ++ prog.functions.flatMap (fun function => Stmt.rootsList function.body) ++
    prog.classes.flatMap fun cls => cls.methods.flatMap fun method => Stmt.rootsList method.body

def expressions : List Expr := Expr.nodesList prog.roots

/-- One more declaration, that is new. -/
structure Declares (prog after : Program) : Prop where
  consistent : prog.Consistent → after.Consistent
  file : after.file = prog.file
  dependencies : after.dependencies = prog.dependencies
  functions : Adds (Function.Written · prog.file 0) prog.functions after.functions
  externals : Adds (·.isMangled = false) prog.externals after.externals

theorem SameTables.declares {before after : Program} (same : SameTables before after)
    (alike : after.dependencies = before.dependencies) : before.Declares after :=
  ⟨(·.of_sameTables same), same.file, alike, same.functions ▸ .refl .., same.externals ▸ .refl ..⟩

theorem Declares.refl : prog.Declares prog := (SameTables.refl prog).declares rfl

theorem Consistent.declares {prog after : Program} (consistent : prog.Consistent)
    (declares : prog.Declares after) : after.Consistent := declares.consistent consistent

structure Gains (before after : Program) : Prop where
  file : after.file = before.file
  functions : Adds (Function.Spelled before.file) before.functions after.functions
  externals : Adds External.Spelled before.externals after.externals
  classes : Adds (Class.Spelled before.file) before.classes after.classes
  constants : Adds (·.value.Written) before.constants after.constants

theorem SameTables.gains {before after : Program} (same : SameTables before after) :
    Gains before after where
  file := same.file
  functions := same.functions ▸ .refl ..
  externals := same.externals ▸ .refl ..
  classes := same.classes ▸ .refl ..
  constants := same.constants ▸ .refl ..

theorem Gains.refl : Gains prog prog := (SameTables.refl prog).gains

theorem Gains.trans {a b c : Program} (first : Gains a b) (second : Gains b c) : Gains a c where
  file := second.file.trans first.file
  functions := first.functions.trans (first.file ▸ second.functions)
  externals := first.externals.trans second.externals
  classes := first.classes.trans (first.file ▸ second.classes)
  constants := first.constants.trans second.constants

/-- One more declaration was read, from a token at least. -/
structure Reads (reading : Reading) (before after : Program) (later : Reading) : Prop where
  declares : before.Declares after
  gains : reading.cursor.Lexed → before.Gains after
  onward : reading.cursor.Onward 1 later.cursor
  made : ∃ exprs, after.roots.Perm (before.roots ++ exprs) ∧
    Made reading.cursor.Lexed reading.nodes exprs later.nodes

variable {prog after : Program} {reading later : Reading}

theorem Reads.plain (taken : Parse.Passes reading later) (declares : prog.Declares after)
    (gains : reading.cursor.Lexed → prog.Gains after) (same : after.roots = prog.roots) :
    prog.Reads reading after later :=
  ⟨declares, gains, taken.1, [], by rw [same, append_nil], taken.2 ▸ .nil _ _⟩

theorem Reads.nothing (taken : Parse.Passes reading later) (same : SameTables prog after)
    (alike : after.dependencies = prog.dependencies) : prog.Reads reading after later :=
  .plain taken (same.declares alike) (fun _ => same.gains)
    (by rw [roots, roots, same.constants, same.functions, same.classes])

theorem Reads.same (taken : Parse.Passes reading later) : prog.Reads reading prog later :=
  .nothing taken (.refl prog) rfl

theorem Reads.requests (taken : Parse.Passes reading later) (importRequests : List ImportRequest)
    (linkLibraries dynamicLibraries : List String) :
    prog.Reads reading { prog with importRequests, linkLibraries, dynamicLibraries } later :=
  .nothing taken ⟨rfl, rfl, rfl, rfl, rfl, rfl, rfl, rfl, rfl⟩ rfl

theorem Reads.ofStructure {found : Structure} (taken : Parse.Passes reading later)
    (free : prog.declared? found.name = none) :
    prog.Reads reading { prog with structures := prog.structures ++ [found] } later :=
  .plain taken { Declares.refl prog with consistent := fun all => all.addValue free rfl rfl all.classes }
    (fun _ => { Gains.refl prog with }) rfl

theorem Reads.ofAlias {found : Alias} (taken : Parse.Passes reading later)
    (free : prog.declared? found.name = none) :
    prog.Reads reading { prog with aliases := prog.aliases ++ [found] } later :=
  .plain taken { Declares.refl prog with consistent := fun all => all.addValue free rfl rfl all.classes }
    (fun _ => { Gains.refl prog with }) rfl

theorem Reads.ofEnumeration {found : Enumeration} (taken : Parse.Passes reading later)
    (free : prog.declared? found.name = none) :
    prog.Reads reading { prog with enums := prog.enums ++ [found] } later :=
  .plain taken { Declares.refl prog with consistent := fun all => all.addValue free rfl rfl all.classes }
    (fun _ => { Gains.refl prog with }) rfl

theorem Reads.ofGlobal {found : Global} (taken : Parse.Passes reading later)
    (free : prog.declared? found.name = none) :
    prog.Reads reading { prog with globals := prog.globals ++ [found] } later :=
  .plain taken { Declares.refl prog with consistent := fun all => all.addValue free rfl rfl all.classes }
    (fun _ => { Gains.refl prog with }) rfl

theorem Reads.foreign {found : External} (taken : Parse.Passes reading later)
    (noValue : prog.valueNamed? found.name = none)
    (new : (found.name, found.params) ∉ prog.signatures)
    (name : reading.cursor.Lexed → Token.isWord found.name = true)
    (isMangled : found.isMangled = false) :
    prog.Reads reading { prog with externals := prog.externals ++ [found] } later :=
  .plain taken
    { Declares.refl prog with
      consistent := fun all => all.addExternal found noValue new, externals := .one isMangled }
    (fun lexed => { Gains.refl prog with externals := .one ⟨name lexed, isMangled⟩ }) rfl

theorem Reads.ofConstant {found : Constant} (onward : reading.cursor.Onward 1 later.cursor)
    (made : Made reading.cursor.Lexed reading.nodes [found.value] later.nodes)
    (free : prog.declared? found.name = none) :
    prog.Reads reading { prog with constants := prog.constants ++ [found] } later where
  declares := { Declares.refl prog with consistent := fun all => all.addValue free rfl rfl all.classes }
  gains lexed := { Gains.refl prog with constants := .one (made.written lexed _ mem_cons_self) }
  onward := onward
  made := by
    refine ⟨_, ?_, made⟩
    simp only [roots, map_append, append_assoc, perm_append_left_iff]
    exact perm_append_comm.trans (.of_eq (append_assoc ..))

theorem Reads.function {found : Function} (onward : reading.cursor.Onward 1 later.cursor)
    (made : Made reading.cursor.Lexed reading.nodes (Stmt.rootsList found.body) later.nodes)
    (noValue : prog.valueNamed? found.name = none)
    (new : (found.name, found.paramTypes) ∉ prog.signatures) (written : found.Written prog.file 0)
    (spelled : reading.cursor.Lexed → found.Spelled prog.file) :
    prog.Reads reading { prog with functions := prog.functions ++ [found] } later where
  declares := { Declares.refl prog with
    consistent := fun all => all.addFunction found noValue new written.offset
    functions := .one written }
  gains lexed := { Gains.refl prog with functions := .one (spelled lexed) }
  onward := onward
  made := by
    refine ⟨_, ?_, made⟩
    simp only [roots, flatMap_append, flatMap_singleton, append_assoc, perm_append_left_iff]
    exact perm_append_comm

theorem Reads.ofClass {found : Class} (onward : reading.cursor.Onward 1 later.cursor)
    (made : Made reading.cursor.Lexed reading.nodes (found.methods.flatMap fun method =>
      Stmt.rootsList method.body) later.nodes) (free : prog.declared? found.name = none)
    (consistent : found.Consistent (prog.classes.length + 1))
    (spelled : reading.cursor.Lexed → found.Spelled prog.file) :
    prog.Reads reading { prog with classes := prog.classes ++ [found] } later where
  declares := { Declares.refl prog with consistent := fun all => all.addClass found free consistent }
  gains lexed := { Gains.refl prog with classes := .one (spelled lexed) }
  onward := onward
  made := ⟨_, by simp only [roots, flatMap_append, flatMap_singleton, append_assoc]; rfl, made⟩

theorem Reads.skip {middle : Reading} (reads : prog.Reads middle after later)
    (onward : reading.cursor.Onward 0 middle.cursor) (same : middle.nodes = reading.nodes) :
    prog.Reads reading after later := by
  obtain ⟨exprs, perm, made⟩ := reads.made
  refine ⟨reads.declares, fun lexed => reads.gains (onward.1 lexed), ?_, exprs, perm, same ▸ made.mono onward.1⟩
  have := reads.onward
  grind -ring -linarith

grind_pattern Reads.skip => prog.Reads middle after later, prog.Reads reading after later

end Program

namespace Parse
variable {prog : Program} {α : Type} {item : List α → Parse α} {lexed : Prop}

@[spec] theorem requireNew_runs (name : String) (line : Nat) (before : Reading) :
    Runs True before (fun _ after => after = before ∧
      prog.declared? name = none) (requireNew prog name line) := by
  unfold requireNew
  cases prog.declared? name <;> mvcgen -trivial <;> grind -ring -linarith

@[spec] theorem requireNewCallable_runs (name : String) (params : List TypeName) (line : Nat)
    (before : Reading) :
    Runs True before (fun _ after => after = before ∧ prog.valueNamed? name = none ∧
      (name, params) ∉ prog.signatures)
      (requireNewCallable prog name params line) := by
  unfold requireNewCallable
  cases prog.valueNamed? name <;> mvcgen -trivial <;> grind -ring -linarith [Program.notMem_signatures]

/-! Lists of parameters. -/

section
variable {holds : List α → Prop}
  (step : ∀ items before, (lexed → before.cursor.Lexed) → holds items → Runs before.cursor.Ends
    before (fun found after => Passes before after ∧ holds (items ++ [found])) (item items))
include step

theorem readList_runs (fuel : Nat) (items : List α) (before : Reading)
    (given : lexed → before.cursor.Lexed) (start : holds items) :
    Runs (before.cursor.Within 1 fuel) before (fun found after => Passes before after ∧
      holds found) (readList item fuel items) := by
  induction fuel generalizing items before with
  | zero =>
    mvcgen -trivial [readList]
    grind -ring -linarith
  | succ fuel inner =>
    apply Runs.intro
    mvcgen -trivial [readList, step, inner] <;> clear step inner <;> grind -ring -linarith

theorem parenthesized_runs (none : holds []) (before : Reading)
    (given : lexed → before.cursor.Lexed) :
    Runs before.cursor.Ends before (fun found after => Passes before after ∧
      holds found) (parenthesized item) := by
  have list := readList_runs step
  apply Runs.intro
  mvcgen -trivial [parenthesized, list] <;> clear step list <;> grind -ring -linarith

end

/-- If there is a variadic parameter, the last one is a slice. -/
def Tailed (params : List (Field × Bool)) : Prop :=
  params.any (·.2) → (params.getLast?.bind (·.1.type.element?)).isSome

/-- What is known of parameters that were read. -/
structure ParamsRead (lexed : Prop) (params : List (Field × Bool)) : Prop where
  tailed : Tailed params
  written : lexed → ∀ param ∈ params, param.1.type.Written

theorem ParamsRead.snoc {params : List (Field × Bool)} {found : Field × Bool}
    (known : ParamsRead lexed params) (single : params.any (·.2) = false)
    (written : lexed → found.1.type.Written)
    (sliced : found.2 = true → (found.1.type.element?).isSome) :
    ParamsRead lexed (params ++ [found]) := by
  refine ⟨fun some => ?_, fun given =>
    forall_mem_append.mpr ⟨known.written given, forall_mem_singleton.mpr (written given)⟩⟩
  rw [any_append, single, any_cons, any_nil, Bool.or_false] at some
  rw [getLast?_concat]
  exact sliced some

@[spec] theorem params_runs (function : String) (line : Nat) (implicit : List Field)
    (before : Reading) :
    Runs before.cursor.Ends before (fun params after => Passes before after ∧
      ParamsRead before.cursor.Lexed params)
      (parenthesized (parameter function line implicit)) := by
  refine parenthesized_runs ?_ ⟨fun some => (nomatch some), fun _ => forall_mem_nil _⟩ before id
  intro params reading given known
  apply Runs.intro
  mvcgen -trivial [parameter] <;> grind -ring -linarith [ParamsRead.snoc, TypeName.element?]

structure FunctionRead (prog : Program) (attributes : Attributes) (owner : Option (String × Nat))
    (before : Reading)
    (found : Function) (after : Reading) : Prop where
  onward : before.cursor.Onward 1 after.cursor
  made : Made before.cursor.Lexed before.nodes (Stmt.rootsList found.body) after.nodes
  written : found.Written prog.file ((owner.map (·.2)).getD 0)
  spelled : before.cursor.Lexed → (∀ cls ∈ owner, Token.isWord cls.1 = true) →
    found.Spelled prog.file
  takesThis : ∀ cls ∈ owner, found.TakesThis cls.1

attribute [grind →] FunctionRead.onward FunctionRead.made FunctionRead.written FunctionRead.spelled

theorem written_implicitParams (attributes : Attributes) {owner : Option (String × Nat)}
    (named : ∀ cls ∈ owner, Token.isWord cls.1 = true) :
    ∀ field ∈ implicitParams attributes owner, field.type.Written := by
  cases owner with
  | none => exact forall_mem_nil _
  | some cls =>
    rw [implicitParams]
    split
    · exact forall_mem_nil _
    · exact forall_mem_singleton.mpr (TypeName.written_named.mpr (named cls rfl))

theorem functionRead_of {attributes : Attributes} {owner : Option (String × Nat)}
    {before after : Reading} {found : Function} {params : List (Field × Bool)}
    (known : ParamsRead lexed params) (given : before.cursor.Lexed → lexed)
    (onward : before.cursor.Onward 1 after.cursor)
    (made : Made before.cursor.Lexed before.nodes (Stmt.rootsList found.body) after.nodes)
    (name : before.cursor.Lexed → Token.isWord found.name = true)
    (same : found.params = implicitParams attributes owner ++ params.map (·.1))
    (variadic : found.isVariadic = params.any (·.2))
    (off : found.classOffset = (owner.map (·.2)).getD 0) (origin : found.origin = prog.file)
    (isStatic : found.isStatic = attributes.isStatic) (isExternal : found.isExternal = false) :
    FunctionRead prog attributes owner before found after := by
  refine ⟨onward, made, ⟨off, origin, isExternal, fun given => ?_⟩,
    fun lexed named => ⟨name lexed, ?_, made.written lexed, origin, isExternal⟩, ?_⟩
  · have sliced := known.tailed (variadic ▸ given)
    obtain ⟨last, found⟩ : ∃ last, params.getLast? = some last := by
      cases ends : params.getLast? with
      | none => simp [ends] at sliced
      | some last => exact ⟨last, rfl⟩
    rw [found] at sliced
    rw [Function.tail?, if_pos given, same, getLast?_append, getLast?_map, found]
    exact sliced
  · rw [Function.paramTypes, same, forall_mem_map, forall_mem_append, forall_mem_map]
    exact ⟨written_implicitParams attributes named, known.written (given lexed)⟩
  · rintro cls rfl object
    rw [isStatic] at object
    exact ⟨_, by rw [same, implicitParams, object]; rfl⟩

@[spec] theorem function_runs (attributes : Attributes) (owner : Option (String × Nat))
    (before : Reading) :
    Runs before.cursor.Ends before (FunctionRead prog attributes owner before)
      (function prog attributes owner) := by
  apply Runs.intro
  mvcgen -trivial [function] <;> grind -ring -linarith [functionRead_of]

@[spec] theorem readForeignParams_runs (fuel : Nat) (before : Reading) :
    Runs (before.cursor.Within 1 fuel) before (fun _ => Passes before) (readForeignParams fuel) :=
      by
  induction fuel generalizing before with
  | zero =>
    mvcgen -trivial [readForeignParams]
    grind -ring -linarith
  | succ fuel inner =>
    apply Runs.intro
    mvcgen -trivial [readForeignParams, inner] <;> clear inner <;> grind -ring -linarith

@[spec] theorem readAttributes_runs (fuel : Nat) (known : Attributes) (before : Reading) :
    Runs (before.cursor.Within 1 fuel) before
      (fun _ after => before.cursor.Onward 0 after.cursor ∧
        after.nodes = before.nodes) (readAttributes fuel known) := by
  induction fuel generalizing known before with
  | zero =>
    mvcgen -trivial [readAttributes]
    grind -ring -linarith
  | succ fuel inner =>
    apply Runs.intro
    mvcgen -trivial [readAttributes, inner] <;> clear inner <;> grind -ring -linarith [attribute?]

@[spec] theorem attributes_runs (before : Reading) :
    Runs before.cursor.Ends before (fun _ after => before.cursor.Onward 0 after.cursor ∧
      after.nodes = before.nodes) attributes := by
  apply Runs.intro
  mvcgen -trivial [attributes] <;> grind -ring -linarith

/-! Declarations. -/

section
variable (attributes : Attributes) (line : Nat) (before : Reading)

@[spec] theorem foreign_runs :
    Runs before.cursor.Ends before (prog.Reads before) (foreign prog attributes line) := by
  apply Runs.intro
  mvcgen -trivial [foreign] <;> grind -ring -linarith [Program.Reads.foreign]

variable (owner : String)

@[spec] theorem members_runs :
    Runs before.cursor.Ends before (fun _ => Passes before) (parenthesized (member owner line)) :=
      by
  have step (items : List Field) (before : Reading) (_ : False → before.cursor.Lexed) (_ : True) :
      Runs before.cursor.Ends before (fun _ after => Passes before after ∧ True) (member owner line items) := by
    apply Runs.intro
    mvcgen -trivial [member] <;> grind -ring -linarith
  simpa only [and_true] using parenthesized_runs step trivial before False.elim

@[spec] theorem structure_runs :
    Runs before.cursor.Ends before (prog.Reads before) (structure_ prog attributes line) := by
  apply Runs.intro
  mvcgen -trivial [structure_] <;> grind -ring -linarith [Program.Reads.ofStructure]

@[spec] theorem typeAlias_runs :
    Runs before.cursor.Ends before (prog.Reads before) (typeAlias prog attributes line) := by
  apply Runs.intro
  mvcgen -trivial [typeAlias] <;> grind -ring -linarith [Program.Reads.ofAlias]

attribute [spec] enumValue

@[spec] theorem enumFields_runs :
    Runs before.cursor.Ends before (fun _ => Passes before)
      (parenthesized (enumField owner line)) := by
  have step (items : List EnumField) (before : Reading) (_ : False → before.cursor.Lexed) (_ : True) :
      Runs before.cursor.Ends before (fun _ after => Passes before after ∧ True) (enumField owner line items) := by
    apply Runs.intro
    mvcgen -trivial [enumField] <;> grind -ring -linarith
  simpa only [and_true] using parenthesized_runs step trivial before False.elim

@[spec] theorem enumeration_runs :
    Runs before.cursor.Ends before (prog.Reads before) (enumeration prog attributes line) := by
  apply Runs.intro
  mvcgen -trivial [enumeration] <;> grind -ring -linarith [Program.Reads.ofEnumeration]

@[spec] theorem constant_runs :
    Runs before.cursor.Ends before (prog.Reads before) (constant prog attributes line) := by
  apply Runs.intro
  mvcgen -trivial [constant] <;> grind -ring -linarith [Program.Reads.ofConstant]

@[spec] theorem global_runs :
    Runs before.cursor.Ends before (prog.Reads before) (global prog attributes line) := by
  apply Runs.intro
  mvcgen -trivial [global] <;> grind -ring -linarith [Program.Reads.ofGlobal]

@[spec] theorem importRequest_runs :
    Runs before.cursor.Ends before (prog.Reads before) (importRequest prog attributes line) := by
  apply Runs.intro
  mvcgen -trivial [importRequest] <;> grind -ring -linarith [Program.Reads.requests]

@[spec] theorem method_runs (off : Nat) (methods : List Function) :
    Runs before.cursor.Ends before (fun found after =>
      FunctionRead prog attributes (some (owner, off)) before found after ∧
      found.signature ∉ methods.map Function.signature)
        (method prog attributes owner off methods) := by
  apply Runs.intro
  mvcgen -trivial [method] <;> grind -ring -linarith [Function.signature]

@[spec] theorem classField_runs (fields : List ClassField) :
    Runs before.cursor.Ends before (fun found after => Passes before after ∧
      found.name ∉ fields.map (·.name))
      (classField attributes owner fields) := by
  apply Runs.intro
  mvcgen -trivial [classField] <;> grind -ring -linarith

end

/-- The members so far are told apart, and every method has the offset of the class. -/
structure BodyRead (prog : Program) (owner : String) (off : Nat) (lexed : Prop) (first : Nat)
    (body : List ClassField × List Function) (next : Nat) : Prop where
  fields : (body.1.map (·.name)).Nodup
  methods : (body.2.map Function.signature).Nodup
  offsets : ∀ method ∈ body.2, method.classOffset = off
  takesThis : ∀ method ∈ body.2, method.TakesThis owner
  spelled : lexed → ∀ method ∈ body.2, method.Spelled prog.file
  made : Made lexed first (body.2.flatMap fun method => Stmt.rootsList method.body) next

theorem nodup_concat {items : List α} {item : α} (distinct : items.Nodup) (new : item ∉ items) :
    (items ++ [item]).Nodup := nodup_append_comm.mp (nodup_cons.mpr ⟨new, distinct⟩)

theorem BodyRead.none {owner : String} {off first : Nat} :
    BodyRead prog owner off lexed first ([], []) first :=
  ⟨.nil, .nil, forall_mem_nil _, forall_mem_nil _, fun _ => forall_mem_nil _, .nil _ _⟩

theorem BodyRead.reads {before after : Reading} {found : Class}
    (known : BodyRead prog found.name (prog.classes.length + 1) before.cursor.Lexed before.nodes
      (found.members, found.methods) after.nodes) (onward : before.cursor.Onward 1 after.cursor)
    (free : prog.declared? found.name = .none)
    (named : before.cursor.Lexed → Token.isWord found.name = true)
    (origin : found.origin = prog.file) (isImported : found.isImported = false) :
    prog.Reads before { prog with classes := prog.classes ++ [found] } after :=
  .ofClass onward known.made free ⟨known.fields, known.methods, known.offsets⟩
    fun lexed => ⟨named lexed, known.takesThis, known.spelled lexed, origin, isImported⟩

section
variable {owner : String} {off first next : Nat} {fields : List ClassField}
  {methods : List Function} (known : BodyRead prog owner off lexed first (fields, methods) next)
include known

theorem BodyRead.addField {found : ClassField} (unlike : found.name ∉ fields.map (·.name)) :
    BodyRead prog owner off lexed first (fields ++ [found], methods) next := by
  refine { known with fields := ?_ }
  rw [map_append]
  exact nodup_concat known.fields unlike

theorem BodyRead.addMethod {attributes : Attributes} {before after : Reading} {found : Function}
    (same : before.nodes = next) (given : lexed → before.cursor.Lexed)
    (named : lexed → Token.isWord owner = true)
    (read : FunctionRead prog attributes (some (owner, off)) before found after)
    (unlike : found.signature ∉ methods.map Function.signature) :
    BodyRead prog owner off lexed first (fields, methods ++ [found]) after.nodes where
  fields := known.fields
  methods := by
    rw [map_append]
    exact nodup_concat known.methods unlike
  offsets := forall_mem_append.mpr ⟨known.offsets, forall_mem_singleton.mpr read.written.offset⟩
  takesThis := forall_mem_append.mpr ⟨known.takesThis, forall_mem_singleton.mpr (read.takesThis _ rfl)⟩
  spelled told := by
    refine forall_mem_append.mpr ⟨known.spelled told, forall_mem_singleton.mpr (read.spelled (given told) ?_)⟩
    rintro cls ⟨⟩
    exact named told
  made := by
    rw [flatMap_append, flatMap_singleton]
    exact known.made.append (same ▸ read.made) given

end

grind_pattern BodyRead.addField => BodyRead prog owner off lexed first (fields ++ [found], methods) next
grind_pattern BodyRead.addMethod => BodyRead prog owner off lexed first (fields, methods) next,
  FunctionRead prog attributes (some (owner, off)) before found after

theorem readClassBody_runs (prog : Program) (owner : String) (off first : Nat) (lexed : Prop)
    (named : lexed → Token.isWord owner = true) (fuel : Nat) (fields : List ClassField)
    (methods : List Function) (before : Reading) (given : lexed → before.cursor.Lexed)
    (known : BodyRead prog owner off lexed first (fields, methods) before.nodes) :
    Runs (before.cursor.Within 1 fuel) before
      (fun body after => before.cursor.Onward 1 after.cursor ∧
        BodyRead prog owner off lexed first body after.nodes)
      (readClassBody prog owner off fuel fields methods) := by
  induction fuel generalizing fields methods before with
  | zero =>
    mvcgen -trivial [readClassBody]
    grind -ring -linarith
  | succ fuel inner =>
    apply Runs.intro
    mvcgen -trivial [readClassBody, inner] <;> clear inner <;> grind +splitImp -ring -linarith

@[spec] theorem objectClass_runs (attributes : Attributes) (line : Nat) (before : Reading) :
    Runs before.cursor.Ends before (prog.Reads before) (objectClass prog attributes line) := by
  have body (owner : String) :=
    readClassBody_runs prog owner (prog.classes.length + 1) before.nodes before.cursor.Lexed
  apply Runs.intro
  mvcgen -trivial [objectClass, body] <;> clear body <;> grind -ring -linarith [BodyRead.none, BodyRead.reads]

/-- One declaration is added, and it is new. -/
@[spec] theorem declaration_runs (attributes : Attributes) (before : Reading) :
    Runs before.cursor.Ends before (prog.Reads before) (declaration prog attributes) := by
  apply Runs.intro
  mvcgen -trivial [declaration] <;> grind -ring -linarith
    [Program.Reads.function, Program.Reads.requests, Program.Reads.same]

theorem declare_runs (prog : Program) (before : Reading) :
    Runs before.cursor.Ends before (prog.Reads before) (do declaration prog (← attributes)) := by
  apply Runs.intro
  mvcgen -trivial <;> grind -ring -linarith

end Parse

namespace Program
variable {prog : Program}

/-- What every declaration keeps, reading keeps, wherever it stops; that is at the end mark, or at a
fault of the text. -/
theorem extend_induct {motive : Reading → Program → Prop}
    (step : ∀ reading later before after, motive reading before → before.Reads reading after later →
      motive later after) (fuel : Nat) {reading : Reading} (start : motive reading prog) :
    (∃ later found, motive later found ∧
      (extend fuel reading prog).1 = { found with nodes := later.nodes }) ∧
    ∀ cause ∈ (extend fuel reading prog).2, cause.Due (reading.cursor.Ends ∧ reading.cursor.left < fuel) := by
  induction fuel generalizing reading prog with
  | zero =>
    refine ⟨⟨reading, prog, start, rfl⟩, fun cause fails => ?_⟩
    cases fails
    exact ⟨trivial, fun enough => absurd enough.2 (Nat.not_lt_zero _)⟩
  | succ fuel ih =>
    have skipped := reading.cursor.onward_skipNewlines
    have runs := Parse.declare_runs prog { reading with cursor := reading.cursor.skipNewlines }
    unfold extend
    extract_lets cursor declare
    split
    · exact ⟨⟨reading, prog, start, rfl⟩, fun _ none => nomatch none⟩
    · split
      · next extended between declares =>
        have reads : prog.Reads reading extended between := (runs.ok declares).skip skipped rfl
        obtain ⟨found, faults⟩ := ih (step _ _ _ _ start reads)
        refine ⟨found, fun cause fails => ?_⟩
        have due := faults cause fails
        have := reads.onward
        grind -ring -linarith
      · next fault declares =>
        refine ⟨⟨reading, prog, start, rfl⟩, fun cause fails => ?_⟩
        cases fails
        have due := runs.error declares
        grind -ring -linarith

theorem addTokens_keeps {motive : Program → Prop}
    (step : ∀ before after, motive before → before.Declares after → motive after)
    (tokens : List Token) (start : motive prog) : motive (prog.addTokens tokens).1 := by
  obtain ⟨⟨later, found, holds, same⟩, -⟩ := extend_induct (motive := fun _ => motive)
    (fun _ _ before after holds reads => step before after holds reads.declares) (tokens.length + 1) start
  rw [addTokens, same]
  exact step _ _ holds (SameTables.declares ⟨rfl, rfl, rfl, rfl, rfl, rfl, rfl, rfl, rfl⟩ rfl)

/-- Reading goes on with what is spelled, or stops at a fault of the text. -/
theorem addTokens_gains (prog : Program) {tokens : List Token}
    (lexed : ∀ token ∈ tokens, token.kind.Lexed) :
    prog.Gains (prog.addTokens tokens).1 ∧ ∀ cause ∈ (prog.addTokens tokens).2, cause.InText := by
  let first : Reading := ⟨.start prog.file tokens, prog.nodes⟩
  have start : first.cursor.Lexed ∧ prog.Gains prog := ⟨Cursor.lexed_start lexed, .refl prog⟩
  obtain ⟨⟨later, found, ⟨-, gains⟩, same⟩, faults⟩ := extend_induct
    (motive := fun reading found => reading.cursor.Lexed ∧ prog.Gains found)
    (fun _ _ _ _ known reads => ⟨reads.onward.1 known.1, known.2.trans (reads.gains known.1)⟩)
    (tokens.length + 1) start
  refine ⟨?_, fun cause fails => (faults cause fails).1⟩
  rw [addTokens, same]
  exact gains.trans (SameTables.gains ⟨rfl, rfl, rfl, rfl, rfl, rfl, rfl, rfl, rfl⟩)

end Program
end TernLang
