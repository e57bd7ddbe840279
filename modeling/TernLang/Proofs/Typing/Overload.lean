import TernLang.Proofs.Typing.Aliases

/-! Which callable a call means. Candidates are tried in order, those without a tail first, and a
candidate is taken if every argument may go to its parameter or to the tail. -/
namespace TernLang

open Success List

namespace Signature

theorem dropLast_append_tail {params : List TypeName}
    (tailed : params.getLast?.bind TypeName.element? = some element) :
    params.dropLast ++ [.array element] = params := by
  obtain ⟨last, found, sliced⟩ := Option.bind_eq_some_iff.mp tailed
  cases last with
  | array => exact dropLast_append_getLast? _ (Option.some.inj sliced ▸ found)
  | named | pointer | function => contradiction

theorem declaredParams_ofFunction (fn : Function) (owner : Option Class) :
    (ofFunction fn owner).declaredParams = fn.paramTypes := by
  unfold ofFunction declaredParams
  cases tailed : fn.tail? with
  | none => rfl
  | some element =>
    refine dropLast_append_tail ?_
    unfold Function.tail? at tailed
    split at tailed
    · rw [Function.paramTypes, getLast?_map, ← tailed]
      cases fn.params.getLast? <;> rfl
    · contradiction

theorem declaredParams_ofExternal (ext : External) :
    (ofExternal ext).declaredParams = ext.params := by
  unfold ofExternal externalParams declaredParams
  cases ext.isVariadic with
  | false => rfl
  | true =>
    cases ext.isMangled with
    | false => rfl
    | true =>
      cases tailed : ext.params.getLast?.bind TypeName.element? with
      | none => rfl
      | some element => exact dropLast_append_tail tailed

theorem mem_declaredParams_of_drop {sig : Signature}
    (mem : param ∈ { sig with params := sig.params.drop 1 }.declaredParams) :
    param ∈ sig.declaredParams := by
  obtain ⟨_, _, params, _, variadic, _⟩ := sig
  cases variadic with
  | none | foreign => exact mem_of_mem_drop mem
  | tail element => exact mem_append.mpr ((mem_append.mp mem).imp_left mem_of_mem_drop)

end Signature

namespace Program

variable {prog : Program} {loc : Location} {args params : List TypeName} {sig : Signature}
  {signatures : List Signature}

def Resolvable (prog : Program) (loc : Location) (types : List TypeName) : Prop :=
  ∀ ty ∈ types, ∃ resolved, prog.resolve loc ty = .ok resolved

def Fits (prog : Program) (loc : Location) (src tgt : TypeName) : Prop :=
  ∃ joined, prog.joinInto loc src tgt = .ok (some joined)

/-- The number of arguments is right, and each may go to its parameter or to the element of the
tail. -/
structure Accepts (prog : Program) (loc : Location) (args : List TypeName)
    (sig : Signature) : Prop where
  count :
    if sig.isVariadic then args.length ≥ sig.params.length else args.length = sig.params.length
  fixed : ∀ pair ∈ args.zip sig.params, prog.Fits loc pair.1 pair.2
  tail : ∀ element, sig.variadic = .tail element → ∀ arg ∈ args.drop sig.params.length,
    prog.Fits loc arg element

theorem pairsJoin_ok (joins : prog.pairsJoin loc args params = .ok outcome) :
    outcome ↔ ∀ pair ∈ args.zip params, prog.Fits loc pair.1 pair.2 := by
  induction args generalizing params with
  | nil => simp_all [pairsJoin]
  | cons arg args ih =>
    cases params with
    | nil => simp_all [pairsJoin]
    | cons param params =>
      simp only [pairsJoin, bind_ok] at joins
      obtain ⟨found, first, joins⟩ := joins
      rw [zip_cons_cons, forall_mem_cons]
      cases found with
      | none => simp_all [Fits]
      | some joined =>
        rw [and_iff_right ⟨joined, first⟩]
        exact ih joins

theorem allJoin_eq (element : TypeName) :
    prog.allJoin loc element args = prog.pairsJoin loc args (args.map fun _ => element) := by
  induction args with
  | nil => rfl
  | cons arg args ih => rw [allJoin, ih, map_cons, pairsJoin]

theorem accepts_ok (accepts : prog.accepts loc args sig = .ok outcome) :
    outcome ↔ prog.Accepts loc args sig := by
  unfold Program.accepts at accepts
  extract_lets fixed fits at accepts
  by_cases enough : fits
  · simp only [decide_eq_true enough, Bool.not_true, Bool.false_eq_true, if_false, bind_ok] at accepts
    obtain ⟨paired, joins, accepts⟩ := accepts
    have joined := pairsJoin_ok joins
    cases paired with
    | false =>
      cases accepts
      exact iff_of_false Bool.false_ne_true fun accepted => Bool.false_ne_true (joined.mpr accepted.fixed)
    | true =>
      have fixed := joined.mp rfl
      cases tailed : sig.variadic with
      | tail element =>
        simp only [tailed, Bool.not_true, Bool.false_eq_true, if_false, allJoin_eq] at accepts
        rw [pairsJoin_ok accepts, ← map_prod_left_eq_zip, forall_mem_map]
        refine ⟨fun tail => ⟨enough, fixed, ?_⟩, fun accepted => accepted.tail element tailed⟩
        rintro _ found
        cases tailed.symm.trans found
        exact tail
      | none | foreign =>
        simp only [tailed] at accepts
        cases accepts
        exact ⟨fun _ => ⟨enough, fixed, by simp [tailed]⟩, fun _ => rfl⟩
  · simp only [decide_eq_false enough, Bool.not_false, if_true, pure_ok] at accepts
    subst accepts
    exact iff_of_false Bool.false_ne_true fun accepted => enough accepted.count

section
open scoped Classical

theorem firstAccepting_ok (found : prog.firstAccepting loc args signatures = .ok outcome) :
    outcome = signatures.find? (prog.Accepts loc args ·) := by
  induction signatures with
  | nil => exact (pure_ok.mp found).symm
  | cons first rest ih =>
    simp only [firstAccepting, bind_ok] at found
    obtain ⟨taken, accepted, found⟩ := found
    rw [find?_cons]
    cases taken with
    | true =>
      rw [decide_eq_true ((accepts_ok accepted).mp rfl)]
      exact (pure_ok.mp found).symm
    | false =>
      rw [decide_eq_false (mt (accepts_ok accepted).mpr Bool.false_ne_true)]
      exact ih found

end

/-- The callable that a call means, of several that it may mean. -/
structure Chooses (prog : Program) (loc : Location) (args : List TypeName)
    (candidates : List Signature)
    (outcome : Option Signature) : Prop where
  none_iff : outcome = none ↔ ∀ sig ∈ candidates, ¬prog.Accepts loc args sig
  accepted : ∀ found ∈ outcome, prog.Accepts loc args found
  /-- A callable with a tail gives way to all without one. -/
  fixedFirst : ∀ found ∈ outcome, found.isVariadic →
    ∀ other ∈ candidates, prog.Accepts loc args other →
    other.isVariadic
  /-- Otherwise the order of declaration decides. -/
  earliest : ∀ found ∈ outcome, ∃ before after, candidates = before ++ found :: after ∧
    ∀ other ∈ before, other.isVariadic = found.isVariadic → ¬prog.Accepts loc args other

variable {candidates : List Signature}

theorem Chooses.mem (chooses : prog.Chooses loc args candidates (some sig)) :
    sig ∈ candidates := by
  obtain ⟨before, after, rfl, -⟩ := chooses.earliest sig rfl
  exact mem_append_right before mem_cons_self

open scoped Classical in
/-- The first of those with a tail, or of those without, is the choice if no other comes before it.
-/
theorem chooses_of_find (first : some sig = candidates.find? fun other => other.isVariadic =
      tailed ∧ prog.Accepts loc args other)
    (strict : tailed → ∀ other ∈ candidates, prog.Accepts loc args other → other.isVariadic) :
    prog.Chooses loc args candidates (some sig) := by
  obtain ⟨taken, before, after, same, refused⟩ := find?_eq_some_iff_append.mp first.symm
  simp only [decide_eq_true_eq, Bool.not_eq_true', decide_eq_false_iff_not, not_and] at taken refused
  obtain ⟨rfl, accepted⟩ := taken
  have mem : sig ∈ candidates := same ▸ mem_append_right before mem_cons_self
  refine ⟨iff_of_false nofun fun none => none sig mem accepted, ?_, ?_, ?_⟩
  all_goals
    rintro _ ⟨⟩
  · exact accepted
  · exact strict
  · exact ⟨before, after, same, refused⟩

theorem choose_ok (found : prog.choose loc args candidates = .ok outcome) :
    prog.Chooses loc args candidates outcome := by
  classical
  simp only [choose, bind_ok] at found
  obtain ⟨first, chosen, found⟩ := found
  have strict := firstAccepting_ok chosen
  simp only [find?_filter, Bool.not_eq_true', decide_eq_true_eq] at strict
  cases first with
  | some other =>
    obtain rfl := pure_ok.mp found
    exact chooses_of_find strict (by simp)
  | none =>
    have loose := firstAccepting_ok found
    simp only [find?_filter, decide_eq_true_eq] at loose
    have tailed : ∀ other ∈ candidates, prog.Accepts loc args other → other.isVariadic := by
      have refused := find?_eq_none.mp strict.symm
      grind
    cases outcome with
    | some found => exact chooses_of_find loose fun _ => tailed
    | none =>
      refine ⟨iff_of_true rfl fun other mem accepted => ?_, by simp, by simp, by simp⟩
      have refused := find?_eq_none.mp loose.symm other mem
      exact refused (decide_eq_true ⟨tailed other mem accepted, accepted⟩)

/-! A choice is made wherever the types of the arguments and of the parameters resolve. -/

theorem joinInto_resolved {src tgt src' tgt' : TypeName} (given : prog.resolve loc src = .ok src')
    (wanted : prog.resolve loc tgt = .ok tgt') :
    prog.joinInto loc src tgt = .ok ((src'.join? tgt').map fun _ => tgt) := by
  rw [joinInto, join, given, wanted]
  rfl

section
variable (given : prog.Resolvable loc args)
include given

theorem pairsJoin_total (wanted : prog.Resolvable loc params) :
    ∃ outcome, prog.pairsJoin loc args params = .ok outcome := by
  induction args generalizing params with
  | nil => exact ⟨_, rfl⟩
  | cons arg args ih =>
    cases params with
    | nil => exact ⟨_, rfl⟩
    | cons param params =>
      obtain ⟨⟨arg', first⟩, given⟩ := forall_mem_cons.mp given
      obtain ⟨⟨param', second⟩, wanted⟩ := forall_mem_cons.mp wanted
      rw [pairsJoin, joinInto_resolved first second]
      cases arg'.join? param' with
      | none => exact ⟨_, rfl⟩
      | some => exact ih given wanted

theorem accepts_total (wanted : prog.Resolvable loc sig.declaredParams) :
    ∃ outcome, prog.accepts loc args sig = .ok outcome := by
  have fixed : ∀ param ∈ sig.params, param ∈ sig.declaredParams := by
    intro param mem
    unfold Signature.declaredParams
    split <;> simp [mem]
  obtain ⟨paired, joins⟩ := pairsJoin_total given fun param mem => wanted param (fixed param mem)
  unfold Program.accepts
  extract_lets count fits
  rw [joins]
  cases decide fits with
  | false => exact ⟨_, rfl⟩
  | true =>
    cases paired with
    | false => exact ⟨_, rfl⟩
    | true =>
      cases tailed : sig.variadic with
      | none | foreign => exact ⟨_, rfl⟩
      | tail element =>
        refine (congrArg (∃ outcome, · = Except.ok outcome) (allJoin_eq element)).mpr ?_
        refine pairsJoin_total (fun arg mem => given arg (mem_of_mem_drop mem)) (forall_mem_map.mpr fun _ _ => ?_)
        obtain ⟨_, resolves⟩ := wanted (.array element) (by simp [Signature.declaredParams, tailed])
        obtain ⟨resolved, resolves, -⟩ := resolve_array.mp resolves
        exact ⟨resolved, resolves⟩

end

theorem firstAccepting_total
    (total : ∀ sig ∈ signatures, ∃ outcome, prog.accepts loc args sig = .ok outcome) :
    ∃ outcome, prog.firstAccepting loc args signatures = .ok outcome := by
  induction signatures with
  | nil => exact ⟨_, rfl⟩
  | cons first rest ih =>
    obtain ⟨⟨outcome, accepts⟩, total⟩ := forall_mem_cons.mp total
    rw [firstAccepting, accepts]
    cases outcome with
    | true => exact ⟨_, rfl⟩
    | false => exact ih total

theorem choose_total (given : prog.Resolvable loc args)
    (wanted : ∀ sig ∈ candidates, prog.Resolvable loc sig.declaredParams) :
    ∃ outcome, prog.choose loc args candidates = .ok outcome := by
  have total (bucket : Signature → Bool) :=
    firstAccepting_total fun sig (mem : sig ∈ candidates.filter bucket) =>
      accepts_total given (wanted sig (mem_filter.mp mem).1)
  obtain ⟨first, chosen⟩ := total (! ·.isVariadic)
  rw [choose, chosen]
  cases first with
  | some => exact ⟨_, rfl⟩
  | none => exact total (·.isVariadic)

/-! Of the arguments only the resolved types count. -/

variable {args' : List TypeName}

section
variable (same : Forall₂ (prog.resolve loc · = prog.resolve loc ·) args args')
include same

theorem pairsJoin_congr (params : List TypeName) :
    prog.pairsJoin loc args params = prog.pairsJoin loc args' params := by
  induction same generalizing params with
  | nil => rfl
  | cons first _ ih =>
    cases params with
    | nil => rfl
    | cons => simp only [pairsJoin, joinInto, join, first, ih]

theorem accepts_congr : prog.accepts loc args = prog.accepts loc args' := by
  funext sig
  have rest := forall₂_drop sig.params.length same
  simp only [accepts, same.length_eq, pairsJoin_congr same, allJoin_eq, pairsJoin_congr rest, map_const',
    length_drop]

theorem choose_congr (candidates : List Signature) :
    prog.choose loc args candidates = prog.choose loc args' candidates := by
  have first (signatures : List Signature) :
      prog.firstAccepting loc args signatures = prog.firstAccepting loc args' signatures := by
    induction signatures with
    | nil => rfl
    | cons sig rest ih => rw [firstAccepting, firstAccepting, accepts_congr same, ih]
  simp only [choose, first]

end

/-- Some arguments are replaced by what they resolve to. -/
def Replaces (prog : Program) (loc : Location) (args args' : List TypeName) : Prop :=
  Forall₂ (fun arg arg' => arg' = arg ∨ prog.resolve loc arg = .ok arg') args args'

theorem choose_replaced (candidates : List Signature)
    (replaced : prog.Replaces loc args args') :
    prog.choose loc args' candidates = prog.choose loc args candidates := by
  refine (choose_congr (replaced.imp fun arg arg' same => ?_) candidates).symm
  rcases same with rfl | resolves
  · rfl
  · rw [resolves, resolve_resolved resolves]

/-! Candidates as they are declared. -/

/-- The declarations that a call asks, and each of them as the call sees it. -/
structure Offer (α : Type) where
  asks : α → Prop
  view : α → Signature

/-- Free functions of a name. -/
def Offer.functions (name : String) : Offer Function := ⟨(·.name = name), (.ofFunction · none)⟩

def Offer.externals (name : String) : Offer External := ⟨(·.name = name), .ofExternal⟩

/-- Methods of a name: those that are static, or the others, which are called without their `this`.
-/
def Offer.methods (cls : Class) (name : String) (isStatic : Bool) : Offer Function where
  asks method := method.name = name ∧ method.isStatic = isStatic
  view method :=
    let whole := Signature.ofFunction method (some cls)
    { whole with params := if isStatic then whole.params else whole.params.drop 1 }

section
variable {α : Type} (prog : Program) (loc : Location) (args : List TypeName) (offer : Offer α)

/-- No declaration takes the arguments, of those with a tail or of those without one. -/
def Refused (items : List α) (isVariadic : Bool) : Prop :=
  ∀ item ∈ items, offer.asks item → (offer.view item).isVariadic = isVariadic →
    ¬prog.Accepts loc args (offer.view item)

/-- It is the first declaration to take the arguments, of those with a tail or of those without one.
-/
def FirstOf (items : List α) (found : Signature) : Prop :=
  ∃ before item after, items = before ++ item :: after ∧ offer.asks item ∧ found = offer.view item ∧
    prog.Accepts loc args found ∧ prog.Refused loc args offer before found.isVariadic

/-- The choice among the declarations of a list. -/
structure MethodMeant (methods : List α) (outcome : Option Signature) : Prop where
  none_iff : outcome = none ↔ ∀ isVariadic, prog.Refused loc args offer methods isVariadic
  first : ∀ found ∈ outcome, prog.FirstOf loc args offer methods found
  /-- One with a tail gives way to all without. -/
  fixedFirst : ∀ found ∈ outcome, found.isVariadic → prog.Refused loc args offer methods false

/-- The choice among functions and externals of a name. -/
structure CallMeant (name : String) (outcome : Option Signature) : Prop where
  none_iff : outcome = none ↔ ∀ isVariadic,
    prog.Refused loc args (.functions name) prog.functions isVariadic ∧
      prog.Refused loc args (.externals name) prog.externals isVariadic
  /-- An external gives way to functions. -/
  first : ∀ found ∈ outcome, prog.FirstOf loc args (.functions name) prog.functions found ∨
    prog.FirstOf loc args (.externals name) prog.externals found ∧
      prog.Refused loc args (.functions name) prog.functions found.isVariadic
  /-- One with a tail gives way to all without. -/
  fixedFirst : ∀ found ∈ outcome, found.isVariadic →
    prog.Refused loc args (.functions name) prog.functions false ∧
      prog.Refused loc args (.externals name) prog.externals false

end

section
variable {α : Type} {offer : Offer α} {items : List α} {test : α → Bool} {found : Signature}
  {before after : List Signature} (asks : ∀ item, test item ↔ offer.asks item)
include asks

theorem refused_iff : prog.Refused loc args offer items isVariadic ↔
    ∀ sig ∈ (items.filter test).map offer.view, sig.isVariadic = isVariadic →
      ¬prog.Accepts loc args sig := by
  simp only [Refused, forall_mem_map, mem_filter, asks, and_imp]

theorem firstOf_split (same : (items.filter test).map offer.view = before ++ found :: after)
    (accepted : prog.Accepts loc args found) (refused : ∀ other ∈ before,
      other.isVariadic = found.isVariadic → ¬prog.Accepts loc args other) :
    prog.FirstOf loc args offer items found := by
  obtain ⟨first, rest, split, rfl, later⟩ := map_eq_append_iff.mp same
  obtain ⟨item, last, rfl, rfl, -⟩ := map_eq_cons_iff.mp later
  obtain ⟨early, late, rfl, rfl, tail⟩ := filter_eq_append_iff.mp split
  obtain ⟨skipped, others, rfl, none, asked, -⟩ := filter_eq_cons_iff.mp tail
  refine ⟨early ++ skipped, item, others, (append_assoc ..).symm, (asks item).mp asked, rfl, accepted, ?_⟩
  rw [refused_iff asks, filter_append, filter_eq_nil_iff.mpr none, append_nil]
  exact refused

end

theorem callMeant (found : prog.findCallable loc name args = .ok outcome) :
    prog.CallMeant loc args name outcome := by
  have chooses := choose_ok found
  have functions (isVariadic : Bool) : prog.Refused loc args (.functions name) prog.functions isVariadic ↔ _ :=
    refused_iff fun _ => beq_iff_eq
  have externals (isVariadic : Bool) : prog.Refused loc args (.externals name) prog.externals isVariadic ↔ _ :=
    refused_iff fun _ => beq_iff_eq
  refine ⟨?_, fun taken mem => ?_, fun taken mem tailed => ?_⟩
  · rw [chooses.none_iff, callablesNamed, forall_mem_append]
    simp only [functions, externals]
    exact ⟨fun none isVariadic => ⟨fun other mem _ => none.1 other mem, fun other mem _ => none.2 other mem⟩,
      fun none => ⟨fun other mem => (none _).1 other mem rfl, fun other mem => (none _).2 other mem rfl⟩⟩
  · have accepted := chooses.accepted taken mem
    obtain ⟨before, after, same, refused⟩ := chooses.earliest taken mem
    rw [callablesNamed, append_eq_append_iff] at same
    obtain ⟨middle, rfl, same⟩ | ⟨middle, same, later⟩ := same
    · exact .inr ⟨firstOf_split (fun _ => beq_iff_eq) same accepted fun other mem =>
        refused other (mem_append_right _ mem),
        (functions _).mpr fun other mem => refused other (mem_append_left _ mem)⟩
    · cases middle with
      | nil =>
        rw [append_nil] at same
        have externals : _ = [] ++ taken :: after := later.symm
        exact .inr ⟨firstOf_split (fun _ => beq_iff_eq) externals accepted (forall_mem_nil _),
          (functions _).mpr (same ▸ refused)⟩
      | cons first rest =>
        cases later
        exact .inl (firstOf_split (fun _ => beq_iff_eq) same accepted refused)
  · have fixed := forall_mem_append.mp (chooses.fixedFirst taken mem tailed)
    rw [functions, externals]
    exact ⟨fun other mem strict accepted => by simp [fixed.1 other mem accepted] at strict,
      fun other mem strict accepted => by simp [fixed.2 other mem accepted] at strict⟩

theorem methodMeant (found : prog.findMethod loc cls name args isStatic = .ok outcome) :
    prog.MethodMeant loc args (.methods cls name isStatic) cls.methods outcome := by
  have view : methodsNamed cls name isStatic =
      (cls.methods.filter fun method => method.name == name && method.isStatic == isStatic).map
        (Offer.methods cls name isStatic).view := by
    cases isStatic <;> rfl
  have asks (method : Function) : (method.name == name && method.isStatic == isStatic) ↔
      (Offer.methods cls name isStatic).asks method := by
    simp [Offer.methods]
  have chooses := choose_ok found
  rw [view] at chooses
  refine ⟨?_, fun taken mem => ?_, fun taken mem tailed => ?_⟩
  · simp only [chooses.none_iff, refused_iff asks]
    exact ⟨fun none isVariadic other mem _ => none other mem, fun none other mem => none _ other mem rfl⟩
  · obtain ⟨before, after, same, refused⟩ := chooses.earliest taken mem
    exact firstOf_split asks same (chooses.accepted taken mem) refused
  · rw [refused_iff asks]
    intro other among strict accepted
    simp [chooses.fixedFirst taken mem tailed other among accepted] at strict

/-- `def sum(numbers ...int)` and `def sum(first Size)`, and `foreign sum(*ubyte, ...)`, where
`type Size = ulong`. -/
def sums : Program where
  file := ⟨"sums.tn"⟩
  aliases := [⟨"Size", .named "ulong", false, 1, ⟨"sums.tn"⟩⟩]
  functions := [
    ⟨"sum", [⟨"numbers", .array (.named "int")⟩], .void, [], false, false, false, false, true, 0, 2, ⟨"sums.tn"⟩⟩,
    ⟨"sum", [⟨"first", .named "Size"⟩], .void, [], false, false, false, false, false, 0, 3, ⟨"sums.tn"⟩⟩]
  externals := [⟨"sum", [.pointer (.named "ubyte")], .void, false, false, false, true, 4, ⟨"sums.tn"⟩⟩]

/-- `class Sum()` with the methods `def add(this *Sum, n int)` and `static def add(n int)`. -/
def sumClass : Class where
  name := "Sum"
  members := []
  methods := [
    ⟨"add", [⟨"this", .pointer (.named "Sum")⟩, ⟨"n", .named "int"⟩], .void, [], true, false, false,
      false, false, 1, 6, ⟨"sums.tn"⟩⟩,
    ⟨"add", [⟨"n", .named "int"⟩], .void, [], true, true, false, false, false, 1, 7, ⟨"sums.tn"⟩⟩]
  isPublic := true
  line := 5
  origin := ⟨"sums.tn"⟩

theorem firstDeclared_ok {wanted : List TypeName}
    (found : prog.firstDeclared loc wanted signatures = .ok (some sig)) : sig ∈ signatures := by
  induction signatures with
  | nil => simp [firstDeclared] at found
  | cons first rest ih =>
    simp only [firstDeclared, bind_ok] at found
    obtain ⟨resolved, -, found⟩ := found
    split at found
    · simp only [pure_ok, Option.some.injEq] at found
      exact found ▸ mem_cons_self
    · exact mem_cons_of_mem _ (ih found)

theorem findExact_ok {types : Option (List TypeName)}
    (found : prog.findExact loc name types = .ok (some sig)) : sig ∈ prog.callablesNamed name := by
  simp only [findExact] at found
  cases types with
  | none =>
    dsimp only at found
    split at found
    · cases found
    · next only =>
      cases found
      rw [only]
      exact mem_cons_self
    · contradiction
  | some types =>
    simp only [bind_ok] at found
    obtain ⟨wanted, -, found⟩ := found
    exact firstDeclared_ok found

end Program
end TernLang
