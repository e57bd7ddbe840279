import TernLang.Proofs.Machine.Growth

/-! Function pointers. The address of a function stands for its symbol, and goes on to do so for the
rest of the run. A call through it is a call of that symbol in the module that makes the call, which
need not mean what the symbol meant where the address was taken. -/
namespace TernLang.Machine

open Ir (Shape Value Instruction)
open Success

/-! Addresses of functions. -/

theorem functionTag_ne_zero (index : Nat) :
    (functionTag ||| index.toUInt64) &&& functionTag ≠ 0 := by
  rw [Ne, and_functionTag_eq_zero, UInt64.toNat_or]
  exact Nat.not_lt.mpr Nat.left_le_or

variable {index : Nat}

theorem toNat_functionTag (small : index < 2 ^ 63) :
    ((functionTag ||| index.toUInt64) ^^^ functionTag).toNat = index := by
  have plain : index.toUInt64.toNat = index := by
    exact Nat.mod_eq_of_lt (by omega)
  rw [UInt64.toNat_xor, UInt64.toNat_or, plain, show functionTag.toNat = 2 ^ 63 from rfl]
  refine Nat.eq_of_testBit_eq fun bit => ?_
  rw [Nat.testBit_xor, Nat.testBit_or, Nat.testBit_two_pow]
  by_cases top : 63 = bit
  · subst top
    simp [Nat.testBit_lt_two_pow small]
  · simp [top]

theorem functionAddress_ok (known : (functionAddress symbol).run store = .ok (addr, store')) :
    ∃ index : Nat, addr = functionTag ||| index.toUInt64 ∧
      store'.symbols[index]? = some symbol := by
  obtain ⟨_, _, got, known⟩ := run_bind_ok.mp known
  cases got
  dsimp only at known
  split at known
  · next index found =>
    cases known
    obtain ⟨less, same, -⟩ := List.findIdx?_eq_some_iff_getElem.mp found
    refine ⟨index, rfl, ?_⟩
    rw [List.getElem?_eq_getElem less]
    exact congrArg some (beq_iff_eq.mp same)
  · cases known
    exact ⟨store.symbols.length, rfl, List.getElem?_concat_length ..⟩

theorem Store.Grows.symbol {store store' : Store} (grows : store.Grows store') {symbol : String}
    (there : store.symbols[index]? = some symbol) : store'.symbols[index]? = some symbol := by
  obtain ⟨more, same⟩ := grows.symbols
  rw [← same, List.getElem?_append_left (List.getElem?_eq_some_iff.mp there).1, there]

namespace State

def Calls (state : State) (callee : Value) : Prop :=
  ∃ res ty args rest, state.frame.block.instructions = .call res callee ty args :: rest

/-- The next step is a call that goes to the target, or to the routine of the symbol if there is
none. -/
def Invokes (image : Image) (depth : Nat) (state : State) (symbol : String)
    (target : Option (Linked × Ir.Function)) : Prop :=
  ∃ res callee ty args rest, state.frame.block.instructions = .call res callee ty args :: rest ∧
    next image depth state =
      (invoke image depth (state.frame.behind rest) state.callers res symbol target args).run state.store

end State

section
variable {image : Image} {depth : Nat} {a : State} {store : Store} {callee : Value}

theorem invokes_direct (calls : a.Calls callee) (direct : callee.operand = .function symbol) :
    a.Invokes image depth symbol (image.definition? a.frame.home symbol) := by
  obtain ⟨res, ty, args, rest, code⟩ := calls
  refine ⟨res, callee, ty, args, rest, code, ?_⟩
  have known : calleeSymbol image (a.frame.behind rest) callee = pure symbol := by
    rw [calleeSymbol, direct]
  rw [next_call code, performCall_eq, known]
  rfl

theorem calleeSymbol_indirect (indirect : ∀ other, callee.operand ≠ .function other)
    (small : index < 2 ^ 63) (there : store.symbols[index]? = some symbol) (pointed : (evalWord
      image frame callee).run store = .ok (functionTag ||| index.toUInt64, store)) :
    (calleeSymbol image frame callee).run store = .ok (symbol, store) := by
  unfold calleeSymbol
  split
  · next other direct => exact absurd direct (indirect other)
  · rw [run_bind_of_ok pointed, if_neg (functionTag_ne_zero index), run_bind_of_ok (StateT.run_get store),
      toNat_functionTag small, there]
    rfl

theorem invokes_indirect (calls : a.Calls callee)
    (indirect : ∀ other, callee.operand ≠ .function other) (small : index < 2 ^ 63)
    (there : a.store.symbols[index]? = some symbol) (pointed : (evalWord image a.frame callee).run
      a.store = .ok (functionTag ||| index.toUInt64, a.store)) :
    a.Invokes image depth symbol (image.definition? a.frame.home symbol) := by
  obtain ⟨res, ty, args, rest, code⟩ := calls
  refine ⟨res, callee, ty, args, rest, code, ?_⟩
  have known : (calleeSymbol image (a.frame.behind rest) callee).run a.store = .ok (symbol, a.store) :=
    calleeSymbol_indirect indirect small there pointed
  rw [next_call code, performCall_eq, run_bind_of_ok known]
  rfl

end

namespace Image

/-- What a symbol means to modules that have no body for it. -/
def public? (image : Image) (symbol : String) : Option (Linked × Ir.Function) :=
  image.modules.findSome? fun linked => (linked.publicDefinition? symbol).map (linked, ·)

/-- Two modules mean the same by a symbol: they are one, or have no body for it, or one of them has
the body that the other one sees. -/
def Shares (image : Image) (symbol : String) (first second : Linked) : Prop :=
  first = second ∨ first.definition? symbol = none ∧ second.definition? symbol = none ∨
    (∃ fn, first.definition? symbol = some fn ∧ second.definition? symbol = none ∧
      image.public? symbol = some (first, fn)) ∨
    ∃ fn, second.definition? symbol = some fn ∧ first.definition? symbol = none ∧
      image.public? symbol = some (second, fn)

theorem definition?_own {image : Image} (own : home.definition? symbol = some fn) :
    image.definition? home symbol = some (home, fn) := by
  rw [definition?, own]

theorem definition?_public {image : Image} (none : home.definition? symbol = none) :
    image.definition? home symbol = image.public? symbol := by
  rw [definition?, none, public?]

theorem definition?_eq_iff (image : Image) (symbol : String) (first second : Linked) :
    image.definition? second symbol = image.definition? first symbol ↔
      image.Shares symbol first second := by
  unfold Shares
  cases here : first.definition? symbol with
  | none =>
    cases there : second.definition? symbol with
    | none => simp [definition?_public here, definition?_public there]
    | some fn =>
      have apart : first ≠ second := by
        rintro rfl
        cases here.symm.trans there
      simp [definition?_public here, definition?_own there, apart, eq_comm]
  | some fn =>
    cases there : second.definition? symbol with
    | none =>
      have apart : first ≠ second := by
        rintro rfl
        cases here.symm.trans there
      simp [definition?_own here, definition?_public there, apart]
    | some fn' =>
      rw [definition?_own here, definition?_own there]
      constructor
      · intro same
        exact .inl (Prod.mk.inj (Option.some.inj same)).1.symm
      · rintro (rfl | ⟨none, -⟩ | ⟨_, -, none, -⟩ | ⟨_, -, none, -⟩)
        · cases here.symm.trans there
          rfl
        · cases none
        · cases none
        · cases none

end Image

/-- A function value keeps its symbol, which means what it means to the module that calls it. -/
theorem function_pointers_by_symbol {image : Image} {depth : Nat} {a : State} {frame : Frame}
    {callers : List Caller} {store : Store} {val : Value} {symbol : String}
    (steps : next image depth a = .ok (.running frame callers, store)) (mem : val ∈ a.operands)
    (names : val.operand = .function symbol) (few : store.symbols.length ≤ 2 ^ 63) :
    (∀ (d : State) (direct : Value), d.Calls direct → direct.operand = .function symbol →
      d.Invokes image depth symbol (image.definition? d.frame.home symbol)) ∧
    ∃ addr, Evaluates image a.frame val (.pointer addr) a.store store ∧
      ∀ n c callee, Walk image depth n ⟨frame, callers, store⟩ c → c.Calls callee →
        (∀ other, callee.operand ≠ .function other) →
        (evalWord image c.frame callee).run c.store = .ok (addr, c.store) →
        c.Invokes image depth symbol (image.definition? c.frame.home symbol) ∧
        (image.definition? c.frame.home symbol = image.definition? a.frame.home symbol ↔
          image.Shares symbol a.frame.home c.frame.home) := by
  refine ⟨fun d direct calls names => invokes_direct calls names, ?_⟩
  obtain ⟨slot, early, late, before, known, behind⟩ := (next_visits steps).2 val mem
  have taken := known
  rw [eval, names] at taken
  obtain ⟨addr, _, given, taken⟩ := run_bind_ok.mp taken
  cases taken
  obtain ⟨index, rfl, there⟩ := functionAddress_ok given
  have listed := behind.symbol there
  have small := (List.getElem?_eq_some_iff.mp listed).1
  refine ⟨_, ⟨early, late, before, known, behind⟩, fun n c callee walk calls indirect pointed => ⟨?_, ?_⟩⟩
  · exact invokes_indirect calls indirect (by omega) (walk.grows.symbol listed) pointed
  · exact image.definition?_eq_iff symbol _ _

namespace Passing

/-- Two modules define the symbol, each for itself. -/
def pick (answer : UInt64) : Ir.Function :=
  { symbol := "pick", type := ⟨[.int 32], .int 32, false, false⟩,
    blocks := [{ label := "entry", terminator := some (.ret (some ⟨.int answer, .int 32⟩)) }] }

/-- Call with one argument and return the result. -/
def callBlock (callee arg : Value) : Ir.Block :=
  { label := "entry", instructions := [.call (some 0) callee ⟨[arg.type], .int 32, false, false⟩ [arg]],
    terminator := some (.ret (some ⟨.register 0, .int 32⟩)) }

def caller (symbol : String) (params : List IrType) (callee arg : Value) : Ir.Function :=
  { symbol, type := ⟨params, .int 32, false, false⟩, blocks := [callBlock callee arg] }

def picked : Value := ⟨.function "pick", .pointer⟩

def apply : Ir.Function := caller "apply" [.pointer] ⟨.argument 0, .pointer⟩ ⟨.int 0, .int 32⟩

def passed : Ir.Function := caller "passed" [] ⟨.function "apply", .pointer⟩ picked

/-- Calls the function it is given. -/
def library : Ir.Module :=
  { name := "library", functions := (Table.empty.insert "pick" (pick 2)).insert "apply" apply }

/-- Calls `pick` by its name, and by way of the library. -/
def chooser : Ir.Module :=
  { name := "chooser", functions := ((Table.empty.insert "pick" (pick 1)).insert "named"
      (caller "named" [] picked ⟨.int 0, .int 32⟩)).insert "passed" passed }

theorem passed_differs : execute chooser [library] "named" ⟨10, 4⟩ = .ok ⟨1, []⟩ ∧
    execute chooser [library] "passed" ⟨10, 4⟩ = .ok ⟨2, []⟩ := ⟨by rfl, by rfl⟩

def image : Image := ⟨[⟨chooser, .empty⟩, ⟨library, .empty⟩]⟩

/-- Before the call that passes the address. -/
def passing : State where
  frame := {
    home := ⟨chooser, .empty⟩
    function := passed
    block := callBlock ⟨.function "apply", .pointer⟩ picked
    args := [] }
  store := {}

/-- Behind it, where the library is about to use the address. -/
def applying : State where
  frame := {
    home := ⟨library, .empty⟩
    function := apply
    block := callBlock ⟨.argument 0, .pointer⟩ ⟨.int 0, .int 32⟩
    args := [.pointer functionTag] }
  callers := [⟨passing.frame.behind [], some 0⟩]
  store := { symbols := ["pick"] }

theorem passing_by_symbol :
    next image 4 passing = .ok (.running applying.frame applying.callers, applying.store) ∧
    ∃ addr, Evaluates image passing.frame picked (.pointer addr) passing.store applying.store ∧
      ∀ n c callee, Walk image 4 n applying c → c.Calls callee →
        (∀ other, callee.operand ≠ .function other) →
        (evalWord image c.frame callee).run c.store = .ok (addr, c.store) →
        c.Invokes image 4 "pick" (image.definition? c.frame.home "pick") ∧
        (image.definition? c.frame.home "pick" = image.definition? passing.frame.home "pick" ↔
          image.Shares "pick" passing.frame.home c.frame.home) := by
  have steps : next image 4 passing = .ok (.running applying.frame applying.callers, applying.store) := by rfl
  have mem : picked ∈ passing.operands := List.mem_singleton_self picked
  exact ⟨steps, (function_pointers_by_symbol steps mem rfl (by decide)).2⟩

end Passing
end TernLang.Machine
