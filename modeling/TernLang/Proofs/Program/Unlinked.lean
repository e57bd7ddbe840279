import TernLang.Proofs.Program.Merging

/-! What a program links against is a list beside its declarations: no merge looks at it, so two
programs that differ in nothing else merge alike, clashes included. -/
namespace TernLang

variable (prog : Program)

/-- The declarations of a program, without what it links against. -/
def Program.unlinked : Program := { prog with dependencies := [] }

variable (other : Program) (isPublic : Bool)

namespace Merge
variable {α β : Type}

/-- What the program links against makes no difference to the work. -/
def Blind (work : Merge α) : Prop :=
  ∀ prog, work.run.run prog.unlinked = ((work.run.run prog).1, (work.run.run prog).2.unlinked)

namespace Blind

theorem pure (val : α) : Blind (Pure.pure val) := fun _ => rfl

theorem clash (name : String) (cat : Category) (loc : Location) : Blind (clash name cat loc) :=
  fun _ => rfl

theorem bind (first : Blind work) (andThen : ∀ val, Blind (next val)) : Blind (work >>= next) := by
  intro prog
  rw [ExceptT.run_bind, StateT.run_bind, StateT.run_bind, first prog]
  rcases work.run.run prog with ⟨outcome, between⟩
  cases outcome with
  | error cause => rfl
  | ok val => exact andThen val between

theorem get (alike : ∀ prog : Program, next prog.unlinked = next prog)
    (andThen : ∀ prog, Blind (next prog)) : Blind (MonadState.get >>= next) := by
  intro prog
  rw [run_get_bind, run_get_bind, alike]
  exact andThen prog prog

theorem change {change : Program → Program}
    (alike : ∀ prog : Program, change prog.unlinked = (change prog).unlinked) :
    Blind (modify change) :=
  fun prog => congrArg (Prod.mk _) (alike prog)

end Blind

theorem expectFree_blind (name : String) (loc : Location) : Blind (expectFree name loc) := by
  apply Blind.get (fun _ => rfl)
  intro prog
  cases prog.declared? name with
  | some cat => exact .clash name cat loc
  | none => exact .pure ()

theorem addOnce_blind {known : Program → Bool} (alike : ∀ prog, known prog.unlinked = known prog)
    (adds : ∀ prog, add prog.unlinked = (add prog).unlinked) :
    Blind (addOnce known name loc add) := by
  apply Blind.get
  · intro prog
    rw [alike]
  · intro prog
    split
    · exact .pure ()
    · exact (expectFree_blind name loc).bind fun _ => .change adds

theorem expectFreeCallable_blind (name : String) (params : List TypeName) (loc : Location) :
    Blind (expectFreeCallable name params loc) := by
  apply Blind.get (fun _ => rfl)
  intro prog
  split
  · exact .clash _ _ _
  · split
    · exact .clash _ _ _
    · split
      · exact .clash _ _ _
      · exact .pure ()

theorem addExternal_blind (ext : External) : Blind (addExternal ext) := by
  apply Blind.get (fun _ => rfl)
  intro prog
  dsimp only
  split
  · exact .pure ()
  · exact (expectFreeCallable_blind _ _ _).bind fun _ => .change fun _ => rfl

theorem addRecord_blind (entry : ImportRecord) : Blind (addRecord entry) := by
  apply Blind.change
  intro prog
  change (if prog.imports.any _ then prog.unlinked else _) = Program.unlinked (if prog.imports.any _ then prog else _)
  split
  · rfl
  · rfl

theorem inOrder_blind {steps : List (Merge Unit)} (each : ∀ step ∈ steps, Blind step) :
    Blind (inOrder steps) := by
  induction steps with
  | nil => exact .pure ()
  | cons step rest ih =>
    obtain ⟨first, later⟩ := List.forall_mem_cons.mp each
    exact first.bind fun _ => ih later

theorem steps_blind : ∀ step ∈ steps other.unlinked isPublic, Blind step := by
  refine forall_steps (fun _ => rfl) (fun _ => rfl) (addRecord_blind _) (fun _ _ _ => addRecord_blind _)
    (fun _ _ _ => addExternal_blind _) (fun _ _ _ => addExternal_blind _) ?_ ?_ ?_ ?_ ?_ ?_
  all_goals
    intros
    exact addOnce_blind (fun _ => rfl) fun _ => rfl

end Merge

namespace Program

theorem unlinked_addDependencies (deps : List Dependency) :
    (deps.foldl addDependency prog).unlinked = prog.unlinked := by
  induction deps generalizing prog with
  | nil => rfl
  | cons dep rest ih => exact ih (prog.addDependency dep)

theorem merge_eq : prog.merge other isPublic =
    (other.dependencies.foldl addDependency prog).merge other.unlinked isPublic := by
  obtain ⟨rest, here, there⟩ : ∃ rest,
      Merge.steps other isPublic = modify (fun prog => other.dependencies.foldl addDependency prog) :: rest ∧
      Merge.steps other.unlinked isPublic = modify id :: rest := ⟨_, rfl, rfl⟩
  rw [Program.merge, Program.merge, Merge.all_eq_inOrder, Merge.all_eq_inOrder, here, there]
  rfl

theorem merge_unlinked : prog.unlinked.merge other.unlinked isPublic =
    ((prog.merge other isPublic).1, (prog.merge other isPublic).2.unlinked) := by
  have blind := Merge.inOrder_blind (Merge.steps_blind other isPublic) (other.dependencies.foldl addDependency prog)
  rw [unlinked_addDependencies, ← Merge.all_eq_inOrder] at blind
  rw [merge_eq]
  exact blind

end Program
end TernLang
