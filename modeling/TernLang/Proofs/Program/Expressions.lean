import TernLang.Proofs.Program.Reading
import TernLang.Proofs.Syntax.Rereading

/-! Expressions of a program. All that are read can be written, and one whose text is readable is
read from it again. -/
namespace TernLang

namespace Program
variable {prog : Program}

structure Written (prog : Program) : Prop where
  constants : ∀ constant ∈ prog.constants, constant.value.Written
  functions : ∀ fn ∈ prog.functions, ∀ expr ∈ Stmt.rootsList fn.body, expr.Written
  methods : ∀ cls ∈ prog.classes, ∀ method ∈ cls.methods,
    ∀ expr ∈ Stmt.rootsList method.body, expr.Written

theorem Written.plain (written : prog.Written) (mem : expr ∈ prog.expressions) : expr.Written := by
  obtain ⟨root, mem, inside⟩ := Expr.mem_nodesList.mp mem
  have whole : root.Written := by
    simp only [roots, List.mem_append, List.mem_map, List.mem_flatMap] at mem
    rcases mem with (⟨constant, mem, rfl⟩ | ⟨fn, mem, root⟩) | ⟨cls, mem, method, part, root⟩
    · exact written.constants constant mem
    · exact written.functions fn mem _ root
    · exact written.methods cls mem method part _ root
  exact fun node part => whole node (Expr.nodes_trans inside part)

theorem Written.gains (written : prog.Written) (gains : prog.Gains after) : after.Written where
  constants constant mem := (gains.constants.cases mem).elim (written.constants constant) id
  functions fn mem := (gains.functions.cases mem).elim (written.functions fn) (·.body)
  methods cls mem := (gains.classes.cases mem).elim (written.methods cls) fun spelled method mem =>
    (spelled.methods method mem).body

theorem written_empty (file : Path) : Written { file } := by
  constructor <;> exact List.forall_mem_nil _

theorem parse_written {file : Path} (parses : parse file src = .ok prog) : prog.Written := by
  obtain ⟨tokens, scans, reads⟩ := Success.bind_ok.mp parses
  have written := (written_empty file).gains (addTokens_gains { file } (Token.scan_lexed scans)).1
  split at reads
  · next found same =>
    cases reads
    rwa [same] at written
  · contradiction

theorem parse_inText {file : Path} (fails : parse file src = .error cause) : cause.InText := by
  rcases Success.bind_error.mp fails with scans | ⟨tokens, scans, reads⟩
  · exact Token.scan_inText scans
  · have faults := (addTokens_gains { file } (Token.scan_lexed scans)).2
    split at reads
    · contradiction
    · next found fault same =>
      cases reads
      exact faults cause (by rw [same]; rfl)

end Program

def Expr.reread (expr : Expr) (file : Path) : Except Error (Expr × Reading) := do
  let tokens ← Token.tokenize file expr.text
  Parse.expression.run { cursor := .start file tokens }

namespace Program

/-- An expression of a program, without floating-point numbers, is read from its text again, with
nothing left over, if its fixed counts are written as an `int` and no form in it takes in what
stands behind it. -/
theorem expressions_reread {file : Path} {src : String} {prog : Program}
    (parses : parse file src = .ok prog) {expr : Expr} (mem : expr ∈ prog.expressions)
    (exactly : ∀ node ∈ expr.nodes, node.isFloat = false)
    (fits : ∀ node ∈ expr.nodes, node.fitsCount = true) (readable : expr.readable .eof = true)
    (again : Path) :
    ∃ found pos nodes, expr.reread again = .ok (found, ⟨⟨again, ⟨.eof, pos⟩, []⟩, nodes⟩) ∧
      found.unmarked = expr.unmarked := by
  have written := (parse_written parses).plain mem
  have clear : ∀ node ∈ expr.nodes, node.Clear :=
    fun node part => ⟨written node part, exactly node part, fits node part⟩
  obtain ⟨tokens, pos, kinds, scans⟩ := (expr.spells_text clear).tokenize again
  obtain ⟨found, nodes, same, runs⟩ := Parse.expression_takes clear readable again 0 tokens ⟨.eof, pos⟩ [] kinds rfl
  refine ⟨found, pos, nodes, ?_, same⟩
  rw [Expr.reread, Success.bind_ok]
  exact ⟨_, scans, runs⟩

/-- A file with an expression that combines most forms. -/
def nested : String := "constant A = !(*t[-1].rows + new *int * (n % 4ul)) + cast long f::g(\"x\", $C, func &h(int))"

theorem nested_rereads :
    ∃ prog, (parse ⟨"nested.tern"⟩ nested).toOption = some prog ∧ ∃ expr ∈ prog.expressions,
    expr.nodes.length = 17 ∧ ∃ found pos nodes,
      expr.reread ⟨"again.tern"⟩ = .ok (found, ⟨⟨⟨"again.tern"⟩, ⟨.eof, pos⟩, []⟩, nodes⟩) ∧
        found.unmarked = expr.unmarked := by
  have known : ∃ prog, (parse ⟨"nested.tern"⟩ nested).toOption = some prog ∧ ∃ expr ∈ prog.expressions,
      expr.nodes.length = 17 ∧ (∀ node ∈ expr.nodes, node.isFloat = false) ∧
      (∀ node ∈ expr.nodes, node.fitsCount = true) ∧
        expr.readable .eof = true := by decide +kernel
  obtain ⟨prog, parses, expr, mem, size, exactly, fits, readable⟩ := known
  exact ⟨prog, parses, expr, mem, size,
    expressions_reread (Success.ok_of_toOption parses) mem exactly fits readable _⟩

end Program

/-! Texts that are read as something else. -/

namespace Expr

/-- The forms of all nodes, parts before wholes. -/
def forms (expr : Expr) : List Nat := expr.nodes.map (·.ctorIdx)

mutual

theorem nodes_unmarked (expr : Expr) : expr.unmarked.nodes = expr.nodes.map unmarked := by
  cases expr with
  | addressOf _ val | load _ val | not _ val | member _ val | cast _ _ val | allocateMany _ _ val =>
    simp [unmarked, nodes, nodes_unmarked val]
  | index _ val off => simp [unmarked, nodes, nodes_unmarked val, nodes_unmarked off]
  | binary _ _ left right => simp [unmarked, nodes, nodes_unmarked left, nodes_unmarked right]
  | call _ _ _ args | array _ args => simp [unmarked, nodes, nodes_unmarkedList args]
  | method _ val _ args => simp [unmarked, nodes, nodes_unmarked val, nodes_unmarkedList args]
  | _ => rfl

theorem nodes_unmarkedList (exprs : List Expr) :
    nodesList (unmarkedList exprs) = (nodesList exprs).map unmarked := by
  cases exprs with
  | nil => rfl
  | cons expr exprs => simp [unmarkedList, nodesList, nodes_unmarked expr, nodes_unmarkedList exprs]

end

theorem forms_unmarked (expr : Expr) : expr.unmarked.forms = expr.forms := by
  rw [forms, nodes_unmarked, List.map_map, forms]
  apply List.map_congr_left
  intro node _
  cases node <;> rfl

end Expr

namespace Program

/-- Forms in front of an access, allocations in front of arithmetic, and counts that are not written
as they were. -/
def misread : List String := [
  "constant A = (*p).x", "constant A = (&a)[0]", "constant A = (!a).f()", "constant A = (cast T a).x",
  "constant A = (new T) * 8", "constant A = (new T * 8) + 1", "constant A = (new T * n).x",
  "constant A = new T * (8)", "constant A = new T * 4000000000ui"]

/-- The file has an expression, without floating-point numbers, whose text is not read as the
expression again. -/
def Misreads (src : String) : Prop := ∃ prog, (parse ⟨"a.tern"⟩ src).toOption = some prog ∧
  ∃ expr ∈ prog.expressions, (∀ node ∈ expr.nodes, node.isFloat = false) ∧
    ∀ found reading, expr.reread ⟨"a.tern"⟩ = .ok (found, reading) → found.unmarked ≠ expr.unmarked

/-- Each of the conditions on the text is needed. -/
theorem misread_differ : misread.Forall Misreads := by
  have known : ∀ src ∈ misread, ∃ prog, (parse ⟨"a.tern"⟩ src).toOption = some prog ∧
      ∃ expr ∈ prog.expressions, (∀ node ∈ expr.nodes, node.isFloat = false) ∧
        (expr.reread ⟨"a.tern"⟩).toOption.map (·.1.forms) ≠ some expr.forms := by decide +kernel
  refine List.forall_iff_forall_mem.mpr fun src mem => ?_
  obtain ⟨prog, parses, expr, inside, exactly, differ⟩ := known src mem
  refine ⟨prog, parses, expr, inside, exactly, fun found reading reads same => differ ?_⟩
  rw [reads]
  change some found.forms = some expr.forms
  rw [← found.forms_unmarked, same, expr.forms_unmarked]

end Program
end TernLang
