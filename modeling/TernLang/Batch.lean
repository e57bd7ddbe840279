/-! Independent work in batches. Items are split into contiguous ranges, one a worker; the
results come back in item order and the first failure in that order wins. -/
namespace TernLang.Batch

/-- There is always a worker. -/
def workers (asked : Nat) : Nat := max asked 1

/-- Every worker gets an equal share, the last one also what is left over; empty ranges are
dropped. A range is its start and its end. -/
def ranges (total asked : Nat) : List (Nat × Nat) :=
  let count := workers asked
  let share := total / count
  let range (worker : Nat) : Nat × Nat :=
    (worker * share, if worker + 1 = count then total else worker * share + share)
  ((List.range count).map range).filter fun (first, last) => first < last

/-- The results if there is no failure, else the first failure. -/
def collect {ε α : Type} : List (Except ε α) → Except ε (List α)
  | [] => .ok []
  | .error e :: _ => .error e
  | .ok a :: rest => (collect rest).map (a :: ·)

/-- Apply a fallible function to every item, range by range. -/
def run {ε α β : Type} (asked : Nat) (items : List α) (work : α → Except ε β) : Except ε (List β) :=
  let batches := (ranges items.length asked).map fun (first, last) =>
    ((items.drop first).take (last - first)).map work
  collect batches.flatten

end TernLang.Batch
