/-! Insertion-ordered tables. Writing a key that is present replaces its value
in place; a new key goes to the end, so iteration follows first insertion. -/
namespace TernLang

structure Table (κ : Type) (α : Type) where
  entries : List (κ × α) := []

namespace Table
variable {κ α : Type} [DecidableEq κ]

def empty : Table κ α := {}

instance : Inhabited (Table κ α) := ⟨empty⟩

def size (table : Table κ α) : Nat := table.entries.length

def isEmpty (table : Table κ α) : Bool := table.entries.isEmpty

def keys (table : Table κ α) : List κ := table.entries.map (·.1)

def values (table : Table κ α) : List α := table.entries.map (·.2)

/-- The value of the first entry with this key. -/
def find (key : κ) : List (κ × α) → Option α
  | [] => none
  | (k, a) :: rest => if k = key then some a else find key rest

def put (key : κ) (val : α) : List (κ × α) → List (κ × α)
  | [] => [(key, val)]
  | (k, a) :: rest => if k = key then (k, val) :: rest else (k, a) :: put key val rest

def get? (table : Table κ α) (key : κ) : Option α := find key table.entries

def contains (table : Table κ α) (key : κ) : Bool := (table.get? key).isSome

def insert (table : Table κ α) (key : κ) (val : α) : Table κ α :=
  ⟨put key val table.entries⟩

/-- Keep the value that is already there. -/
def insertNew (table : Table κ α) (key : κ) (val : α) : Table κ α :=
  if table.contains key then table else table.insert key val

theorem find_put_self (key : κ) (val : α) (entries : List (κ × α)) :
    find key (put key val entries) = some val := by
  induction entries with
  | nil => simp [put, find]
  | cons entry rest ih =>
    obtain ⟨k, a⟩ := entry
    by_cases h : k = key <;> simp [put, find, h, ih]

theorem find_put_of_ne {key other : κ} (ne : other ≠ key) (val : α) (entries : List (κ × α)) :
    find other (put key val entries) = find other entries := by
  induction entries with
  | nil => simp [put, find, Ne.symm ne]
  | cons entry rest ih =>
    obtain ⟨k, a⟩ := entry
    by_cases h : k = key
    · subst h
      simp [put, find, Ne.symm ne]
    · simp [put, find, h, ih]

@[simp] theorem get?_insert_self (table : Table κ α) (key : κ) (val : α) :
    (table.insert key val).get? key = some val :=
  find_put_self key val table.entries

theorem get?_insert_of_ne {key other : κ} (ne : other ≠ key) (table : Table κ α) (val : α) :
    (table.insert key val).get? other = table.get? other :=
  find_put_of_ne ne val table.entries

end Table
end TernLang
