import ArrayKernels.Registry.Key

/-!
# Tables

A table holds values under a strategy and a target. Both levels are lists in the order of their
keys, every key at most once; a value put in under a key that is there already takes the old one's
place. What is not there is reported with the keys that are.
-/

namespace ArrayKernels

/-! ## Ordered keys -/

/-- Puts a value into a list that is in the order of its keys' ranks. -/
def insertRanked {κ α : Type} (rank : κ → Nat) (key : κ) (value : α) :
    List (κ × α) → List (κ × α)
  | [] => [(key, value)]
  | (k, v) :: rest =>
    if rank key < rank k then (key, value) :: (k, v) :: rest
    else if rank key = rank k then (key, value) :: rest
    else (k, v) :: insertRanked rank key value rest

/-- What has been put in is found under its key. -/
theorem lookup_insertRanked_self {κ α : Type} [DecidableEq κ] (rank : κ → Nat) (key : κ) (value : α)
    (entries : List (κ × α)) : (insertRanked rank key value entries).lookup key = some value := by
  induction entries with
  | nil => simp [insertRanked]
  | cons entry rest ih =>
    obtain ⟨k, v⟩ := entry
    unfold insertRanked
    split
    · simp
    · split
      · simp
      · next hlt hne =>
        have hkey : (key == k) = false := beq_eq_false_iff_ne.2 fun h => hne (by rw [h])
        simp [List.lookup_cons, hkey, ih]

/-- What is found under another key stays the same. -/
theorem lookup_insertRanked_of_ne {κ α : Type} [DecidableEq κ] {rank : κ → Nat}
    (rank_inj : ∀ a b, rank a = rank b → a = b) {key other : κ} (h : other ≠ key) (value : α)
    (entries : List (κ × α)) :
    (insertRanked rank key value entries).lookup other = entries.lookup other := by
  have hother : (other == key) = false := beq_eq_false_iff_ne.2 h
  induction entries with
  | nil => simp [insertRanked, List.lookup_cons, hother]
  | cons entry rest ih =>
    obtain ⟨k, v⟩ := entry
    unfold insertRanked
    split
    · simp [List.lookup_cons, hother]
    · split
      · next heq =>
        obtain rfl : key = k := rank_inj _ _ heq
        simp [List.lookup_cons, hother]
      · simp only [List.lookup_cons, ih]

/-! ## Tables -/

/-- The values under one strategy. -/
abbrev TargetRow (α : Type) := List (Target × α)

/-- Values under a strategy and a target. -/
abbrev Table (α : Type) := List (Strategy × TargetRow α)

namespace Table

variable {α β : Type}

/-- The values under a strategy. -/
def row (t : Table α) (strategy : Strategy) : TargetRow α := (t.lookup strategy).getD []

/-- Puts a value in. -/
def insert (t : Table α) (strategy : Strategy) (target : Target) (value : α) : Table α :=
  insertRanked Strategy.rank strategy (insertRanked Target.rank target value (t.row strategy)) t

/-- The strategies that have values. -/
def strategies (t : Table α) : List Strategy := t.map (·.1)

/-- The targets that have values under a strategy. -/
def targets (t : Table α) (strategy : Strategy) : List Target := (t.row strategy).map (·.1)

/-- The number of values. -/
def size (t : Table α) : Nat := (t.flatMap (·.2)).length

/-- The table with a function applied to every value. -/
def mapValues (f : α → β) (t : Table α) : Table β :=
  t.map fun (strategy, row) => (strategy, row.map fun (target, value) => (target, f value))

/-- The value under a strategy and a target. -/
def find (t : Table α) (strategy : Strategy) (target : Target) : Except RequestError α :=
  match t.lookup strategy with
  | none => .error (.unsupportedBackend strategy.name (t.strategies.map Strategy.name))
  | some row =>
    match row.lookup target with
    | none =>
      .error (.unsupportedTarget strategy.name target.name ((t.targets strategy).map Target.name))
    | some value => .ok value

end Table

end ArrayKernels
