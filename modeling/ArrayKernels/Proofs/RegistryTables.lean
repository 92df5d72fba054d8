import ArrayKernels.Registry.Table
import Mathlib.Data.List.Sort

/-!
# Ordered tables

A table is two levels of lists in the order of their keys. An insertion keeps the order on both
levels and never leaves a strategy without values. So a table is determined by the value under each
strategy and target: its lists of keys are the keys that have a value, each of them once and in the
order of all keys, and a search fails exactly where there is no value.

## Main results

- `Table.value?_insert`: the value that is put in last is found, and all others stay.
- `Table.Ordered.insert`: what one insertion keeps.
- `Table.Ordered.strategies_eq`, `Table.Ordered.targets_eq`: the keys in their order.
- `Table.Ordered.find_eq`: a search finds the value, or names the keys that there are.
-/

namespace ArrayKernels

/-! ## Ordered lists -/

/-- The keys come in the order of their ranks, and none of them occurs twice. -/
def Ranked {κ α : Type} (rank : κ → Nat) (entries : List (κ × α)) : Prop :=
  entries.Pairwise fun a b => rank a.1 < rank b.1

section Ranked

variable {κ α : Type} {rank : κ → Nat} {key : κ} {value : α} {entries : List (κ × α)}

theorem mem_insertRanked {entry : κ × α} (h : entry ∈ insertRanked rank key value entries) :
    entry = (key, value) ∨ entry ∈ entries := by
  induction entries with
  | nil => exact .inl (List.mem_singleton.mp h)
  | cons first rest ih =>
    obtain ⟨k, v⟩ := first
    unfold insertRanked at h
    split at h
    · exact List.mem_cons.mp h
    · split at h
      · rcases List.mem_cons.mp h with hnew | hold
        · exact .inl hnew
        · exact .inr (List.mem_cons_of_mem _ hold)
      · rcases List.mem_cons.mp h with rfl | hrest
        · exact .inr List.mem_cons_self
        · exact (ih hrest).imp id (List.mem_cons_of_mem _)

theorem Ranked.insertRanked (h : Ranked rank entries) :
    Ranked rank (insertRanked rank key value entries) := by
  induction entries with
  | nil => exact List.pairwise_singleton _ _
  | cons first rest ih =>
    obtain ⟨k, v⟩ := first
    obtain ⟨hfirst, hrest⟩ := List.pairwise_cons.mp h
    unfold ArrayKernels.insertRanked
    split
    · next hlt =>
      -- the new key is below the first one, and so below all others
      refine List.pairwise_cons.mpr ⟨?_, h⟩
      intro entry hentry
      rcases List.mem_cons.mp hentry with rfl | hmem
      · exact hlt
      · exact Nat.lt_trans hlt (hfirst entry hmem)
    · split
      · next heq =>
        refine List.pairwise_cons.mpr ⟨?_, hrest⟩
        intro entry hentry
        exact heq ▸ hfirst entry hentry
      · next hlt hne =>
        refine List.pairwise_cons.mpr ⟨?_, ih hrest⟩
        intro entry hentry
        rcases mem_insertRanked hentry with rfl | hmem
        · show rank k < rank key
          omega
        · exact hfirst entry hmem

variable [DecidableEq κ]

/-- The keys of an ordered list are those under which something is found, in their order. -/
theorem Ranked.keys_eq (h : Ranked rank entries) {all : List κ}
    (hall : all.Pairwise fun a b => rank a < rank b) (hcomplete : ∀ k, k ∈ all) :
    entries.map (·.1) = all.filter fun k => (entries.lookup k).isSome := by
  have : Std.Irrefl fun a b : κ => rank a < rank b := ⟨fun _ => Nat.lt_irrefl _⟩
  have : Std.Antisymm fun a b : κ => rank a < rank b :=
    ⟨fun _ _ hab hba => absurd hab (Nat.lt_asymm hba)⟩
  have hkeys : (entries.map (·.1)).Pairwise fun a b => rank a < rank b :=
    List.pairwise_map.mpr h
  apply hkeys.eq_of_mem_iff (hall.filter _)
  intro k
  rw [List.mem_filter, List.lookup_isSome_iff, List.mem_map]
  constructor
  · rintro ⟨entry, hentry, rfl⟩
    exact ⟨hcomplete _, entry, hentry, beq_self_eq_true _⟩
  · rintro ⟨-, entry, hentry, hkey⟩
    exact ⟨entry, hentry, (eq_of_beq hkey).symm⟩

theorem lookup_map {β : Type} (f : α → β) (entries : List (κ × α)) (key : κ) :
    (entries.map fun (k, v) => (k, f v)).lookup key = (entries.lookup key).map f := by
  induction entries with
  | nil => rfl
  | cons first rest ih =>
    obtain ⟨k, v⟩ := first
    rw [List.map_cons, List.lookup_cons, List.lookup_cons, ih]
    split <;> rfl

end Ranked

/-! ## All keys -/

theorem Strategy.rank_injective : ∀ a b : Strategy, rank a = rank b → a = b := by
  intro a b
  cases a <;> cases b <;> decide

theorem Target.rank_injective : ∀ a b : Target, rank a = rank b → a = b := by
  intro a b
  cases a <;> cases b <;> decide

theorem Strategy.mem_all (strategy : Strategy) : strategy ∈ all := by cases strategy <;> decide

theorem Target.mem_all (target : Target) : target ∈ all := by cases target <;> decide

/-! ## Tables -/

namespace Table

variable {α : Type} {t : Table α} {strategy : Strategy} {target : Target}

/-- The value under a strategy and a target. -/
def value? (t : Table α) (strategy : Strategy) (target : Target) : Option α :=
  (t.row strategy).lookup target

/-- Both levels are in the order of their keys, and no strategy is without values. -/
structure Ordered (t : Table α) : Prop where
  strategies : Ranked Strategy.rank t
  targets : ∀ entry ∈ t, Ranked Target.rank entry.2
  nonempty : ∀ entry ∈ t, entry.2 ≠ []

theorem ordered_nil : Ordered ([] : Table α) :=
  ⟨List.Pairwise.nil, fun _ h => absurd h List.not_mem_nil, fun _ h => absurd h List.not_mem_nil⟩

theorem mem_of_lookup {row : TargetRow α} (h : t.lookup strategy = some row) :
    (strategy, row) ∈ t := by
  obtain ⟨before, after, rfl, -⟩ := List.lookup_eq_some_iff.mp h
  exact List.mem_append_right _ List.mem_cons_self

theorem Ordered.row (h : t.Ordered) (strategy : Strategy) :
    Ranked Target.rank (t.row strategy) := by
  unfold Table.row
  cases hrow : t.lookup strategy with
  | none => exact List.Pairwise.nil
  | some row => exact h.targets _ (mem_of_lookup hrow)

theorem insertRanked_ne_nil {κ : Type} (rank : κ → Nat) (key : κ) (value : α)
    (entries : List (κ × α)) : insertRanked rank key value entries ≠ [] := by
  cases entries with
  | nil => exact List.cons_ne_nil _ _
  | cons first rest =>
    unfold insertRanked
    split
    · exact List.cons_ne_nil _ _
    · split <;> exact List.cons_ne_nil _ _

/-- **An insertion keeps a table in order.** -/
theorem Ordered.insert (h : t.Ordered) (strategy : Strategy) (target : Target) (value : α) :
    (t.insert strategy target value).Ordered := by
  refine ⟨h.strategies.insertRanked, ?_, ?_⟩
  · intro entry hentry
    rcases mem_insertRanked hentry with rfl | hold
    · exact (h.row strategy).insertRanked
    · exact h.targets entry hold
  · intro entry hentry
    rcases mem_insertRanked hentry with rfl | hold
    · exact insertRanked_ne_nil _ _ _ _
    · exact h.nonempty entry hold

/-- **What is put in is found, and all other values stay.** -/
theorem value?_insert (t : Table α) (strategy other : Strategy) (target goal : Target) (value : α) :
    (t.insert strategy target value).value? other goal =
      if (other, goal) = (strategy, target) then some value else t.value? other goal := by
  unfold value? Table.row Table.insert
  by_cases hstrategy : other = strategy
  · subst hstrategy
    rw [lookup_insertRanked_self, Option.getD_some]
    by_cases htarget : goal = target
    · subst htarget
      rw [lookup_insertRanked_self, if_pos rfl]
    · rw [lookup_insertRanked_of_ne Target.rank_injective htarget]
      simp [htarget, Table.row]
  · rw [lookup_insertRanked_of_ne Strategy.rank_injective hstrategy]
    simp [hstrategy]

/-! ## Keys and searches -/

/-- A strategy is listed exactly if there is a value under it. -/
theorem Ordered.lookup_isSome_iff (h : t.Ordered) :
    (t.lookup strategy).isSome = true ↔ ∃ target, (t.value? strategy target).isSome = true := by
  unfold value? Table.row
  cases hrow : t.lookup strategy with
  | none => simp
  | some row =>
    -- the row has a first value
    obtain ⟨⟨target, value⟩, rest, hfirst⟩ :=
      List.exists_cons_of_ne_nil (h.nonempty _ (mem_of_lookup hrow))
    have hfirst : row = (target, value) :: rest := hfirst
    simp only [Option.isSome_some, Option.getD_some, true_iff]
    exact ⟨target, by rw [hfirst, List.lookup_cons_self]; rfl⟩

/-- The strategies are those under which there is a value, in their order. -/
theorem Ordered.strategies_eq (h : t.Ordered) :
    t.strategies = Strategy.all.filter fun strategy =>
      Target.all.any fun target => (t.value? strategy target).isSome := by
  unfold Table.strategies
  rw [h.strategies.keys_eq (by decide) Strategy.mem_all]
  refine List.filter_congr fun strategy _ => ?_
  rw [Bool.eq_iff_iff, h.lookup_isSome_iff, List.any_eq_true]
  constructor
  · rintro ⟨target, hvalue⟩
    exact ⟨target, Target.mem_all target, hvalue⟩
  · rintro ⟨target, -, hvalue⟩
    exact ⟨target, hvalue⟩

/-- The targets of a strategy are those under which it has a value, in their order. -/
theorem Ordered.targets_eq (h : t.Ordered) (strategy : Strategy) :
    t.targets strategy = Target.all.filter fun target => (t.value? strategy target).isSome :=
  (h.row strategy).keys_eq (by decide) Target.mem_all

theorem Ordered.mem_strategies_iff (h : t.Ordered) :
    strategy ∈ t.strategies ↔ ∃ target, (t.value? strategy target).isSome = true := by
  simp only [h.strategies_eq, List.mem_filter, Strategy.mem_all, true_and, List.any_eq_true,
    Target.mem_all]

/-- **A search finds the value, or names the keys that there are.** -/
theorem Ordered.find_eq (h : t.Ordered) (strategy : Strategy) (target : Target) :
    t.find strategy target =
      match t.value? strategy target with
      | some value => .ok value
      | none =>
        if strategy ∈ t.strategies then
          .error (.unsupportedTarget strategy.name target.name
            ((t.targets strategy).map Target.name))
        else .error (.unsupportedBackend strategy.name (t.strategies.map Strategy.name)) := by
  have hmem : strategy ∈ t.strategies ↔ (t.lookup strategy).isSome = true :=
    h.mem_strategies_iff.trans h.lookup_isSome_iff.symm
  unfold find value? Table.row
  cases hrow : t.lookup strategy with
  | none =>
    rw [hrow] at hmem
    simp [hmem]
  | some row =>
    rw [hrow] at hmem
    simp only [Option.getD_some, hmem, Option.isSome_some, if_true]
    cases row.lookup target <;> rfl

end Table

end ArrayKernels
