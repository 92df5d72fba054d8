import ArrayKernels.Proofs.Traversal

/-!
# First faults

A check that goes through a list reports one fault, although many items can be at fault. It is the
fault of the first item that has one, where an item may be at fault because of the items before it.
A computation that stops at the first fault is put together from parts that do: here is what such a
fault is for a list that begins with an item, or that consists of two lists, and how a sequence of
two computations goes through two lists one after the other.

## Main results

- `firstFault_cons_iff`, `firstFault_append_iff`: the first fault of a list from those of its parts.
- `FailsWith.bind`, `FailsWith.bind_append`: a sequence fails with the first fault of its parts.
-/

namespace ArrayKernels

/-! ## The first fault of a list -/

/-- The first item with a fault, and this fault. -/
def FirstFault {α ε : Type} (Faulty : List α → α → ε → Prop) (items : List α) (fault : ε) : Prop :=
  ∃ before item after, items = before ++ item :: after ∧ Faulty before item fault ∧
    ∀ earlier other later, before = earlier ++ other :: later →
      ∀ fault, ¬Faulty earlier other fault

section FirstFault

variable {α ε : Type} {Faulty : List α → α → ε → Prop} {item : α} {items : List α} {fault : ε}

theorem not_firstFault_nil : ¬FirstFault Faulty [] fault := by
  rintro ⟨before, item, after, hsplit, -, -⟩
  simp at hsplit

/-- The first fault of a list is that of its first item, or of the others if the first one is
sound. -/
theorem firstFault_cons_iff :
    FirstFault Faulty (item :: items) fault ↔
      Faulty [] item fault ∨
        (∀ fault, ¬Faulty [] item fault) ∧
          FirstFault (fun before => Faulty (item :: before)) items fault := by
  constructor
  · rintro ⟨before, other, after, hsplit, hfaulty, hsound⟩
    cases before with
    | nil =>
      cases hsplit
      exact .inl hfaulty
    | cons first before =>
      -- the items before a first fault are sound, and this is one of them
      cases hsplit
      refine .inr ⟨hsound [] item before rfl, before, other, after, rfl, hfaulty, ?_⟩
      rintro earlier other later rfl
      exact hsound (item :: earlier) other later rfl
  · rintro (hfaulty | ⟨hitem, before, other, after, rfl, hfaulty, hsound⟩)
    · refine ⟨[], item, items, rfl, hfaulty, fun earlier other later hsplit => ?_⟩
      simp at hsplit
    · refine ⟨item :: before, other, after, rfl, hfaulty, fun earlier other later hsplit => ?_⟩
      cases earlier with
      | nil =>
        cases hsplit
        exact hitem
      | cons first earlier =>
        cases hsplit
        exact hsound earlier other later rfl

/-- A fault of the first item is the one that counts. -/
theorem firstFault_cons_of_faulty {own : ε} (h : ∀ fault, Faulty [] item fault ↔ fault = own) :
    FirstFault Faulty (item :: items) fault ↔ fault = own := by
  rw [firstFault_cons_iff, h]
  refine or_iff_left fun hsound => ?_
  exact hsound.1 own ((h own).mpr rfl)

/-- Behind a sound item the search goes on. -/
theorem firstFault_cons_of_sound (h : ∀ fault, ¬Faulty [] item fault) :
    FirstFault Faulty (item :: items) fault ↔
      FirstFault (fun before => Faulty (item :: before)) items fault := by
  rw [firstFault_cons_iff, or_iff_right (h fault)]
  exact and_iff_right h

/-- The first fault of two lists is that of the first list, or of the second one if the first one is
without faults. -/
theorem firstFault_append_iff {others : List α} :
    FirstFault Faulty (items ++ others) fault ↔
      FirstFault Faulty items fault ∨
        (∀ fault, ¬FirstFault Faulty items fault) ∧
          FirstFault (fun before => Faulty (items ++ before)) others fault := by
  -- the items that have been passed become part of what later items are judged by
  induction items generalizing Faulty with
  | nil => simp [not_firstFault_nil]
  | cons item items ih =>
    rw [List.cons_append, firstFault_cons_iff, ih]
    simp only [firstFault_cons_iff, List.cons_append]
    constructor
    · rintro (hitem | ⟨hitem, hitems | ⟨hitems, hothers⟩⟩)
      · exact .inl (.inl hitem)
      · exact .inl (.inr ⟨hitem, hitems⟩)
      · refine .inr ⟨fun fault hfault => ?_, hothers⟩
        rcases hfault with hfault | ⟨-, hfault⟩
        · exact hitem fault hfault
        · exact hitems fault hfault
    · rintro ((hitem | ⟨hitem, hitems⟩) | ⟨hsound, hothers⟩)
      · exact .inl hitem
      · exact .inr ⟨hitem, .inl hitems⟩
      · have hitem : ∀ fault, ¬Faulty [] item fault := fun fault hfault =>
          hsound fault (.inl hfault)
        exact .inr ⟨hitem, .inr ⟨fun fault hfault => hsound fault (.inr ⟨hitem, hfault⟩), hothers⟩⟩

/-- The first fault of a single item is its fault. -/
theorem firstFault_singleton_iff : FirstFault Faulty [item] fault ↔ Faulty [] item fault := by
  rw [firstFault_cons_iff]
  exact or_iff_left fun hlater => not_firstFault_nil hlater.2

/-- If the faults of an item are its own, a list has no first fault exactly if all its items are
sound. -/
theorem not_firstFault_iff {Faulty : α → ε → Prop} :
    (∀ fault, ¬FirstFault (fun _ => Faulty) items fault) ↔
      ∀ item ∈ items, ∀ fault, ¬Faulty item fault := by
  induction items with
  | nil => simp [not_firstFault_nil]
  | cons item items ih =>
    rw [List.forall_mem_cons, ← ih]
    simp only [firstFault_cons_iff]
    constructor
    · intro hsound
      have hitem : ∀ fault, ¬Faulty item fault := fun fault hfault => hsound fault (.inl hfault)
      exact ⟨hitem, fun fault hfault => hsound fault (.inr ⟨hitem, hfault⟩)⟩
    · rintro ⟨hitem, hitems⟩ fault (hfault | ⟨-, hfault⟩)
      · exact hitem fault hfault
      · exact hitems fault hfault

/-- The first fault by its position in the list. -/
theorem firstFault_iff_getElem? {Faulty : α → ε → Prop} :
    FirstFault (fun _ => Faulty) items fault ↔
      ∃ (i : Nat) (item : α), items[i]? = some item ∧ Faulty item fault ∧
        ∀ j < i, ∀ other, items[j]? = some other → ∀ fault, ¬Faulty other fault := by
  constructor
  · rintro ⟨before, item, after, rfl, hfaulty, hsound⟩
    refine ⟨before.length, item, by simp, hfaulty, fun j hj other hother => ?_⟩
    rw [List.getElem?_append_left hj] at hother
    obtain ⟨earlier, later, rfl⟩ := List.append_of_mem (List.mem_of_getElem? hother)
    exact hsound earlier other later rfl
  · rintro ⟨i, item, hitem, hfaulty, hsound⟩
    obtain ⟨hi, rfl⟩ := List.getElem?_eq_some_iff.mp hitem
    refine ⟨items.take i, items[i], items.drop (i + 1), by simp, hfaulty, ?_⟩
    intro earlier other later hsplit
    have hlength : earlier.length < i := by
      have hlength := congrArg List.length hsplit
      simp at hlength
      omega
    refine hsound earlier.length hlength other ?_
    rw [← List.getElem?_take_of_lt hlength, hsplit]
    simp

/-- The first fault of lists one behind the other is that of the first list that has one. -/
theorem firstFault_flatMap_iff {β : Type} {Faulty : α → ε → Prop} {f : β → List α} {xs : List β} :
    FirstFault (fun _ => Faulty) (xs.flatMap f) fault ↔
      FirstFault (fun _ x => FirstFault (fun _ => Faulty) (f x)) xs fault := by
  induction xs with
  | nil => exact iff_of_false not_firstFault_nil not_firstFault_nil
  | cons x xs ih => rw [List.flatMap_cons, firstFault_append_iff, firstFault_cons_iff, ih]

/-- A search through items that have faults of their own. -/
theorem findSome?_eq_some_iff_firstFault {β : Type} {search : β → Option ε}
    {Faulty : α → ε → Prop} {xs : List α} {ys : List β}
    (h : List.Forall₂ (fun x y => ∀ fault, search y = some fault ↔ Faulty x fault) xs ys) :
    ys.findSome? search = some fault ↔ FirstFault (fun _ => Faulty) xs fault := by
  induction h with
  | nil => exact iff_of_false (fun h => by cases h) not_firstFault_nil
  | @cons x y xs ys hxy _ ih =>
    rw [List.findSome?_cons]
    cases hsearch : search y with
    | none =>
      have hsound : ∀ fault, ¬Faulty x fault := by
        intro fault hfault
        cases hsearch.symm.trans ((hxy fault).mpr hfault)
      rw [firstFault_cons_of_sound hsound]
      exact ih
    | some own =>
      have hown : ∀ fault, Faulty x fault ↔ fault = own := by
        intro fault
        rw [← hxy, hsearch, Option.some.injEq, eq_comm]
      rw [firstFault_cons_of_faulty hown, Option.some.injEq, eq_comm]

end FirstFault

/-! ## Computations that stop at a fault -/

/-- The computation fails exactly with the faults that the condition allows. -/
def FailsWith {α ε : Type} (result : Except ε α) (Fault : ε → Prop) : Prop :=
  ∀ fault, result = .error fault ↔ Fault fault

namespace FailsWith

variable {α β ε : Type} {result : Except ε α} {next : α → Except ε β} {First Second : ε → Prop}

theorem ok {a : α} (h : ∀ fault, ¬First fault) : FailsWith (.ok a) First :=
  fun fault => iff_of_false (fun hfault => by cases hfault) (h fault)

theorem error {own : ε} (h : ∀ fault, First fault ↔ fault = own) :
    FailsWith (.error own : Except ε α) First := by
  intro fault
  rw [h, Except.error.injEq, eq_comm]

theorem congr (h : FailsWith result First) (heq : ∀ fault, First fault ↔ Second fault) :
    FailsWith result Second :=
  fun fault => (h fault).trans (heq fault)

/-- Where there is a result, there is no fault. -/
theorem not_fault_of_eq_ok (h : FailsWith result First) {a : α} (ha : result = .ok a) (fault : ε) :
    ¬First fault := by
  intro hfault
  cases ha.symm.trans ((h fault).mpr hfault)

/-- Without a fault there is a result. -/
theorem exists_ok_iff (h : FailsWith result First) :
    (∃ a, result = .ok a) ↔ ∀ fault, ¬First fault := by
  constructor
  · rintro ⟨a, ha⟩
    exact h.not_fault_of_eq_ok ha
  · intro hsound
    cases hresult : result with
    | ok a => exact ⟨a, rfl⟩
    | error fault => exact absurd ((h fault).mp hresult) (hsound fault)

/-- **A sequence fails with the fault of its first part**, or else with that of its second part. -/
theorem bind (h : FailsWith result First)
    (hnext : ∀ a, result = .ok a → FailsWith (next a) Second) :
    FailsWith (result >>= next) fun fault =>
      First fault ∨ (∀ fault, ¬First fault) ∧ Second fault := by
  intro fault
  rw [bind_eq_error_iff, h fault]
  refine or_congr_right ⟨?_, ?_⟩
  · rintro ⟨a, ha, hfault⟩
    exact ⟨h.not_fault_of_eq_ok ha, (hnext a ha fault).mp hfault⟩
  · rintro ⟨hsound, hfault⟩
    obtain ⟨a, ha⟩ := h.exists_ok_iff.mpr hsound
    exact ⟨a, ha, (hnext a ha fault).mpr hfault⟩

/-- What cannot fail any more changes no fault. -/
theorem bind_ok (h : FailsWith result First) {f : α → β} :
    FailsWith (result >>= fun a => .ok (f a)) First := by
  have hnext (a : α) : FailsWith (.ok (f a) : Except ε β) fun _ => False := ok fun _ => id
  refine (h.bind fun a _ => hnext a).congr fun fault => ?_
  simp

/-! ### Along a list -/

section List

variable {γ : Type} {Faulty : γ → ε → Prop} {item : γ} {items others : List γ}

/-- It fails at the first item. -/
theorem error_cons {own : ε} (h : ∀ fault, Faulty item fault ↔ fault = own) :
    FailsWith (.error own : Except ε α) (FirstFault (fun _ => Faulty) (item :: items)) :=
  error fun _ => firstFault_cons_of_faulty h

/-- It passes a sound item. -/
theorem cons (h : ∀ fault, ¬Faulty item fault)
    (hrest : FailsWith result (FirstFault (fun _ => Faulty) items)) :
    FailsWith result (FirstFault (fun _ => Faulty) (item :: items)) := by
  refine hrest.congr fun fault => ?_
  rw [firstFault_cons_of_sound h]

/-- It goes through one list after the other. -/
theorem bind_append (h : FailsWith result (FirstFault (fun _ => Faulty) items))
    (hnext : ∀ a, result = .ok a → FailsWith (next a) (FirstFault (fun _ => Faulty) others)) :
    FailsWith (result >>= next) (FirstFault (fun _ => Faulty) (items ++ others)) :=
  (h.bind hnext).congr fun _ => firstFault_append_iff.symm

end List

end FailsWith

end ArrayKernels
