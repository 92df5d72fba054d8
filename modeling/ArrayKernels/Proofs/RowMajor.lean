import ArrayKernels.Expr.Meaning
import ArrayKernels.Kernel.Env
import Mathlib.Data.List.Forall2

/-!
# Row-major layout

Facts about shapes that the checks of a call rest on. Sizes are words: an element count is exact or
missing, and strides saturate. Where the elements of an array can be counted and there is one at
all, nothing has saturated, and the strides lead to the row-major position.

## Main results

- `elementCount_eq`: an element count is the product of the extents, if that is a word.
- `flatOffset_eq_rowMajorPosition`: the position that the strides give is the row-major one.
- `rowMajorPosition_eq_some_iff`: positions below the element count and multi-indices inside the
  shape determine each other.
-/

namespace ArrayKernels

/-! ## Counting elements -/

theorem zero_not_mem_cons {extent : Nat} {inner : Shape} :
    0 ∉ extent :: inner ↔ 0 < extent ∧ 0 ∉ inner := by
  simp only [List.mem_cons, not_or, Nat.pos_iff_ne_zero, ne_eq, eq_comm (a := 0)]

/-- A product of extents is zero exactly if one of them is. -/
theorem prod_eq_zero_iff (shape : Shape) : shape.prod = 0 ↔ 0 ∈ shape := by
  rw [List.prod_eq_zero_iff_exists_zero_nat, exists_eq_right]

theorem prod_pos {shape : Shape} (h : 0 ∉ shape) : 0 < shape.prod :=
  Nat.pos_of_ne_zero fun hzero => h ((prod_eq_zero_iff shape).mp hzero)

/-- Checked multiplication of positive extents fails exactly if the product is no word. -/
private theorem foldlM_checkedMul {shape : Shape} (hpos : 0 ∉ shape) {acc : Nat}
    (hacc : acc < wordBound) :
    shape.foldlM checkedMul acc =
      if acc * shape.prod < wordBound then some (acc * shape.prod) else none := by
  induction shape generalizing acc with
  | nil =>
    simp only [List.foldlM_nil, List.prod_nil, Nat.mul_one, if_pos hacc]
    rfl
  | cons extent inner ih =>
    obtain ⟨-, hinner⟩ := zero_not_mem_cons.mp hpos
    simp only [List.foldlM_cons, checkedMul, List.prod_cons, ← Nat.mul_assoc]
    by_cases hstep : acc * extent < wordBound
    · rw [if_pos hstep]
      exact ih hinner hstep
    · -- no extent is zero, so the product does not become smaller any more
      have hle : acc * extent ≤ acc * extent * inner.prod :=
        Nat.le_mul_of_pos_right _ (prod_pos hinner)
      rw [if_neg hstep, if_neg (by omega)]
      rfl

theorem wordBound_pos : 0 < wordBound := by decide

/-- **An element count is exact**: the product of the extents, if that is a word. -/
theorem elementCount_eq (shape : Shape) :
    elementCount shape = if shape.prod < wordBound then some shape.prod else none := by
  unfold elementCount
  by_cases hzero : 0 ∈ shape
  · rw [if_pos hzero, (prod_eq_zero_iff shape).mpr hzero, if_pos wordBound_pos]
  · rw [if_neg hzero, foldlM_checkedMul hzero (by decide), Nat.one_mul]

theorem elementCount_eq_some_iff {shape : Shape} {n : Nat} :
    elementCount shape = some n ↔ shape.prod = n ∧ n < wordBound := by
  rw [elementCount_eq]
  split
  · next h =>
    simp only [Option.some.injEq]
    exact ⟨fun heq => ⟨heq, heq ▸ h⟩, fun heq => heq.1⟩
  · next h =>
    simp only [reduceCtorEq, false_iff]
    rintro ⟨rfl, hlt⟩
    exact h hlt

/-- An array that can be counted has fewer elements than there are words. -/
theorem prod_lt_of_elementCount {shape : Shape} (h : elementCount shape ≠ none) :
    shape.prod < wordBound := by
  rw [elementCount_eq] at h
  by_contra hlarge
  exact h (if_neg hlarge)

/-- If all elements can be counted, then block by block, too, even where the blocks alone or the
elements of a block alone cannot be counted. -/
theorem elementCount_mul_getD {outer inner : Shape} (h : (outer ++ inner).prod < wordBound) :
    (elementCount outer).getD 0 * (elementCount inner).getD 0 = (outer ++ inner).prod := by
  rw [List.prod_append] at h ⊢
  rw [elementCount_eq, elementCount_eq]
  by_cases houter : outer.prod < wordBound
  · by_cases hinner : inner.prod < wordBound
    · rw [if_pos houter, if_pos hinner]
      rfl
    · -- the inner product is too large only if the outer one is zero
      have hzero : outer.prod = 0 := by
        by_contra hpos
        have hle := Nat.le_mul_of_pos_left inner.prod (Nat.pos_of_ne_zero hpos)
        omega
      rw [if_pos houter, hzero, Nat.zero_mul, Option.getD_some, Nat.zero_mul]
  · have hzero : inner.prod = 0 := by
      by_contra hpos
      have hle := Nat.le_mul_of_pos_right outer.prod (Nat.pos_of_ne_zero hpos)
      omega
    rw [if_neg houter, hzero, Nat.mul_zero, Option.getD_none, Nat.zero_mul]

/-! ## Strides -/

/-- A stride over extents whose product is a word and not zero has not saturated. -/
theorem strideOver_eq_prod {shape : Shape} (hpos : 0 ∉ shape) (hcount : shape.prod < wordBound) :
    strideOver shape = shape.prod := by
  induction shape with
  | nil => rfl
  | cons extent inner ih =>
    obtain ⟨hextent, hinner⟩ := zero_not_mem_cons.mp hpos
    rw [List.prod_cons] at hcount ⊢
    have hle : inner.prod ≤ extent * inner.prod :=
      Nat.le_mul_of_pos_left _ hextent
    -- the strides of inner axes are no greater, so none of them has saturated either
    rw [strideOver, ih hinner (by omega), saturatingMul, Nat.mul_comm]
    exact Nat.min_eq_left (by omega)

theorem length_rowMajorStrides (shape : Shape) : (rowMajorStrides shape).length = shape.length := by
  induction shape with
  | nil => rfl
  | cons extent inner ih => rw [rowMajorStrides, List.length_cons, ih, List.length_cons]

/-! ## Positions -/

def InShape (shape : Shape) (index : List Nat) : Prop :=
  List.Forall₂ (fun extent i => i < extent) shape index

namespace InShape

theorem zero_not_mem {shape : Shape} {index : List Nat} (h : InShape shape index) : 0 ∉ shape := by
  unfold InShape at h
  induction h with
  | nil => exact List.not_mem_nil
  | cons hi _ ih => exact zero_not_mem_cons.mpr ⟨by omega, ih⟩

/-- A multi-index inside a shape has a position, which is below the number of elements. -/
theorem exists_position {shape : Shape} {index : List Nat} (h : InShape shape index) :
    ∃ position, rowMajorPosition shape index = some position ∧ position < shape.prod := by
  unfold InShape at h
  induction h with
  | nil => exact ⟨0, rfl, by simp⟩
  | @cons extent i shape index hi _ ih =>
    obtain ⟨inner, hinner, hlt⟩ := ih
    refine ⟨i * shape.prod + inner, ?_, ?_⟩
    · simp only [rowMajorPosition, hinner, Option.bind_eq_bind, Option.bind_some, if_pos hi]
      rfl
    · calc i * shape.prod + inner < i * shape.prod + shape.prod := by omega
        _ = (i + 1) * shape.prod := by rw [Nat.succ_mul]
        _ ≤ (extent :: shape).prod := by
          rw [List.prod_cons]; exact Nat.mul_le_mul_right _ hi

end InShape

/-- What has a position lies inside the shape. -/
theorem inShape_of_position {shape : Shape} {index : List Nat} {position : Nat}
    (h : rowMajorPosition shape index = some position) : InShape shape index := by
  fun_induction rowMajorPosition shape index generalizing position with
  | case1 => exact .nil
  | case2 extent shape i index ih =>
    obtain ⟨inner, hinner, hi⟩ := Option.bind_eq_some_iff.mp h
    split at hi
    · next hlt => exact .cons hlt (ih hinner)
    · cases hi
  | case3 => cases h

/-- **The strides lead to the row-major position**, where the elements of the shape can be
counted. -/
theorem flatOffset_eq_rowMajorPosition {shape : Shape} (hcount : shape.prod < wordBound)
    {table : IndexTable} {slots index : List Nat}
    (hslots : List.Forall₂ (fun slot i => table[slot]? = some i) slots index)
    (hin : InShape shape index) :
    flatOffset table slots (rowMajorStrides shape) = rowMajorPosition shape index := by
  have hpos : 0 ∉ shape := hin.zero_not_mem
  unfold InShape at hin
  induction hin generalizing slots with
  | nil =>
    cases hslots
    rfl
  | @cons extent i shape index hi _ ih =>
    cases hslots with
    | cons hslot hrest =>
      obtain ⟨hextent, hinner⟩ := zero_not_mem_cons.mp hpos
      have hle : shape.prod ≤ extent * shape.prod :=
        Nat.le_mul_of_pos_left _ hextent
      rw [List.prod_cons] at hcount
      have hinner_count : shape.prod < wordBound := by omega
      simp only [rowMajorStrides, flatOffset, hslot, ih hinner_count hrest hinner,
        strideOver_eq_prod hinner hinner_count, rowMajorPosition, if_pos hi, Option.bind_eq_bind,
        Option.bind_some]

/-- The position in an array of arrays. -/
theorem rowMajorPosition_append {outer inner : Shape} {i j : List Nat} {l p : Nat}
    (houter : rowMajorPosition outer i = some l) (hinner : rowMajorPosition inner j = some p) :
    rowMajorPosition (outer ++ inner) (i ++ j) = some (l * inner.prod + p) := by
  fun_induction rowMajorPosition outer i generalizing l with
  | case1 =>
    cases houter
    simpa using hinner
  | case2 extent outer x i ih =>
    obtain ⟨q, hq, hx⟩ := Option.bind_eq_some_iff.mp houter
    split at hx
    · next hlt =>
      cases hx
      simp only [List.cons_append, rowMajorPosition, ih hq, Option.bind_eq_bind, Option.bind_some,
        if_pos hlt, List.prod_append, Nat.add_mul, Nat.mul_assoc, Nat.add_assoc]
      rfl
    · cases hx
  | case3 => cases houter

/-! ## Multi-indices -/

/-- The multi-index at a position. -/
def unrank : Shape → Nat → List Nat
  | [], _ => []
  | extent :: inner, position => position / inner.prod % extent :: unrank inner position

/-- The multi-index depends on the position within the array only. -/
theorem unrank_add_mul (shape : Shape) (position turns : Nat) :
    unrank shape (position + turns * shape.prod) = unrank shape position := by
  induction shape generalizing turns with
  | nil => rfl
  | cons extent inner ih =>
    have hturns : turns * (extent :: inner).prod = turns * extent * inner.prod := by
      rw [List.prod_cons, Nat.mul_assoc]
    rw [unrank, unrank, hturns, ih]
    -- division by zero gives zero on both sides
    by_cases hinner : inner.prod = 0
    · simp [hinner]
    · rw [Nat.add_mul_div_right _ _ (Nat.pos_of_ne_zero hinner), Nat.add_mul_mod_self_right]

theorem unrank_mod (shape : Shape) (position : Nat) :
    unrank shape (position % shape.prod) = unrank shape position := by
  rw [← unrank_add_mul shape (position % shape.prod) (position / shape.prod), Nat.mul_comm,
    Nat.mod_add_div]

theorem position_lt {shape : Shape} {index : List Nat} {position : Nat}
    (h : rowMajorPosition shape index = some position) : position < shape.prod := by
  obtain ⟨position', hposition, hlt⟩ := (inShape_of_position h).exists_position
  rw [h, Option.some.injEq] at hposition
  rwa [hposition]

theorem unrank_position {shape : Shape} {index : List Nat} {position : Nat}
    (h : rowMajorPosition shape index = some position) : unrank shape position = index := by
  fun_induction rowMajorPosition shape index generalizing position with
  | case1 => rfl
  | case2 extent inner i index ih =>
    obtain ⟨p, hp, hi⟩ := Option.bind_eq_some_iff.mp h
    have hlt := position_lt hp
    split at hi
    · next hlt_extent =>
      cases hi
      -- the inner part of the position is below the inner size, so the quotient is the index
      rw [unrank, Nat.add_comm, unrank_add_mul, ih hp, Nat.add_mul_div_right _ _ (by omega),
        Nat.div_eq_of_lt hlt, Nat.zero_add, Nat.mod_eq_of_lt hlt_extent]
    · cases hi
  | case3 => cases h

theorem rowMajorPosition_unrank {shape : Shape} {position : Nat} (hlt : position < shape.prod) :
    rowMajorPosition shape (unrank shape position) = some position := by
  induction shape generalizing position with
  | nil =>
    simp only [List.prod_nil] at hlt
    obtain rfl : position = 0 := by omega
    rfl
  | cons extent inner ih =>
    rw [List.prod_cons] at hlt
    have hinner : 0 < inner.prod := Nat.pos_of_ne_zero fun h => by simp [h] at hlt
    have hdiv : position / inner.prod < extent := (Nat.div_lt_iff_lt_mul hinner).mpr hlt
    -- the inner multi-index depends on the remainder only
    have hrest := ih (Nat.mod_lt position hinner)
    rw [unrank_mod] at hrest
    simp only [unrank, rowMajorPosition, hrest, Option.bind_eq_bind, Option.bind_some,
      Nat.mod_eq_of_lt hdiv, if_pos hdiv]
    exact congrArg some (Nat.div_add_mod' position inner.prod)

/-- **Positions and multi-indices determine each other.** -/
theorem rowMajorPosition_eq_some_iff {shape : Shape} {index : List Nat} {position : Nat} :
    rowMajorPosition shape index = some position ↔
      position < shape.prod ∧ unrank shape position = index := by
  constructor
  · intro h
    exact ⟨position_lt h, unrank_position h⟩
  · rintro ⟨hlt, rfl⟩
    exact rowMajorPosition_unrank hlt

end ArrayKernels
