import ArrayKernels.NdArray
import ArrayKernels.Proofs.RowMajor
import Mathlib.Algebra.Order.BigOperators.Group.List
import Mathlib.Algebra.Order.Ring.Nat
import Mathlib.Data.Set.Function
import Mathlib.Order.Interval.Set.Defs

/-!
# Exact sizes

Element counts, strides and offsets are computed with words, which can overflow or saturate. Here is
what they are as numbers. An element count is the product of the extents as long as that is a word.
If the elements of a shape can be counted and there are any, then no stride saturates, and the sum
over the products of indices and strides numbers the multi-indices of the shape in lexicographic
order, without a gap and without a step on the way that leaves the range.

## Layers

- **Arrays**: which data a shape fits.
- **Strides**: every stride is the product of the extents inside of its axis.
- **Offsets**: the sum that a read computes, and the position that it gives.

## Main results

- `getElem?_rowMajorStrides`: the strides as products.
- `rowMajorPosition_eq_offset`: the offset of a multi-index is its row-major position.
- `lex_iff_position_lt`: positions are in lexicographic order.
- `sizes_and_strides_exact`: all of it together.
-/

namespace ArrayKernels

/-! ## Arrays -/

/-- An array is made exactly if the product of its extents is the number of its elements. -/
theorem NdArray.ofShape_cases (shape : Shape) {data : Array Float} (hdata : data.size < wordBound) :
    (shape.prod = data.size ∧
      ∃ a, ofShape shape data = .ok a ∧ a.shape = shape ∧ a.data = data) ∨
    (shape.prod ≠ data.size ∧ ofShape shape data = .error (.shapeMismatch shape data.size)) := by
  unfold ofShape
  by_cases hcount : elementCount shape = some data.size
  · rw [dif_pos hcount]
    exact .inl ⟨(elementCount_eq_some_iff.mp hcount).1, _, rfl, rfl, rfl⟩
  · rw [dif_neg hcount]
    exact .inr ⟨fun hprod => hcount (elementCount_eq_some_iff.mpr ⟨hprod, hdata⟩), rfl⟩

/-! ## Strides -/

section Strides

variable {shape : Shape}

/-- The stride of an axis is the product of the extents inside of it. -/
theorem getElem?_rowMajorStrides (hpos : 0 ∉ shape) (hcount : shape.prod < wordBound) {axis : Nat}
    (haxis : axis < shape.length) :
    (rowMajorStrides shape)[axis]? = some (shape.drop (axis + 1)).prod := by
  induction shape generalizing axis with
  | nil => cases haxis
  | cons extent inner ih =>
    obtain ⟨hextent, hinner⟩ := zero_not_mem_cons.mp hpos
    rw [List.prod_cons] at hcount
    have hle : inner.prod ≤ extent * inner.prod := Nat.le_mul_of_pos_left _ hextent
    have hinner_count : inner.prod < wordBound := by omega
    cases axis with
    | zero =>
      rw [rowMajorStrides, List.getElem?_cons_zero, strideOver_eq_prod hinner hinner_count]
      rfl
    | succ axis =>
      rw [rowMajorStrides, List.getElem?_cons_succ,
        ih hinner hinner_count (Nat.lt_of_succ_lt_succ haxis), List.drop_succ_cons]

/-- The extents inside of an axis are no more than all of them. -/
theorem prod_drop_le (hpos : 0 ∉ shape) (axis : Nat) : (shape.drop axis).prod ≤ shape.prod := by
  have hsplit : (shape.take axis).prod * (shape.drop axis).prod = shape.prod := by
    rw [← List.prod_append, List.take_append_drop]
  have htake : 0 < (shape.take axis).prod :=
    prod_pos fun hzero => hpos (List.mem_of_mem_take hzero)
  exact hsplit ▸ Nat.le_mul_of_pos_left _ htake

/-- **No stride saturates**: each is the product of the next stride and the next extent, which is a
word, and the last one is one. -/
theorem rowMajorStrides_exact (hpos : 0 ∉ shape) (hcount : shape.prod < wordBound) :
    (∀ axis, axis + 1 = shape.length → (rowMajorStrides shape)[axis]? = some 1) ∧
    ∀ axis stride extent, (rowMajorStrides shape)[axis + 1]? = some stride →
      shape[axis + 1]? = some extent →
        stride * extent < wordBound ∧ (rowMajorStrides shape)[axis]? = some (stride * extent) := by
  refine ⟨fun axis hlast => ?_, fun axis stride extent hstride hextent => ?_⟩
  · rw [getElem?_rowMajorStrides hpos hcount (by omega), hlast, List.drop_length, List.prod_nil]
  · obtain ⟨hlt, rfl⟩ := List.getElem?_eq_some_iff.mp hextent
    rw [getElem?_rowMajorStrides hpos hcount hlt, Option.some.injEq] at hstride
    have hprod : stride * shape[axis + 1] = (shape.drop (axis + 1)).prod := by
      rw [List.drop_eq_getElem_cons hlt, List.prod_cons, hstride, Nat.mul_comm]
    rw [hprod, getElem?_rowMajorStrides hpos hcount (by omega)]
    exact ⟨(prod_drop_le hpos (axis + 1)).trans_lt hcount, rfl⟩

end Strides

/-! ## Offsets -/

/-- The products of the indices and the strides. -/
def offsetTerms (shape : Shape) (index : List Nat) : List Nat :=
  List.zipWith (· * ·) index (rowMajorStrides shape)

/-- The sum that a read adds up to find the element at a multi-index. -/
def offset (shape : Shape) (index : List Nat) : Nat := (offsetTerms shape index).sum

section Offsets

variable {shape : Shape}

/-- A read of the slots that hold a multi-index adds up its products with the strides. -/
theorem flatOffset_eq_sum {table : IndexTable} {slots index : List Nat}
    (hslots : List.Forall₂ (fun slot i => table[slot]? = some i) slots index)
    (strides : List Nat) :
    flatOffset table slots strides = some (List.zipWith (· * ·) index strides).sum := by
  induction hslots generalizing strides with
  | nil => rfl
  | cons hslot _ ih =>
    cases strides with
    | nil => rfl
    | cons stride strides =>
      simp only [flatOffset, hslot, ih, Option.bind_eq_bind, Option.bind_some,
        List.zipWith_cons_cons, List.sum_cons]
      rfl

/-- Every multi-index is what some index table holds. -/
theorem forall₂_range (index : List Nat) :
    List.Forall₂ (fun slot i => index[slot]? = some i) (List.range index.length) index := by
  rw [List.forall₂_iff_get]
  refine ⟨List.length_range, fun i hi hi' => ?_⟩
  simp

/-- **The offset of a multi-index is its row-major position.** -/
theorem rowMajorPosition_eq_offset (hcount : shape.prod < wordBound) {index : List Nat}
    (hin : InShape shape index) : rowMajorPosition shape index = some (offset shape index) := by
  rw [← flatOffset_eq_rowMajorPosition hcount (forall₂_range index) hin]
  exact flatOffset_eq_sum (forall₂_range index) _

/-- **Positions are in lexicographic order.** -/
theorem lex_iff_position_lt {i j : List Nat} {a b : Nat}
    (hi : rowMajorPosition shape i = some a) (hj : rowMajorPosition shape j = some b) :
    List.Lex (· < ·) i j ↔ a < b := by
  -- the outermost index decides, and the positions inside of it only where it is the same
  fun_induction rowMajorPosition shape i generalizing j a b with
  | case1 =>
    cases j with
    | nil =>
      cases hi
      cases hj
      exact iff_of_false (by rintro ⟨⟩) (Nat.lt_irrefl 0)
    | cons y j => cases hj
  | case2 extent inner x i ih =>
    cases j with
    | nil => cases hj
    | cons y j =>
      obtain ⟨p, hp, hx⟩ := Option.bind_eq_some_iff.mp hi
      obtain ⟨q, hq, hy⟩ := Option.bind_eq_some_iff.mp hj
      split at hx
      · split at hy
        · cases hx
          cases hy
          have hp_lt := position_lt hp
          have hq_lt := position_lt hq
          rw [List.cons_lex_cons_iff, ih hp hq]
          rcases Nat.lt_trichotomy x y with hlt | rfl | hgt
          · have hstep : (x + 1) * inner.prod ≤ y * inner.prod := Nat.mul_le_mul_right _ hlt
            rw [Nat.add_mul, Nat.one_mul] at hstep
            exact iff_of_true (.inl hlt) (by omega)
          · simp
          · have hstep : (y + 1) * inner.prod ≤ x * inner.prod := Nat.mul_le_mul_right _ hgt
            rw [Nat.add_mul, Nat.one_mul] at hstep
            refine iff_of_false ?_ (by omega)
            rintro (hlt | ⟨heq, -⟩) <;> omega
        · cases hy
      · cases hx
  | case3 => cases hi

theorem unrank_offset (hcount : shape.prod < wordBound) {index : List Nat}
    (hin : InShape shape index) : unrank shape (offset shape index) = index :=
  unrank_position (rowMajorPosition_eq_offset hcount hin)

theorem offset_unrank (hcount : shape.prod < wordBound) {position : Nat}
    (hlt : position < shape.prod) : offset shape (unrank shape position) = position := by
  have hposition := rowMajorPosition_unrank hlt
  rw [rowMajorPosition_eq_offset hcount (inShape_of_position hposition)] at hposition
  exact Option.some.inj hposition

/-- **Offsets number the multi-indices of a shape**: each number below the count is the offset of
exactly one of them. -/
theorem bijOn_offset (hcount : shape.prod < wordBound) :
    Set.BijOn (offset shape) {index | InShape shape index} (Set.Iio shape.prod) := by
  refine ⟨fun index hin => ?_, fun i hi j hj heq => ?_, fun position hlt => ?_⟩
  · exact position_lt (rowMajorPosition_eq_offset hcount hin)
  · rw [← unrank_offset hcount hi, heq, unrank_offset hcount hj]
  · exact ⟨unrank shape position, inShape_of_position (rowMajorPosition_unrank hlt),
      offset_unrank hcount hlt⟩

/-- No part of the sum leaves the range of offsets. -/
theorem sum_le_of_sublist (hcount : shape.prod < wordBound) {index terms : List Nat}
    (hin : InShape shape index) (hterms : terms.Sublist (offsetTerms shape index)) :
    terms.sum ≤ shape.prod - 1 := by
  have hlt : offset shape index < shape.prod := (bijOn_offset hcount).mapsTo hin
  have hle : terms.sum ≤ offset shape index := hterms.sum_le_sum fun _ _ => Nat.zero_le _
  omega

end Offsets

/-- **Sizes and strides are exact.** The element count of a shape is the product of its extents, if
that is a word, and is missing otherwise; so the order of the extents does not matter, and an array
is made exactly if the product is the number of its elements. Where the elements can be counted and
there are any, the strides are computed without saturation; a read of a multi-index adds up its
products with the strides; this numbers the multi-indices of the shape from zero on without a gap, in
lexicographic order; and each product, and each partial sum of them, is itself such a number. -/
theorem sizes_and_strides_exact :
    (∀ (shape : Shape) (n : Nat), elementCount shape = some n ↔ shape.prod = n ∧ n < 2 ^ 64) ∧
    (∀ shape : Shape, elementCount shape = none ↔ 2 ^ 64 ≤ shape.prod) ∧
    (∀ shape other : Shape, shape.Perm other → elementCount shape = elementCount other) ∧
    (∀ (shape : Shape) (data : Array Float), data.size < 2 ^ 64 →
      ((∃ a, NdArray.ofShape shape data = .ok a ∧ a.shape = shape ∧ a.data = data) ↔
        shape.prod = data.size) ∧
      (shape.prod ≠ data.size →
        NdArray.ofShape shape data = .error (.shapeMismatch shape data.size))) ∧
    ∀ (shape : Shape) (p : Nat), elementCount shape = some p → 0 < p →
      (rowMajorStrides shape).length = shape.length ∧
      (∀ axis, axis + 1 = shape.length → (rowMajorStrides shape)[axis]? = some 1) ∧
      (∀ axis stride extent, (rowMajorStrides shape)[axis + 1]? = some stride →
        shape[axis + 1]? = some extent →
          stride * extent < 2 ^ 64 ∧ (rowMajorStrides shape)[axis]? = some (stride * extent)) ∧
      (∀ (table : IndexTable) (slots index : List Nat),
        List.Forall₂ (fun slot i => table[slot]? = some i) slots index →
          flatOffset table slots (rowMajorStrides shape) = some (offset shape index)) ∧
      Set.BijOn (offset shape) {index | InShape shape index} (Set.Iio p) ∧
      (∀ i j, InShape shape i → InShape shape j →
        (List.Lex (· < ·) i j ↔ offset shape i < offset shape j)) ∧
      ∀ index, InShape shape index →
        ∀ terms : List Nat, terms.Sublist (offsetTerms shape index) → terms.sum ≤ p - 1 := by
  have hbound : wordBound = 2 ^ 64 := rfl
  refine ⟨fun shape n => ?_, fun shape => ?_, fun shape other hperm => ?_,
    fun shape data hdata => ?_, fun shape p hcount hp => ?_⟩
  · rw [← hbound]
    exact elementCount_eq_some_iff
  · rw [elementCount_eq, ← hbound]
    split
    · next hlt => exact iff_of_false (fun h => nomatch h) (Nat.not_le.mpr hlt)
    · next hge => exact iff_of_true rfl (Nat.not_lt.mp hge)
  · rw [elementCount_eq, elementCount_eq, hperm.prod_nat]
  · rcases NdArray.ofShape_cases shape (hbound ▸ hdata) with ⟨hprod, hok⟩ | ⟨hprod, herror⟩
    · exact ⟨iff_of_true hok hprod, fun hne => absurd hprod hne⟩
    · refine ⟨iff_of_false ?_ hprod, fun _ => herror⟩
      rintro ⟨a, hok, -⟩
      cases herror.symm.trans hok
  · obtain ⟨rfl, hword⟩ := elementCount_eq_some_iff.mp hcount
    have hpos : 0 ∉ shape := mt (prod_eq_zero_iff shape).mpr (Nat.ne_of_gt hp)
    obtain ⟨hlast, hsteps⟩ := rowMajorStrides_exact hpos hword
    refine ⟨length_rowMajorStrides shape, hlast, hsteps, fun table slots index hslots => ?_,
      bijOn_offset hword, fun i j hi hj => ?_, fun index hin terms => sum_le_of_sublist hword hin⟩
    · exact flatOffset_eq_sum hslots _
    · exact lex_iff_position_lt (rowMajorPosition_eq_offset hword hi)
        (rowMajorPosition_eq_offset hword hj)

/-- A shape whose last stride but one is as great as a word can be, the greatest offset in it, and a
shape with a product that only its last extent makes small. -/
theorem sizes_and_strides_exact_near_the_bound :
    elementCount [2 ^ 33, 2 ^ 33, 0] = some 0 ∧ elementCount [3, 1, 2 ^ 62] = some (3 * 2 ^ 62) ∧
      (∃ a, NdArray.ofShape [2 ^ 33, 2 ^ 33, 0] #[] = .ok a ∧ a.shape = [2 ^ 33, 2 ^ 33, 0] ∧
        a.data = #[]) ∧
      (rowMajorStrides [3, 1, 2 ^ 62])[0]? = some (2 ^ 62) ∧
      offset [3, 1, 2 ^ 62] [2, 0, 2 ^ 62 - 1] < 3 * 2 ^ 62 ∧
      (List.Lex (· < ·) [1, 0, 2 ^ 62 - 1] [2, 0, 0] ↔
        offset [3, 1, 2 ^ 62] [1, 0, 2 ^ 62 - 1] < offset [3, 1, 2 ^ 62] [2, 0, 0]) := by
  obtain ⟨hsome, -, -, hmade, hstrides⟩ := sizes_and_strides_exact
  have hcount : elementCount [3, 1, 2 ^ 62] = some (3 * 2 ^ 62) :=
    (hsome _ _).mpr ⟨by decide, by decide⟩
  obtain ⟨-, hlast, hsteps, -, hbij, hlex, -⟩ := hstrides _ _ hcount (by decide)
  have hin : ∀ i k, i < 3 → k < 2 ^ 62 → InShape [3, 1, 2 ^ 62] [i, 0, k] := fun i k hi hk =>
    .cons hi (.cons (by decide) (.cons hk .nil))
  refine ⟨(hsome _ _).mpr ⟨by decide, by decide⟩, hcount, (hmade _ #[] (by decide)).1.mpr rfl, ?_,
    hbij.mapsTo (hin 2 _ (by decide) (by decide)),
    hlex _ _ (hin 1 _ (by decide) (by decide)) (hin 2 0 (by decide) (by decide))⟩
  have hmiddle := (hsteps 1 1 (2 ^ 62) (hlast 2 rfl) rfl).2
  exact (hsteps 0 _ 1 hmiddle rfl).2

end ArrayKernels
