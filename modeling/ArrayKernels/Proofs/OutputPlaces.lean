import ArrayKernels.Proofs.ExactSizes
import ArrayKernels.Proofs.StaleIndices
import Mathlib.Data.List.Nodup
import Mathlib.Data.List.ProdSigma

/-!
# Places of output elements

A run counts the elements of a core block and decodes each number into the slots of the output. Seen
from the elements, these are nested loops, one around the other for the axes of the block, and around
them all the loop over the blocks. Here the two are shown to be the same: the multi-indices of the
block come one after the other in row-major order, none of them twice, and each element is written
where its multi-index says, behind the blocks of the iterations before it.

This rests on the slots being distinct. The table has other slots, too, which belong to sums, and
decoding leaves them alone.

## Layers

- **Multi-indices**: nested loops, and the number of each turn.
- **Tables**: decoding as one change of the table.
- **Sequences**: steps on a state that is handed on.
- **Elements**: a run as a sequence of elements that are given by their multi-indices.

## Main results

- `getElem?_multiIndices`: nested loops visit multi-indices in the order of their positions.
- `decodePosition_eq_setSlots`: decoding puts the multi-index into its slots and changes no other.
- `BoundCall.run_eq_elements`: a run computes the elements of the nested loops in their order.
- `output_elements_enumerated`: all of it together.
-/

namespace ArrayKernels

/-! ## Multi-indices -/

/-- The multi-indices of a shape as nested loops visit them, with the innermost axis as the fastest.
-/
def multiIndices : Shape → List (List Nat)
  | [] => [[]]
  | extent :: inner => (List.range extent).flatMap fun i => (multiIndices inner).map (i :: ·)

/-- The loops visit what lies inside the shape. -/
theorem mem_multiIndices {shape : Shape} {v : List Nat} :
    v ∈ multiIndices shape ↔ InShape shape v := by
  unfold InShape
  induction shape generalizing v with
  | nil => simp [multiIndices]
  | cons extent inner ih =>
    simp only [multiIndices, List.mem_flatMap, List.mem_range, List.mem_map, ih,
      List.forall₂_cons_left_iff]
    constructor
    · rintro ⟨i, hi, rest, hrest, rfl⟩
      exact ⟨i, rest, hi, hrest, rfl⟩
    · rintro ⟨i, rest, hi, hrest, rfl⟩
      exact ⟨i, hi, rest, hrest, rfl⟩

theorem length_multiIndices (shape : Shape) : (multiIndices shape).length = shape.prod := by
  induction shape with
  | nil => rfl
  | cons extent inner ih => simp [multiIndices, List.length_flatMap, ih]

/-- **Nested loops visit multi-indices in the order of their positions.** -/
theorem getElem?_multiIndices {shape : Shape} {position : Nat} (hlt : position < shape.prod) :
    (multiIndices shape)[position]? = some (unrank shape position) := by
  induction shape generalizing position with
  | nil =>
    obtain rfl : position = 0 := Nat.lt_one_iff.mp hlt
    rfl
  | cons extent inner ih =>
    rw [List.prod_cons] at hlt
    have hinner : 0 < inner.prod := Nat.pos_of_mul_pos_left (Nat.zero_lt_of_lt hlt)
    have hdiv : position / inner.prod < extent := (Nat.div_lt_iff_lt_mul hinner).mpr hlt
    -- the turn of the outer loop is the quotient, and the inner loops see the remainder only
    have hrest : position % inner.prod < inner.prod := Nat.mod_lt _ hinner
    have hrows : ∀ row ∈ (List.range extent).map fun i => (multiIndices inner).map (i :: ·),
        row.length = inner.prod := by
      simp [length_multiIndices]
    rw [multiIndices, List.flatMap, ← Nat.div_add_mod' position inner.prod,
      getElem?_flatten_of_length hrows hrest, Nat.div_add_mod']
    simp [hdiv, ih hrest, unrank, unrank_mod, Nat.mod_eq_of_lt hdiv]

theorem map_unrank_range (shape : Shape) :
    (List.range shape.prod).map (unrank shape) = multiIndices shape := by
  refine List.ext_getElem? fun position => ?_
  by_cases hlt : position < shape.prod
  · simp [getElem?_multiIndices hlt, hlt]
  · -- both lists have ended
    have hge := Nat.not_lt.mp hlt
    rw [List.getElem?_eq_none (by simpa using hge),
      List.getElem?_eq_none (by rwa [length_multiIndices])]

/-- No multi-index comes twice, since each one knows its position. -/
theorem nodup_multiIndices (shape : Shape) : (multiIndices shape).Nodup := by
  rw [← map_unrank_range]
  refine List.nodup_range.map_on fun i hi j hj heq => ?_
  rw [List.mem_range] at hi hj
  have hposition : some i = some j := by
    rw [← rowMajorPosition_unrank hi, ← rowMajorPosition_unrank hj, heq]
  exact Option.some.inj hposition

/-- **One multi-index for each number**: the offsets of a shape number its multi-indices. -/
theorem offset_eq_iff {shape : Shape} (hcount : shape.prod < wordBound) {position : Nat}
    (hlt : position < shape.prod) {v : List Nat} :
    InShape shape v ∧ offset shape v = position ↔ v = unrank shape position := by
  constructor
  · rintro ⟨hin, rfl⟩
    exact (unrank_offset hcount hin).symm
  · rintro rfl
    exact ⟨inShape_of_position (rowMajorPosition_unrank hlt), offset_unrank hcount hlt⟩

/-! ## Tables -/

/-- Sets slots to the indices of a multi-index, the innermost slot first. -/
def setSlots : (slots v : List Nat) → IndexTable → IndexTable
  | slot :: slots, i :: v, index => (setSlots slots v index).set slot i
  | _, _, index => index

/-- **Decoding puts the multi-index into its slots and changes no other.** What is left of the
position is its quotient by the number of elements. -/
theorem decodePosition_eq_setSlots {extents slots : List Nat} {shape : Shape}
    (hslots : List.Forall₂ (fun slot extent => extents[slot]? = some extent) slots shape)
    (hpos : 0 ∉ shape) (position : Nat) (index : IndexTable) :
    decodePosition extents slots position index =
      some (position / shape.prod, setSlots slots (unrank shape position) index) := by
  -- the inner slots are decoded first, in both, and the outer one gets the quotient that they leave
  induction hslots with
  | nil => simp [decodePosition, setSlots]
  | @cons slot extent slots inner hslot _ ih =>
    obtain ⟨hextent, hinner⟩ := zero_not_mem_cons.mp hpos
    simp only [decodePosition, ih hinner, hslot, Option.bind_eq_bind, Option.bind_some,
      if_neg (Nat.pos_iff_ne_zero.mp hextent), List.prod_cons, Nat.div_div_eq_div_mul,
      Nat.mul_comm inner.prod]
    rfl

theorem length_setSlots (slots v : List Nat) (index : IndexTable) :
    (setSlots slots v index).length = index.length := by
  fun_induction setSlots slots v index with
  | case1 slot slots i v index ih => rw [List.length_set, ih]
  | case2 => rfl

/-- Distinct slots hold the multi-index that they have been set to, and all others what they held. -/
theorem setSlots_of_inShape {extents slots : List Nat} {shape : Shape}
    (hslots : List.Forall₂ (fun slot extent => extents[slot]? = some extent) slots shape)
    (hnodup : slots.Nodup) {v : List Nat} (hin : InShape shape v) {index : IndexTable}
    (hindex : index.length = extents.length) :
    List.Forall₂ (fun slot i => (setSlots slots v index)[slot]? = some i) slots v ∧
      ∀ slot ∉ slots, (setSlots slots v index)[slot]? = index[slot]? := by
  -- the multi-index is what is decoded from its position
  obtain ⟨position, hposition, -⟩ := hin.exists_position
  obtain ⟨index', hdecode, -, hheld, hothers⟩ :=
    decodePosition_eq_unrank hslots hnodup hin.zero_not_mem hindex position
  rw [decodePosition_eq_setSlots hslots hin.zero_not_mem, Option.some.injEq, Prod.mk.injEq]
    at hdecode
  rw [← hdecode.2, unrank_position hposition] at hheld
  rw [← hdecode.2, unrank_position hposition] at hothers
  exact ⟨hheld, hothers⟩

/-! ## Sequences -/

/-- Steps on a state that is handed on, each of which starts in a state with the invariant. -/
theorem forall₂_of_mapM_run {α β State : Type} {Inv : State → Prop}
    {step : α → StateT State Option β}
    (hstep : ∀ a s b s', Inv s → (step a).run s = some (b, s') → Inv s') {xs : List α}
    {ys : List β} {s s' : State} (hs : Inv s) (h : (xs.mapM step).run s = some (ys, s')) :
    List.Forall₂ (fun x y => ∃ s s', Inv s ∧ (step x).run s = some (y, s')) xs ys := by
  induction xs generalizing ys s with
  | nil =>
    cases h
    exact .nil
  | cons x xs ih =>
    simp only [List.mapM_cons, StateT.run_bind, StateT.run_pure, Option.bind_eq_bind,
      Option.bind_eq_some_iff] at h
    obtain ⟨⟨y, s₁⟩, hy, ⟨ys₁, s₂⟩, hys, hlast⟩ := h
    cases hlast
    -- the other steps start in the state behind this one, which has the invariant again
    exact .cons ⟨s, s₁, hs, hy⟩ (ih (hstep x s y s₁ hs hy) hys)

/-! ## Elements -/

/-- A kernel hands on a table with the slots that it was given. -/
def Kernel.KeepsSlots (kernel : Kernel) : Prop :=
  ∀ env index x index', kernel env index = some (x, index') → index'.length = index.length

/-- A lowered kernel keeps the slots, under every strategy. -/
theorem Program.Lowers.keepsSlots {p : Program} {f : CoreFunction} {s : Signature}
    (h : p.Lowers f s) (strategy : Strategy) : (strategy.compile p).KeepsSlots := by
  intro env index x index' hrun
  -- a run agrees with itself, on tables of the length that it has begun with
  have halike : Alike env env p.dims.length index.length index.length :=
    ⟨rfl, rfl, fun _ _ => Iff.rfl⟩
  have hsame := strategy.compile_agree halike h.root_scoped ⟨rfl, rfl, fun _ _ => rfl⟩
  rw [hrun] at hsame
  cases hsame with
  | some hresult => exact hresult.2.length_eq

namespace BoundCall

/-- The elements of the output in nested loops: iteration after iteration, and in each of them the
multi-indices of the core block. -/
def elements (call : BoundCall) (shape : Shape) : List (Nat × List Nat) :=
  List.range call.loopCount ×ˢ multiIndices shape

/-- Computes the element of an iteration at a multi-index, on an index table that is handed on. -/
def elementAt (call : BoundCall) (kernel : Kernel) (slots : List Nat) (inputs : List NdArray)
    (element : Nat × List Nat) : StateT IndexTable Option Float := fun index => do
  let operands ← call.operands? inputs element.1
  kernel ⟨[], operands, call.extents⟩ (setSlots slots element.2 index)

variable {call : BoundCall} {slots : List Nat} {shape : Shape} {kernel : Kernel}
  {inputs : List NdArray}

/-- The steps of a run hand on tables with the same slots. -/
theorem length_of_elementAt (hkernel : kernel.KeepsSlots) (element : Nat × List Nat)
    (index : IndexTable) (x : Float) (index' : IndexTable)
    (hindex : index.length = call.extents.length)
    (h : (call.elementAt kernel slots inputs element).run index = some (x, index')) :
    index'.length = call.extents.length := by
  obtain ⟨operands, -, hresult⟩ := Option.bind_eq_some_iff.mp h
  rw [hkernel _ _ _ _ hresult, length_setSlots, hindex]

/-! ### Enumeration -/

theorem mem_elements {l : Nat} {v : List Nat} :
    (l, v) ∈ call.elements shape ↔ l < call.loopCount ∧ InShape shape v := by
  rw [elements, List.mem_product, List.mem_range, mem_multiIndices]

theorem nodup_elements (call : BoundCall) (shape : Shape) : (call.elements shape).Nodup :=
  List.nodup_range.product (nodup_multiIndices shape)

theorem length_elements (call : BoundCall) (shape : Shape) :
    (call.elements shape).length = call.loopCount * shape.prod := by
  rw [elements, List.length_product, List.length_range, length_multiIndices]

/-- The places that a run counts, with their positions decoded, are the elements. -/
theorem map_unrank_places (hsize : shape.prod = call.outputCoreSize) :
    call.places.map (fun place => (place.1, unrank shape place.2)) = call.elements shape := by
  simp only [places, elements, SProd.sprod, List.product, List.map_flatMap, List.map_map,
    Function.comp_def, ← hsize, ← map_unrank_range]

/-- An element stands behind the blocks of the iterations before its own, at the offset of its
multi-index. -/
theorem getElem?_elements (hsize : shape.prod = call.outputCoreSize)
    (hword : call.outputCoreSize < wordBound) {l : Nat} (hl : l < call.loopCount) {v : List Nat}
    (hin : InShape shape v) :
    (call.elements shape)[l * call.outputCoreSize + offset shape v]? = some (l, v) := by
  rw [← hsize] at hword
  have hlt : offset shape v < call.outputCoreSize := hsize ▸ (bijOn_offset hword).mapsTo hin
  rw [← map_unrank_places hsize, List.getElem?_map, getElem?_places hl hlt, Option.map_some,
    unrank_offset hword hin]

/-! ### Runs -/

section Runs

variable (hslots : List.Forall₂ (fun slot extent => call.extents[slot]? = some extent) slots shape)
  (hpos : 0 ∉ shape)

include hslots hpos

theorem elementFrom_eq_elementAt (place : Nat × Nat) (index : IndexTable) :
    call.elementFrom kernel slots inputs place index =
      (call.elementAt kernel slots inputs (place.1, unrank shape place.2)).run index := by
  simp only [elementFrom, decodePosition_eq_setSlots hslots hpos, Option.bind_eq_bind,
    Option.bind_some]
  rfl

theorem runInOrder_eq_mapM (places : List (Nat × Nat)) (index : IndexTable) :
    call.runInOrder kernel slots inputs places index =
      ((places.map fun place => (place.1, unrank shape place.2)).mapM
        (call.elementAt kernel slots inputs)).run index := by
  -- on any table, since every element hands on another one
  induction places generalizing index with
  | nil => rfl
  | cons place places ih =>
    simp only [runInOrder, elementFrom_eq_elementAt hslots hpos, ih, List.map_cons,
      List.mapM_cons, StateT.run_bind]
    rfl

/-- **A run computes the elements of the nested loops in their order**, on a table of zeros at first.
-/
theorem run_eq_elements (hsize : shape.prod = call.outputCoreSize) :
    call.run kernel slots inputs =
      (((call.elements shape).mapM (call.elementAt kernel slots inputs)).run
        (List.replicate call.extents.length 0)).map (·.1.toArray) := by
  rw [run_eq_runInOrder, runInOrder_eq_mapM hslots hpos, map_unrank_places hsize]

/-- What a run leaves are the results of the elements, each computed on a table with all slots. -/
theorem forall₂_of_run (hsize : shape.prod = call.outputCoreSize) (hkernel : kernel.KeepsSlots)
    {data : Array Float} (hrun : call.run kernel slots inputs = some data) :
    List.Forall₂ (fun element x => ∃ index index', index.length = call.extents.length ∧
      (call.elementAt kernel slots inputs element).run index = some (x, index'))
      (call.elements shape) data.toList := by
  rw [run_eq_elements hslots hpos hsize] at hrun
  obtain ⟨⟨xs, index⟩, hxs, rfl⟩ := Option.map_eq_some_iff.mp hrun
  exact forall₂_of_mapM_run (length_of_elementAt hkernel) List.length_replicate hxs

/-- **A run leaves each element at its place.** The kernel has found the multi-index of the element
in the slots of the output, and the blocks of its iteration. -/
theorem getElem?_of_run (hnodup : slots.Nodup) (hsize : shape.prod = call.outputCoreSize)
    (hword : call.outputCoreSize < wordBound) (hkernel : kernel.KeepsSlots) {data : Array Float}
    (hrun : call.run kernel slots inputs = some data) {l : Nat} (hl : l < call.loopCount)
    {v : List Nat} (hin : InShape shape v) :
    ∃ operands index x index', call.operands? inputs l = some operands ∧
      index.length = call.extents.length ∧
      List.Forall₂ (fun slot i => index[slot]? = some i) slots v ∧
      kernel ⟨[], operands, call.extents⟩ index = some (x, index') ∧
      data[l * call.outputCoreSize + offset shape v]? = some x := by
  obtain ⟨x, hx, index, index', hindex, helement⟩ :=
    forall₂_getElem? (forall₂_of_run hslots hpos hsize hkernel hrun)
      (getElem?_elements hsize hword hl hin)
  obtain ⟨operands, hoperands, hresult⟩ := Option.bind_eq_some_iff.mp helement
  refine ⟨operands, setSlots slots v index, x, index', hoperands, ?_, ?_, hresult, ?_⟩
  · rw [length_setSlots, hindex]
  · exact (setSlots_of_inShape hslots hnodup hin hindex).1
  · rwa [Array.getElem?_toList] at hx

end Runs

end BoundCall

/-- **The elements of the output are enumerated.** Let the slots of the output be distinct, with
extents that are not zero and whose product, a word, is the size of a core block. Then each number
below the size is the offset of exactly one multi-index, and decoding it ends with nothing left, with
this multi-index in the slots and with all other slots as they were. A run computes the elements of
the nested loops in their order. These are all elements, none of them comes twice, and each stands at
its offset behind the blocks of the iterations before. There the run leaves what the kernel gives for
it, on a table with its multi-index in the slots. -/
theorem output_elements_enumerated {call : BoundCall} {slots : List Nat} {shape : Shape}
    (hslots : List.Forall₂ (fun slot extent => call.extents[slot]? = some extent) slots shape)
    (hnodup : slots.Nodup) (hpos : 0 ∉ shape) (hsize : shape.prod = call.outputCoreSize)
    (hword : call.outputCoreSize < wordBound) :
    (∀ j < call.outputCoreSize, ∃ v,
      (∀ w, InShape shape w ∧ offset shape w = j ↔ w = v) ∧
      ∀ index : IndexTable, index.length = call.extents.length →
        decodePosition call.extents slots j index = some (0, setSlots slots v index) ∧
        List.Forall₂ (fun slot i => (setSlots slots v index)[slot]? = some i) slots v ∧
        ∀ slot ∉ slots, (setSlots slots v index)[slot]? = index[slot]?) ∧
    ((call.elements shape).Nodup ∧
      (∀ l v, (l, v) ∈ call.elements shape ↔ l < call.loopCount ∧ InShape shape v) ∧
      ∀ l < call.loopCount, ∀ v, InShape shape v →
        (call.elements shape)[l * call.outputCoreSize + offset shape v]? = some (l, v)) ∧
    ∀ (kernel : Kernel) (inputs : List NdArray),
      call.run kernel slots inputs =
        (((call.elements shape).mapM (call.elementAt kernel slots inputs)).run
          (List.replicate call.extents.length 0)).map (·.1.toArray) ∧
      (kernel.KeepsSlots → ∀ data, call.run kernel slots inputs = some data →
        data.size = call.outputCount ∧
        ∀ l < call.loopCount, ∀ v, InShape shape v →
          ∃ operands index x index', call.operands? inputs l = some operands ∧
            index.length = call.extents.length ∧
            List.Forall₂ (fun slot i => index[slot]? = some i) slots v ∧
            kernel ⟨[], operands, call.extents⟩ index = some (x, index') ∧
            data[l * call.outputCoreSize + offset shape v]? = some x) := by
  refine ⟨?_, ⟨call.nodup_elements shape, fun l v => BoundCall.mem_elements, ?_⟩, ?_⟩
  · intro j hj
    rw [← hsize] at hj hword
    have hunique := fun w => offset_eq_iff hword hj (v := w)
    have hin : InShape shape (unrank shape j) := ((hunique _).mpr rfl).1
    refine ⟨unrank shape j, hunique, fun index hindex => ⟨?_, ?_⟩⟩
    · rw [decodePosition_eq_setSlots hslots hpos, Nat.div_eq_of_lt hj]
    · exact setSlots_of_inShape hslots hnodup hin hindex
  · intro l hl v hin
    exact BoundCall.getElem?_elements hsize hword hl hin
  · intro kernel inputs
    refine ⟨BoundCall.run_eq_elements hslots hpos hsize, fun hkernel data hrun => ⟨?_, ?_⟩⟩
    · have hlength := (BoundCall.forall₂_of_run hslots hpos hsize hkernel hrun).length_eq
      rw [call.length_elements, hsize, Array.length_toList] at hlength
      exact hlength.symm
    · intro l hl v hin
      exact BoundCall.getElem?_of_run hslots hpos hnodup hsize hword hkernel hrun hl hin

/-- Blocks that are transposed. The slots of the output are not in the order of the table, so the
third element of the second block is the second one of its input. -/
theorem output_elements_enumerated_in_transposed_blocks :
    ∃ p call data, CoreFunction.lower ⟨"f", .element 0 ["m", "n"]⟩ ⟨[["m", "n"]], ["n", "m"]⟩ =
        .ok p ∧
      p.bind [⟨[2, 2, 2], #[1.0, 2.0, 3.0, 4.0, 5.0, 6.0, 7.0, 8.0], by decide⟩] =
        .ok (call, [2, 2, 2]) ∧
      p.outputSlots = [1, 0] ∧
      (∀ w, InShape [2, 2] w ∧ offset [2, 2] w = 2 ↔ w = [1, 0]) ∧
      decodePosition call.extents [1, 0] 2 [7, 8] = some (0, [0, 1]) ∧
      data[1 * 4 + 2]? = some 6.0 ∧
      ∀ strategy : Strategy,
        call.run (strategy.compile p) [1, 0]
          [⟨[2, 2, 2], #[1.0, 2.0, 3.0, 4.0, 5.0, 6.0, 7.0, 8.0], by decide⟩] = some data ∧
        ∃ operands index x index',
          index.length = call.extents.length ∧
          List.Forall₂ (fun slot i => index[slot]? = some i) [1, 0] [1, 0] ∧
          strategy.compile p ⟨[], operands, call.extents⟩ index = some (x, index') ∧
          data[1 * 4 + offset [2, 2] [1, 0]]? = some x := by
  have hp : CoreFunction.lower ⟨"f", .element 0 ["m", "n"]⟩ ⟨[["m", "n"]], ["n", "m"]⟩ =
      .ok ⟨.load 0 [0, 1], 0, ["m", "n"], [[0, 1]], [1, 0], [⟨0, [0, 1]⟩]⟩ := rfl
  have hkernel := (CoreFunction.lowers_of_lower hp).keepsSlots
  obtain ⟨hplaces, -, hruns⟩ := @output_elements_enumerated ⟨[2, 2], 2, 4, [⟨4, false, [2, 1]⟩]⟩
    [1, 0] [2, 2] (.cons rfl (.cons rfl .nil)) (by decide) (by decide) rfl (by decide)
  have hin : InShape [2, 2] [1, 0] := .cons (by decide) (.cons (by decide) .nil)
  obtain ⟨v, hv, htable⟩ := hplaces 2 (by decide)
  obtain rfl : [1, 0] = v := (hv [1, 0]).mp ⟨hin, rfl⟩
  have hrun (strategy : Strategy) : BoundCall.run ⟨[2, 2], 2, 4, [⟨4, false, [2, 1]⟩]⟩
      (strategy.compile ⟨.load 0 [0, 1], 0, ["m", "n"], [[0, 1]], [1, 0], [⟨0, [0, 1]⟩]⟩) [1, 0]
      [⟨[2, 2, 2], #[1.0, 2.0, 3.0, 4.0, 5.0, 6.0, 7.0, 8.0], by decide⟩] =
        some #[1.0, 3.0, 2.0, 4.0, 5.0, 7.0, 6.0, 8.0] := by
    cases strategy <;> rfl
  refine ⟨_, _, _, hp, rfl, rfl, hv, (htable [7, 8] rfl).1, rfl,
    fun strategy => ⟨hrun strategy, ?_⟩⟩
  obtain ⟨-, hdata⟩ := (hruns _ _).2 (hkernel strategy) _ (hrun strategy)
  obtain ⟨operands, index, x, index', -, hrest⟩ := hdata 1 (by decide) [1, 0] hin
  exact ⟨operands, index, x, index', hrest⟩

end ArrayKernels
