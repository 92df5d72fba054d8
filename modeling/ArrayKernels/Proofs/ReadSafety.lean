import ArrayKernels.Proofs.Binding
import ArrayKernels.Proofs.StrategyAgreement

/-!
# Safety of reads

Binding compares the extent of every dimension that indexes an axis with the extent of that axis,
once for each read of the kernel. Here this is shown to be enough. When a read is made, each of its
slots has been set by the output's multi-index or by a sum around the read, and whatever sets a
slot stays below the extent of the slot.

## Layers

- **Decoding**: the output slots get the multi-index of an output position.
- **Scopes**: in a well-scoped tree every read finds indices below their extents.
- **Reads**: an access that fits then stays inside its core block.

## Main results

- `decodePosition_eq_unrank`: decoding computes the multi-index and touches no other slot.
- `Node.safe_of_scoped`: well-scoped trees are safe as far as their accesses are.
- `Program.Binds.safe_element`: every output element of a bound call can be computed, with all reads
  inside the core blocks.
-/

namespace ArrayKernels

/-! ## Decoding a position -/

/-- A multi-index that is decoded from any position lies inside a shape without an extent of zero.
-/
theorem inShape_unrank {shape : Shape} (hpos : 0 ∉ shape) (position : Nat) :
    InShape shape (unrank shape position) := by
  induction shape with
  | nil => exact .nil
  | cons extent inner ih =>
    obtain ⟨hextent, hinner⟩ := zero_not_mem_cons.mp hpos
    exact .cons (Nat.mod_lt _ hextent) (ih hinner)

/-- **Decoding gives the slots the multi-index of the position**, and leaves all other slots alone.
What is left of the position is its quotient by the number of elements. -/
theorem decodePosition_eq_unrank {extents slots : List Nat} {shape : Shape}
    (hslots : List.Forall₂ (fun slot extent => extents[slot]? = some extent) slots shape)
    (hnodup : slots.Nodup) (hpos : 0 ∉ shape) {index : IndexTable}
    (hlength : index.length = extents.length) (position : Nat) :
    ∃ index', decodePosition extents slots position index = some (position / shape.prod, index') ∧
      index'.length = extents.length ∧
      List.Forall₂ (fun slot i => index'[slot]? = some i) slots (unrank shape position) ∧
      ∀ slot, slot ∉ slots → index'[slot]? = index[slot]? := by
  -- the inner slots are decoded first, and the outer one gets the quotient that they leave
  induction hslots with
  | nil => exact ⟨index, by simp [decodePosition], hlength, .nil, fun _ _ => rfl⟩
  | @cons slot extent slots inner hslot _ ih =>
    obtain ⟨hfresh, hnodup⟩ := List.nodup_cons.mp hnodup
    obtain ⟨hextent, hinner⟩ := zero_not_mem_cons.mp hpos
    obtain ⟨index₁, hrest, hlength₁, hindex₁, hother₁⟩ := ih hnodup hinner
    have hslot_lt : slot < index₁.length := by
      rw [hlength₁]
      exact (List.getElem?_eq_some_iff.mp hslot).1
    refine ⟨index₁.set slot (position / inner.prod % extent), ?_, ?_, .cons ?_ ?_, ?_⟩
    · simp only [decodePosition, hrest, hslot, Option.bind_eq_bind, Option.bind_some,
        if_neg (Nat.pos_iff_ne_zero.mp hextent), List.prod_cons, Nat.div_div_eq_div_mul,
        Nat.mul_comm inner.prod]
      rfl
    · rw [List.length_set, hlength₁]
    · exact List.getElem?_set_self hslot_lt
    · -- the slot of this axis is none of the inner ones, which keep their indices
      rw [List.forall₂_iff_get] at hindex₁ ⊢
      refine ⟨hindex₁.1, fun i hi hi' => ?_⟩
      rw [List.getElem?_set_ne, hindex₁.2 i hi hi']
      rintro rfl
      exact hfresh (List.get_mem _ _)
    · intro other hother
      rw [List.mem_cons, not_or] at hother
      rw [List.getElem?_set_ne (Ne.symm hother.1), hother₁ other hother.2]

/-! ## Indices in scope -/

/-- The slot has an index below its extent. -/
def Bounded (extents : List Nat) (index : IndexTable) (slot : Nat) : Prop :=
  ∃ i extent, index[slot]? = some i ∧ extents[slot]? = some extent ∧ i < extent

/-- After decoding, the output slots have indices below their extents. -/
theorem bounded_of_decoded {extents slots : List Nat} {shape : Shape} {index : IndexTable}
    {position : Nat}
    (hslots : List.Forall₂ (fun slot extent => extents[slot]? = some extent) slots shape)
    (hpos : 0 ∉ shape)
    (hindex : List.Forall₂ (fun slot i => index[slot]? = some i) slots (unrank shape position)) :
    ∀ slot ∈ slots, Bounded extents index slot := by
  have hin := inShape_unrank hpos position
  unfold InShape at hin
  generalize unrank shape position = indices at hindex hin
  induction hslots generalizing indices with
  | nil => simp
  | cons hslot _ ih =>
    cases hin with
    | cons hi hin =>
      cases hindex with
      | cons hi' hindex =>
        refine List.forall_mem_cons.mpr ⟨⟨_, _, hi', hslot, hi⟩, ?_⟩
        exact ih (zero_not_mem_cons.mp hpos).2 _ hindex hin

/-- A sum gives its slot an index below the extent, and the other slots keep theirs. -/
theorem Bounded.enter {extents bound : List Nat} {index : IndexTable} {slot i extent : Nat}
    (hbounded : ∀ other ∈ bound, Bounded extents index other) (hslot : slot < index.length)
    (hextent : extents[slot]? = some extent) (hi : i < extent) :
    ∀ other ∈ slot :: bound, Bounded extents (index.set slot i) other := by
  intro other hother
  by_cases hsame : other = slot
  · subst hsame
    exact ⟨i, extent, List.getElem?_set_self hslot, hextent, hi⟩
  · rcases List.mem_cons.mp hother with hslot | hmem
    · exact absurd hslot hsame
    · obtain ⟨j, e, hj, he, hlt⟩ := hbounded other hmem
      exact ⟨j, e, by rw [List.getElem?_set_ne (Ne.symm hsame), hj], he, hlt⟩

/-- **A well-scoped tree is safe as far as its accesses are**: it suffices that each of them is
admissible wherever its slots have indices below their extents. -/
theorem Node.safe_of_scoped {P : Read → Prop} {env : Env} {bound : List Nat} {n : Node}
    {index : IndexTable} (hscoped : n.Scoped env.extents.length bound)
    (hread : ∀ access ∈ n.loads, ∀ index : IndexTable,
      (∀ slot ∈ access.slots, Bounded env.extents index slot) →
        P ⟨access.operand, access.slots, index⟩)
    (hlength : index.length = env.extents.length)
    (hbounded : ∀ slot ∈ bound, Bounded env.extents index slot) :
    n.Safe P env index := by
  induction n generalizing bound index with
  | const v => trivial
  | arg i => exact hscoped.elim
  | unary op a ih => exact ih hscoped hread hlength hbounded
  | binary op a b iha ihb =>
    obtain ⟨hreada, hreadb⟩ := List.forall_mem_append.mp hread
    exact ⟨iha hscoped.1 hreada hlength hbounded, ihb hscoped.2 hreadb hlength hbounded⟩
  | select c t o ihc iht iho =>
    obtain ⟨hreadct, hreado⟩ := List.forall_mem_append.mp hread
    obtain ⟨hreadc, hreadt⟩ := List.forall_mem_append.mp hreadct
    exact ⟨ihc hscoped.1 hreadc hlength hbounded, iht hscoped.2.1 hreadt hlength hbounded,
      iho hscoped.2.2 hreado hlength hbounded⟩
  | load k slots =>
    exact hread ⟨k, slots⟩ (List.mem_singleton.mpr rfl) index fun slot hslot =>
      hbounded slot (hscoped slot hslot)
  | sum slot body ih =>
    obtain ⟨hslot, hbody⟩ := hscoped
    -- the slot of the sum joins those in scope, with every index below its extent
    have hindex : slot < index.length := hlength ▸ hslot
    have hextent : env.extents[slot]? = some env.extents[slot] := List.getElem?_eq_getElem hslot
    refine ⟨hindex, env.extents[slot], hextent, fun i hi => ?_⟩
    exact ih hbody hread (by rw [List.length_set, hlength])
      (Bounded.enter hbounded hindex hextent hi)

/-! ## Reads inside a block -/

/-- The position in the data at which the core block of an iteration begins. -/
def CoreLayout.start (layout : CoreLayout) (iteration : Nat) : Nat :=
  if layout.shared then 0 else iteration * layout.size

theorem CoreLayout.stop_le_of_block? {layout : CoreLayout} {data block : Array Float}
    {iteration : Nat} (h : layout.block? data iteration = some block) :
    layout.start iteration + layout.size ≤ data.size := by
  by_contra hout
  have hnone : layout.block? data iteration = none := if_neg hout
  rw [hnone] at h
  cases h

/-- What the kernel sees in an iteration with those core blocks. -/
def BoundCall.env (call : BoundCall) (blocks : List CoreBlock) : Env :=
  ⟨[], blocks.map CoreBlock.operand, call.extents⟩

/-- The read stays inside its core block. Its operand is there, each of its slots has an index and a
stride, the indices are below the extents of the axes that they address, and the offset that the
strides give is below the number of elements. -/
def Read.Inside (shapes : List Shape) (layouts : List CoreLayout) (read : Read) : Prop :=
  ∃ shape layout indices offset,
    shapes[read.operand]? = some shape ∧ layouts[read.operand]? = some layout ∧
      layout.strides.length = read.slots.length ∧
      List.Forall₂ (fun slot i => read.index[slot]? = some i) read.slots indices ∧
      InShape shape indices ∧
      flatOffset read.index read.slots layout.strides = some offset ∧ offset < layout.size

theorem exists_indices {extents slots : List Nat} {shape : Shape} {index : IndexTable}
    (hfits : List.Forall₂ (fun slot extent => extents.getD slot 0 ≤ extent) slots shape)
    (hbounded : ∀ slot ∈ slots, Bounded extents index slot) :
    ∃ indices, List.Forall₂ (fun slot i => index[slot]? = some i) slots indices ∧
      InShape shape indices := by
  induction hfits with
  | nil => exact ⟨[], .nil, .nil⟩
  | @cons slot extent slots shape hle _ ih =>
    obtain ⟨⟨i, e, hi, he, hlt⟩, hbounded⟩ := List.forall_mem_cons.mp hbounded
    obtain ⟨indices, hindices, hin⟩ := ih hbounded
    rw [List.getD_eq_getElem?_getD, he, Option.getD_some] at hle
    exact ⟨i :: indices, .cons hi hindices, .cons (by omega) hin⟩

namespace Program.Binds

variable {p : Program} {inputs : List NdArray} {call : BoundCall} {shape : Shape}

/-- The layout of an operand describes its core block. -/
theorem exists_block (h : p.Binds inputs call shape) {iteration : Nat}
    (hiteration : iteration < call.loopCount) {operand : Nat} {coreShape : Shape}
    (hshape : (p.coreShapes inputs)[operand]? = some coreShape) :
    ∃ block layout, (coreBlocks p.coreRanks inputs iteration)[operand]? = some block ∧
      call.layouts[operand]? = some layout ∧ block.shape = coreShape ∧ block.Counted ∧
      layout.strides = rowMajorStrides coreShape ∧ layout.size = coreShape.prod := by
  rw [← coreShapes_eq p inputs iteration, List.getElem?_map, Option.map_eq_some_iff] at hshape
  obtain ⟨block, hblock, rfl⟩ := hshape
  have hcounted := h.blocks_counted hiteration block (List.mem_of_getElem? hblock)
  obtain ⟨rank, a, hrank, ha, rfl⟩ := List.getElem?_zipWith_eq_some.mp hblock
  refine ⟨_, CoreLayout.ofInput rank a, hblock, ?_, rfl, hcounted, rfl, ?_⟩
  · rw [h.layouts]
    exact List.getElem?_zipWith_eq_some.mpr ⟨rank, a, hrank, ha, rfl⟩
  · have hcount := elementCount_eq_some_iff.mpr ⟨rfl, hcounted.isWord⟩
    simp only [CoreLayout.ofInput, show elementCount (a.coreShape rank) = _ from hcount]
    rfl

/-- An access of a bound call stays inside its core block, if its slots have indices below their
extents. -/
theorem inside_of_bounded (h : p.Binds inputs call shape) {iteration : Nat}
    (hiteration : iteration < call.loopCount) {access : Access} (haccess : access ∈ p.accesses)
    {index : IndexTable} (hbounded : ∀ slot ∈ access.slots, Bounded call.extents index slot) :
    Read.Inside (p.coreShapes inputs) call.layouts ⟨access.operand, access.slots, index⟩ := by
  obtain ⟨coreShape, hshape, hfits⟩ := h.accesses access haccess
  obtain ⟨block, layout, -, hlayout, rfl, hcounted, hstrides, hsize⟩ :=
    h.exists_block hiteration hshape
  obtain ⟨indices, hindices, hin⟩ := exists_indices hfits hbounded
  -- inside the shape there is a position, and the strides lead there
  obtain ⟨offset, hoffset, hlt⟩ := hin.exists_position
  refine ⟨block.shape, layout, indices, offset, hshape, hlayout, ?_, hindices, hin, ?_, ?_⟩
  · rw [hstrides, length_rowMajorStrides, hfits.length_eq]
  · rw [hstrides, flatOffset_eq_rowMajorPosition hcounted.isWord hindices hin, hoffset]
  · rw [hsize]
    exact hlt

/-- **A read inside its core block finds an element of it**: the element at the multi-index that the
slots have. -/
theorem load_of_inside (h : p.Binds inputs call shape) {iteration : Nat}
    (hiteration : iteration < call.loopCount) {read : Read}
    (hread : read.Inside (p.coreShapes inputs) call.layouts) :
    ∃ block indices x, (coreBlocks p.coreRanks inputs iteration)[read.operand]? = some block ∧
      List.Forall₂ (fun slot i => read.index[slot]? = some i) read.slots indices ∧
      block.at? indices = some x ∧
      (call.env (coreBlocks p.coreRanks inputs iteration)).load read.index read.operand read.slots =
        some x := by
  obtain ⟨coreShape, layout, indices, offset, hshape, hlayout, -, hindices, hin, hoffset, hlt⟩ :=
    hread
  obtain ⟨block, layout', hblock, hlayout', rfl, hcounted, hstrides, hsize⟩ :=
    h.exists_block hiteration hshape
  obtain rfl : layout = layout' := Option.some.inj (hlayout.symm.trans hlayout')
  rw [hstrides] at hoffset
  rw [hsize, ← hcounted.size] at hlt
  have hposition : rowMajorPosition block.shape indices = some offset := by
    rw [← flatOffset_eq_rowMajorPosition hcounted.isWord hindices hin, hoffset]
  refine ⟨block, indices, block.data[offset], hblock, hindices, ?_, ?_⟩
  · simp only [CoreBlock.at?, hposition, Option.bind_eq_bind, Option.bind_some,
      Array.getElem?_eq_getElem hlt]
  · simp only [Env.load, BoundCall.env, List.getElem?_map, hblock, Option.map_some,
      CoreBlock.operand, hoffset, Option.bind_eq_bind, Option.bind_some,
      Array.getElem?_eq_getElem hlt]

theorem answers_of_inside (h : p.Binds inputs call shape) {iteration : Nat}
    (hiteration : iteration < call.loopCount) (read : Read)
    (hread : read.Inside (p.coreShapes inputs) call.layouts) :
    (call.env (coreBlocks p.coreRanks inputs iteration)).Answers read := by
  obtain ⟨_, _, x, _, _, _, hx⟩ := h.load_of_inside hiteration hread
  exact ⟨x, hx⟩

/-! ## Output elements -/

/-- Where there is an output element, the output dimensions have extents, and none of them is
zero. -/
theorem outputShape_counted (h : p.Binds inputs call shape) {position : Nat}
    (hposition : position < call.outputCoreSize) :
    call.outputCoreSize = (p.outputShape call.extents).prod ∧ 0 ∉ p.outputShape call.extents := by
  rw [h.outputCoreSize, elementCount_eq] at hposition ⊢
  split at hposition
  · next hword =>
    -- an extent of zero would leave no position
    rw [if_pos hword, Option.getD_some] at *
    refine ⟨rfl, fun hzero => ?_⟩
    rw [(prod_eq_zero_iff _).mpr hzero] at hposition
    exact Nat.not_lt_zero _ hposition
  · exact absurd hposition (Nat.not_lt_zero _)

/-- **Every output element can be computed.** From any index table, decoding gives the output slots
the multi-index of the element; then the kernel is safe, and all its reads are inside. -/
theorem safe_element {f : CoreFunction} {s : Signature} (h : p.Binds inputs call shape)
    (hp : p.Lowers f s) (hs : s.WellFormed) {iteration position : Nat}
    (hiteration : iteration < call.loopCount) (hposition : position < call.outputCoreSize)
    {index : IndexTable} (hlength : index.length = call.extents.length) :
    ∃ index', decodePosition call.extents p.outputSlots position index = some (0, index') ∧
      index'.length = call.extents.length ∧
      List.Forall₂ (fun slot i => index'[slot]? = some i) p.outputSlots
        (unrank (p.outputShape call.extents) position) ∧
      p.root.Safe (Read.Inside (p.coreShapes inputs) call.layouts)
        (call.env (coreBlocks p.coreRanks inputs iteration)) index' := by
  obtain ⟨hsize, hpos⟩ := h.outputShape_counted hposition
  have hslots : List.Forall₂ (fun slot extent => call.extents[slot]? = some extent) p.outputSlots
      (p.outputShape call.extents) := by
    rw [Program.outputShape, List.forall₂_map_right_iff, List.forall₂_same]
    intro slot hslot
    have hlt : slot < call.extents.length := h.extents_length ▸ hp.outputSlots_lt slot hslot
    rw [List.getD_eq_getElem?_getD, List.getElem?_eq_getElem hlt, Option.getD_some]
  obtain ⟨index', hdecode, hlength', hindex, -⟩ :=
    decodePosition_eq_unrank hslots (hp.outputSlots_nodup hs) hpos hlength position
  refine ⟨index', ?_, hlength', hindex, ?_⟩
  · rw [hdecode, ← hsize, Nat.div_eq_of_lt hposition]
  · have hscoped : p.root.Scoped call.extents.length p.outputSlots := by
      rw [h.extents_length]
      exact hp.root_scoped
    refine Node.safe_of_scoped hscoped (fun access haccess index hbounded => ?_) hlength'
      (bounded_of_decoded hslots hpos hindex)
    -- the list of accesses is complete, so binding has checked this read
    rw [hp.loads_eq_accesses] at haccess
    exact h.inside_of_bounded hiteration haccess hbounded

end Program.Binds

end ArrayKernels
