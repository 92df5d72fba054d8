import ArrayKernels.Core.Run
import ArrayKernels.Proofs.RowMajor
import ArrayKernels.Proofs.Scoping

/-!
# What binding guarantees

A call that can be bound has inputs that fit together. Binding goes through the inputs once and
collects extents and a loop shape; here its outcome is stated for the inputs as a whole. Every core
axis has the extent of its slot, all loop shapes are one, every read stays within the axes that it
addresses, and the core blocks of every iteration lie inside the data.

## Main results

- `Program.binds_of_bind`: what a bound call consists of.
- `Program.Binds.operands_eq`: the operands of an iteration are the core blocks of the inputs.
-/

namespace ArrayKernels

/-! ## The parts of a shape -/

namespace NdArray

def coreShape (a : NdArray) (coreRank : Nat) : Shape := a.shape.drop (a.rank - coreRank)

def loopShape (a : NdArray) (coreRank : Nat) : Shape := a.shape.take (a.rank - coreRank)

theorem loopShape_append_coreShape (a : NdArray) (coreRank : Nat) :
    a.loopShape coreRank ++ a.coreShape coreRank = a.shape :=
  List.take_append_drop _ _

theorem length_coreShape {a : NdArray} {coreRank : Nat} (h : coreRank ≤ a.rank) :
    (a.coreShape coreRank).length = coreRank := by
  have hrank : a.rank = a.shape.length := rfl
  rw [coreShape, List.length_drop]
  omega

theorem size_lt (a : NdArray) : a.data.size < wordBound :=
  (elementCount_eq_some_iff.mp a.count_eq).2

/-- The core block of an iteration: the whole array if it has no loop dimensions. -/
def coreBlock (a : NdArray) (coreRank iteration : Nat) : CoreBlock :=
  let shape := a.coreShape coreRank
  ⟨shape, if a.loopShape coreRank = [] then a.data
    else a.data.extract (iteration * shape.prod) (iteration * shape.prod + shape.prod)⟩

end NdArray

def CoreBlock.operand (block : CoreBlock) : Operand := ⟨block.data, rowMajorStrides block.shape⟩

/-- The core blocks of all inputs in an iteration. -/
def coreBlocks (coreRanks : List Nat) (inputs : List NdArray) (iteration : Nat) : List CoreBlock :=
  List.zipWith (fun coreRank a => a.coreBlock coreRank iteration) coreRanks inputs

/-- The loop shape of the array, if it has loop dimensions. -/
def NdArray.loops? (a : NdArray) (coreRank : Nat) : Option Shape :=
  if (a.loopShape coreRank).isEmpty then none else some (a.loopShape coreRank)

/-- The loop shape of the first input that has loop dimensions. -/
def firstLoops (coreRanks : List Nat) (inputs : List NdArray) : Option Shape :=
  (List.zipWith (fun coreRank a => a.loops? coreRank) coreRanks inputs).findSome? id

/-- The layout of the core blocks of an input. -/
def CoreLayout.ofInput (coreRank : Nat) (a : NdArray) : CoreLayout :=
  ⟨(elementCount (a.coreShape coreRank)).getD 0, (a.loopShape coreRank).isEmpty,
    rowMajorStrides (a.coreShape coreRank)⟩

/-! ## Axes -/

/-- What is known of extents stays known. -/
def ExtentsKept (before after : List (Option Nat)) : Prop :=
  after.length = before.length ∧
    ∀ (slot extent : Nat), before[slot]? = some (some extent) → after[slot]? = some (some extent)

theorem ExtentsKept.trans {a b c : List (Option Nat)} (hab : ExtentsKept a b)
    (hbc : ExtentsKept b c) : ExtentsKept a c :=
  ⟨hbc.1.trans hab.1, fun slot extent h => hbc.2 slot extent (hab.2 slot extent h)⟩

/-- The axes have the extents of their slots. -/
def AxesBound (extents : List (Option Nat)) (slots : List Nat) (shape : Shape) : Prop :=
  List.Forall₂ (fun slot extent => extents[slot]? = some (some extent)) slots shape

theorem AxesBound.kept {before after : List (Option Nat)} {slots : List Nat} {shape : Shape}
    (h : AxesBound before slots shape) (hkept : ExtentsKept before after) :
    AxesBound after slots shape :=
  h.imp fun slot extent => hkept.2 slot extent

/-- Giving slots the extents of axes keeps what was known, and gives every slot its extent. -/
theorem bindAxes_ok {dims : List String} {slots : List Nat} {shape : Shape}
    {extents extents' : List (Option Nat)} (hlength : slots.length = shape.length)
    (hslots : ∀ slot ∈ slots, slot < extents.length)
    (h : bindAxes dims slots shape extents = .ok extents') :
    ExtentsKept extents extents' ∧ AxesBound extents' slots shape := by
  induction slots generalizing shape extents with
  | nil =>
    obtain rfl : shape = [] := List.length_eq_zero_iff.mp hlength.symm
    cases h
    exact ⟨⟨rfl, fun _ _ h => h⟩, .nil⟩
  | cons slot slots ih =>
    cases shape with
    | nil => cases hlength
    | cons extent shape =>
      obtain ⟨hslot, hslots⟩ := List.forall_mem_cons.mp hslots
      have hlength : slots.length = shape.length := by simpa using hlength
      rw [bindAxes] at h
      cases hknown : extents[slot]?.join with
      | none =>
        -- the slot occurs for the first time
        rw [hknown] at h
        have hset : ExtentsKept extents (extents.set slot (some extent)) := by
          refine ⟨List.length_set, fun other e hother => ?_⟩
          have hne : slot ≠ other := by
            rintro rfl
            rw [hother] at hknown
            cases hknown
          rw [List.getElem?_set_ne hne, hother]
        obtain ⟨hkept, haxes⟩ := ih hlength (by rwa [List.length_set]) h
        refine ⟨hset.trans hkept, .cons ?_ haxes⟩
        exact hkept.2 slot extent (List.getElem?_set_self hslot)
      | some first =>
        -- the slot has an extent already, and it is this one
        rw [hknown] at h
        simp only at h
        split at h
        · next hsame =>
          obtain ⟨hkept, haxes⟩ := ih hlength hslots h
          refine ⟨hkept, .cons ?_ haxes⟩
          rw [Option.join_eq_some_iff] at hknown
          exact hkept.2 slot extent (hsame ▸ hknown)
        · cases h

/-! ## Inputs -/

/-- The input has the core dimensions that are asked for, its axes have the extents of their slots,
and its loop shape is the one of the call, if it has one. -/
structure InputBound (extents : List (Option Nat)) (loopShape : Option Shape) (slots : List Nat)
    (a : NdArray) : Prop where
  rank : slots.length ≤ a.rank
  axes : AxesBound extents slots (a.coreShape slots.length)
  loops : a.loopShape slots.length = [] ∨ loopShape = some (a.loopShape slots.length)

/-- What is known after more inputs have been taken into account. -/
structure Known.Absorbs (known : Known) (inputSlots : List (List Nat)) (inputs : List NdArray)
    (known' : Known) : Prop where
  extents : ExtentsKept known.extents known'.extents
  loopShape :
    known'.loopShape = known.loopShape.or (firstLoops (inputSlots.map List.length) inputs)
  layouts :
    known'.layouts =
      known.layouts ++ List.zipWith CoreLayout.ofInput (inputSlots.map List.length) inputs
  inputs : List.Forall₂ (InputBound known'.extents known'.loopShape) inputSlots inputs

/-- Loop shapes agree, and the first one counts. -/
theorem bindLoops_ok {index : Nat} {loops : Shape} {known known' : Option Shape}
    (h : bindLoops index loops known = .ok known') :
    known' = known.or (if loops.isEmpty then none else some loops) ∧
      (loops = [] ∨ known' = some loops) := by
  unfold bindLoops at h
  cases hempty : loops.isEmpty with
  | true =>
    rw [hempty, if_pos rfl] at h
    cases h
    exact ⟨(Option.or_none).symm, .inl (List.isEmpty_iff.mp hempty)⟩
  | false =>
    rw [hempty, if_neg Bool.false_ne_true] at h
    cases known with
    | none =>
      cases h
      exact ⟨rfl, .inr rfl⟩
    | some expected =>
      simp only at h
      split at h
      · next hsame =>
        cases h
        exact ⟨rfl, .inr (by rw [hsame])⟩
      · cases h

theorem bindInput_ok {dims : List String} {index : Nat} {slots : List Nat} {a : NdArray}
    {known known' : Known} (hslots : ∀ slot ∈ slots, slot < known.extents.length)
    (h : bindInput dims index slots a known = .ok known') :
    ExtentsKept known.extents known'.extents ∧
      known'.loopShape = known.loopShape.or (a.loops? slots.length) ∧
      known'.layouts = known.layouts ++ [.ofInput slots.length a] ∧
      InputBound known'.extents known'.loopShape slots a := by
  simp only [bindInput] at h
  split at h
  · cases h
  · next hrank =>
    have hrank : slots.length ≤ a.rank := by omega
    obtain ⟨extents, haxes, h⟩ := bind_eq_ok_iff.mp h
    obtain ⟨loopShape, hloops, heq⟩ := bind_eq_ok_iff.mp h
    cases heq
    obtain ⟨hkept, haxes⟩ := bindAxes_ok (NdArray.length_coreShape hrank).symm hslots haxes
    obtain ⟨hfirst, hloops⟩ := bindLoops_ok hloops
    exact ⟨hkept, hfirst, rfl, hrank, haxes, hloops⟩

theorem InputBound.kept {extents extents' : List (Option Nat)} {loopShape loopShape' : Option Shape}
    {slots : List Nat} {a : NdArray} (h : InputBound extents loopShape slots a)
    (hextents : ExtentsKept extents extents')
    (hloops : ∀ loops, loopShape = some loops → loopShape' = some loops) :
    InputBound extents' loopShape' slots a :=
  ⟨h.rank, h.axes.kept hextents, h.loops.imp id (hloops _)⟩

/-- Binding the inputs one after the other absorbs all of them. -/
theorem bindInputs_ok {dims : List String} {index : Nat} {inputSlots : List (List Nat)}
    {inputs : List NdArray} {known known' : Known} (hlength : inputs.length = inputSlots.length)
    (hslots : ∀ slots ∈ inputSlots, ∀ slot ∈ slots, slot < known.extents.length)
    (h : bindInputs dims index inputSlots inputs known = .ok known') :
    known.Absorbs inputSlots inputs known' := by
  induction inputSlots generalizing index inputs known with
  | nil =>
    obtain rfl : inputs = [] := List.length_eq_zero_iff.mp hlength
    cases h
    exact ⟨⟨rfl, fun _ _ h => h⟩, (Option.or_none).symm, (List.append_nil _).symm, .nil⟩
  | cons slots inputSlots ih =>
    cases inputs with
    | nil => cases hlength
    | cons a inputs =>
      obtain ⟨hslot, hslots⟩ := List.forall_mem_cons.mp hslots
      obtain ⟨known₁, hfirst, hrest⟩ := bind_eq_ok_iff.mp h
      obtain ⟨hkept, hloops, hlayouts, hinput⟩ := bindInput_ok hslot hfirst
      have hrest := ih (by simpa using hlength) (by rwa [hkept.1]) hrest
      refine ⟨hkept.trans hrest.extents, ?_, ?_, .cons ?_ hrest.inputs⟩
      · -- the first loop shape is found in this input or in the others
        rw [hrest.loopShape, hloops, Option.or_assoc]
        congr 1
        simp only [firstLoops, List.map_cons, List.zipWith_cons_cons, List.findSome?_cons, id]
        cases a.loops? slots.length <;> rfl
      · rw [hrest.layouts, hlayouts, List.append_assoc]
        rfl
      · -- what this input has been bound to is not changed by the others
        refine hinput.kept hrest.extents fun loops hknown => ?_
        rw [hrest.loopShape, hknown]
        rfl

/-! ## Reads -/

/-- The read stays within the axes of the block that it addresses: no dimension that indexes an
axis is longer than the axis. -/
def Access.Fits (extents : List Nat) (blockShapes : List Shape) (access : Access) : Prop :=
  ∃ shape, blockShapes[access.operand]? = some shape ∧
    List.Forall₂ (fun slot extent => extents.getD slot 0 ≤ extent) access.slots shape

theorem axisFault?_eq_none {dims : List String} {extents : List Nat} {operand axis : Nat}
    {slots declared : List Nat} (hlength : slots.length = declared.length)
    (h : axisFault? dims extents operand axis slots declared = none) :
    List.Forall₂ (fun slot own => extents.getD slot 0 ≤ extents.getD own 0) slots declared := by
  induction slots generalizing axis declared with
  | nil =>
    obtain rfl : declared = [] := List.length_eq_zero_iff.mp hlength.symm
    exact .nil
  | cons slot slots ih =>
    cases declared with
    | nil => cases hlength
    | cons own declared =>
      simp only [axisFault?] at h
      split at h
      · cases h
      · next hle => exact .cons (by omega) (ih (by simpa using hlength) h)

/-! ## Bound calls -/

namespace Program

def coreRanks (p : Program) : List Nat := p.inputSlots.map List.length

/-- The loop shape of a call. -/
def loopShape (p : Program) (inputs : List NdArray) : Shape :=
  (firstLoops p.coreRanks inputs).getD []

/-- The core shapes of the inputs. -/
def coreShapes (p : Program) (inputs : List NdArray) : List Shape :=
  List.zipWith (fun coreRank a => a.coreShape coreRank) p.coreRanks inputs

/-- The core shape of the output. -/
def outputShape (p : Program) (extents : List Nat) : Shape :=
  p.outputSlots.map (extents.getD · 0)

end Program

/-- The input has the core dimensions that are asked for, its axes have the extents of their slots,
and its loop shape is the one of the call, if it has one. -/
structure InputFits (extents : List Nat) (loopShape : Shape) (slots : List Nat) (a : NdArray) :
    Prop where
  rank : slots.length ≤ a.rank
  axes :
    List.Forall₂ (fun slot extent => extents[slot]? = some extent) slots (a.coreShape slots.length)
  loops : a.loopShape slots.length = [] ∨ a.loopShape slots.length = loopShape

theorem InputBound.fits {extents : List (Option Nat)} {loopShape : Option Shape} {slots : List Nat}
    {a : NdArray} (h : InputBound extents loopShape slots a) :
    InputFits (extents.map (·.getD 0)) (loopShape.getD []) slots a := by
  refine ⟨h.rank, h.axes.imp fun slot extent hextent => ?_, h.loops.imp id fun hloops => ?_⟩
  · rw [List.getElem?_map, hextent]
    rfl
  · rw [hloops]
    rfl

theorem InputFits.coreShape_eq {extents : List Nat} {loopShape : Shape} {slots : List Nat}
    {a : NdArray} (h : InputFits extents loopShape slots a) :
    slots.map (extents.getD · 0) = a.coreShape slots.length := by
  rw [← List.forall₂_eq_eq_eq, List.forall₂_map_left_iff]
  refine h.axes.imp fun slot extent hextent => ?_
  rw [List.getD_eq_getElem?_getD, hextent, Option.getD_some]

private theorem forall₂_axes {extents : List Nat} {loopShape : Shape} {inputSlots : List (List Nat)}
    {inputs : List NdArray} (h : List.Forall₂ (InputFits extents loopShape) inputSlots inputs) :
    List.Forall₂ (List.Forall₂ fun slot extent => extents[slot]? = some extent) inputSlots
      (List.zipWith (fun coreRank a => a.coreShape coreRank) (inputSlots.map List.length)
        inputs) := by
  induction h with
  | nil => exact .nil
  | cons hinput _ ih => exact .cons hinput.axes ih

/-- **What a bound call consists of.** -/
structure Program.Binds (p : Program) (inputs : List NdArray) (call : BoundCall) (shape : Shape) :
    Prop where
  extents_length : call.extents.length = p.dims.length
  fits : List.Forall₂ (InputFits call.extents (p.loopShape inputs)) p.inputSlots inputs
  layouts : call.layouts = List.zipWith CoreLayout.ofInput p.coreRanks inputs
  accesses : ∀ access ∈ p.accesses, access.Fits call.extents (p.coreShapes inputs)
  shape_eq : shape = p.loopShape inputs ++ p.outputShape call.extents
  counted : elementCount shape ≠ none
  loopCount : call.loopCount = (elementCount (p.loopShape inputs)).getD 0
  outputCoreSize : call.outputCoreSize = (elementCount (p.outputShape call.extents)).getD 0

/-- An access that is not reported fits, since the extents of the slots that an input declares are
those of its axes. -/
private theorem Access.fits_of_axisFault? {extents : List Nat} {loopShape : Shape}
    {inputSlots : List (List Nat)} {inputs : List NdArray}
    (hinputs : List.Forall₂ (InputFits extents loopShape) inputSlots inputs) {access : Access}
    (hdeclared : access.Declared inputSlots) {dims : List String}
    (h : axisFault? dims extents access.operand 0 access.slots
      (inputSlots.getD access.operand []) = none) :
    access.Fits extents
      (List.zipWith (fun coreRank a => a.coreShape coreRank) (inputSlots.map List.length)
        inputs) := by
  obtain ⟨declared, hslots, hlength⟩ := hdeclared
  obtain ⟨a, ha, hfits⟩ := forall₂_getElem? hinputs hslots
  rw [List.getD_eq_getElem?_getD, hslots, Option.getD_some] at h
  refine ⟨a.coreShape declared.length, ?_, ?_⟩
  · simp only [List.getElem?_zipWith, List.getElem?_map, hslots, ha, Option.map_some]
  · -- the extents that were compared with are those of the axes
    rw [← hfits.coreShape_eq, List.forall₂_map_right_iff]
    exact axisFault?_eq_none hlength.symm h

theorem Program.binds_of_bind {p : Program} {inputs : List NdArray} {call : BoundCall}
    {shape : Shape} (hslots : ∀ slots ∈ p.inputSlots, ∀ slot ∈ slots, slot < p.dims.length)
    (hdeclared : ∀ access ∈ p.accesses, access.Declared p.inputSlots)
    (h : p.bind inputs = .ok (call, shape)) : p.Binds inputs call shape := by
  unfold bind at h
  split at h
  · next hlength =>
    obtain ⟨known, hknown, h⟩ := bind_eq_ok_iff.mp h
    have habsorbs := bindInputs_ok hlength (by simpa using hslots) hknown
    have hloops : known.loopShape = firstLoops p.coreRanks inputs := by
      rw [habsorbs.loopShape, Option.none_or]
      rfl
    have hfits : List.Forall₂ (InputFits (known.extents.map (·.getD 0)) (p.loopShape inputs))
        p.inputSlots inputs := by
      rw [loopShape, ← hloops]
      exact habsorbs.inputs.imp fun slots a hbound => hbound.fits
    unfold bindOutput at h
    simp only at h
    split at h
    · cases h
    · next hfault =>
      split at h
      · cases h
      · next hcount =>
        cases h
        exact
          { extents_length := by
              rw [List.length_map, habsorbs.extents.1, List.length_replicate]
            fits := hfits
            layouts := habsorbs.layouts
            accesses := fun access hmem =>
              Access.fits_of_axisFault? hfits (hdeclared access hmem)
                (List.findSome?_eq_none_iff.mp hfault access hmem)
            shape_eq := by rw [hloops]; rfl
            counted := hcount
            loopCount := by rw [hloops]; rfl
            outputCoreSize := rfl }
  · cases h

theorem Program.Lowers.binds_of_bind {p : Program} {f : CoreFunction} {s : Signature}
    {inputs : List NdArray} {call : BoundCall} {shape : Shape} (hp : p.Lowers f s)
    (h : p.bind inputs = .ok (call, shape)) : p.Binds inputs call shape :=
  Program.binds_of_bind hp.inputSlots_lt hp.accesses_declared h

/-! ## Core blocks -/

/-- The block has as many elements as its shape says, and their number is a word. -/
structure CoreBlock.Counted (block : CoreBlock) : Prop where
  size : block.data.size = block.shape.prod
  isWord : block.shape.prod < wordBound

/-- **The core blocks of an iteration lie inside the data.** An iteration takes place only if the
loop shape can be counted and has no extent of zero; then the core size is exact as well. -/
theorem NdArray.block?_eq_coreBlock {a : NdArray} {coreRank iteration : Nat} {loopShape : Shape}
    (hloops : a.loopShape coreRank = [] ∨ a.loopShape coreRank = loopShape)
    (hiteration : iteration < (elementCount loopShape).getD 0) :
    (CoreLayout.ofInput coreRank a).block? a.data iteration =
        some (a.coreBlock coreRank iteration).data ∧
      (a.coreBlock coreRank iteration).Counted := by
  obtain ⟨hprod, hword⟩ := elementCount_eq_some_iff.mp a.count_eq
  rw [← a.loopShape_append_coreShape coreRank, List.prod_append] at hprod
  have hloop : iteration < loopShape.prod := by
    rw [elementCount_eq] at hiteration
    split at hiteration
    · exact hiteration
    · exact absurd hiteration (Nat.not_lt_zero _)
  by_cases hempty : a.loopShape coreRank = []
  · -- the array is its only core block
    rw [hempty, List.prod_nil, Nat.one_mul] at hprod
    have hcount : elementCount (a.coreShape coreRank) = some a.data.size :=
      elementCount_eq_some_iff.mpr ⟨hprod, hword⟩
    refine ⟨?_, ⟨?_, ?_⟩⟩
    · simp [CoreLayout.block?, CoreLayout.ofInput, coreBlock, hempty, hcount]
    · simp only [coreBlock, hempty, if_true, hprod]
    · exact hprod ▸ hword
  · -- the array consists of as many core blocks as there are iterations
    rw [hloops.resolve_left hempty] at hprod
    have hle : (a.coreShape coreRank).prod ≤ a.data.size := by
      rw [← hprod]
      exact Nat.le_mul_of_pos_left _ (by omega)
    have hcount : elementCount (a.coreShape coreRank) = some (a.coreShape coreRank).prod :=
      elementCount_eq_some_iff.mpr ⟨rfl, by omega⟩
    have hstop : iteration * (a.coreShape coreRank).prod + (a.coreShape coreRank).prod ≤
        a.data.size := by
      rw [← hprod, ← Nat.succ_mul]
      exact Nat.mul_le_mul_right _ hloop
    refine ⟨?_, ⟨?_, by simp only [coreBlock]; omega⟩⟩
    · simp [CoreLayout.block?, CoreLayout.ofInput, coreBlock, hempty, hcount, hstop]
    · simp only [coreBlock, hempty, if_false, Array.size_extract]
      omega

/-- All blocks of an iteration lie inside the data. -/
private theorem forall₂_blocks {extents : List Nat} {loopShape : Shape} {iteration : Nat}
    {inputSlots : List (List Nat)} {inputs : List NdArray}
    (hfits : List.Forall₂ (InputFits extents loopShape) inputSlots inputs)
    (hiteration : iteration < (elementCount loopShape).getD 0) :
    List.Forall₂
        (fun (layout, a) operand =>
          (layout.block? a.data iteration).map (⟨·, layout.strides⟩) = some operand)
        ((List.zipWith CoreLayout.ofInput (inputSlots.map List.length) inputs).zip inputs)
        ((coreBlocks (inputSlots.map List.length) inputs iteration).map CoreBlock.operand) ∧
      ∀ block ∈ coreBlocks (inputSlots.map List.length) inputs iteration, block.Counted := by
  unfold coreBlocks
  induction hfits with
  | nil => exact ⟨.nil, by simp⟩
  | cons hinput _ ih =>
    obtain ⟨hblock, hcounted⟩ := NdArray.block?_eq_coreBlock hinput.loops hiteration
    refine ⟨.cons ?_ ih.1, List.forall_mem_cons.mpr ⟨hcounted, ih.2⟩⟩
    simp only [hblock, Option.map_some]
    rfl

namespace Program.Binds

variable {p : Program} {inputs : List NdArray} {call : BoundCall} {shape : Shape}

theorem axes (h : p.Binds inputs call shape) :
    List.Forall₂ (List.Forall₂ fun slot extent => call.extents[slot]? = some extent) p.inputSlots
      (p.coreShapes inputs) :=
  forall₂_axes h.fits

/-- **The operands of an iteration are the core blocks of the inputs.** -/
theorem operands_eq (h : p.Binds inputs call shape) {iteration : Nat}
    (hiteration : iteration < call.loopCount) :
    call.operands? inputs iteration =
      some ((coreBlocks p.coreRanks inputs iteration).map CoreBlock.operand) := by
  obtain ⟨hblocks, -⟩ := forall₂_blocks h.fits (h.loopCount ▸ hiteration)
  rw [BoundCall.operands?, h.layouts, mapM_eq_some_iff]
  refine hblocks.imp fun (layout, a) operand hoperand => ?_
  obtain ⟨block, hblock, rfl⟩ := Option.map_eq_some_iff.mp hoperand
  simp only [hblock]
  rfl

theorem blocks_counted (h : p.Binds inputs call shape) {iteration : Nat}
    (hiteration : iteration < call.loopCount) :
    ∀ block ∈ coreBlocks p.coreRanks inputs iteration, block.Counted :=
  (forall₂_blocks h.fits (h.loopCount ▸ hiteration)).2

theorem coreShapes_eq (p : Program) (inputs : List NdArray) (iteration : Nat) :
    (coreBlocks p.coreRanks inputs iteration).map CoreBlock.shape = p.coreShapes inputs := by
  rw [coreBlocks, List.map_zipWith]
  rfl

end Program.Binds

end ArrayKernels
