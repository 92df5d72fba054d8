import ArrayKernels.Proofs.Acceptance
import ArrayKernels.Proofs.CoreRun
import ArrayKernels.Proofs.OpenCL.KernelSteps
import ArrayKernels.Proofs.OpenCL.WrittenScopes

/-!
# Kernels of bound calls

The text that is written for a bound call, read as OpenCL C, computes what a run of the call
computes: the work item of a number leaves in the result the element of that number, and nothing else
is changed. All positions in the kernel are exact, for the data of the inputs have no more elements
than there are words.

What a decimal constant denotes is not fixed here. It is assumed that the numerals of a kernel denote
the numbers that they were printed from.

## Main results

- `Program.Binds.supplied_of_inside`: the device can make every read that the kernel may make.
- `run_coreSource`: one work item.
- `core_kernels_refine_runs`: the text of a kernel.
-/

namespace ArrayKernels

open OpenCL Device

/-! ## Reads -/

theorem Node.Safe.imp {P Q : Read → Prop} (h : ∀ read, P read → Q read) {env : Env} {n : Node}
    {index : IndexTable} (hsafe : n.Safe P env index) : n.Safe Q env index := by
  induction n generalizing index with
  | const v => trivial
  | arg i => exact hsafe
  | unary op a ih => exact ih hsafe
  | binary op a b iha ihb => exact ⟨iha hsafe.1, ihb hsafe.2⟩
  | select c t o ihc iht iho => exact ⟨ihc hsafe.1, iht hsafe.2.1, iho hsafe.2.2⟩
  | load k slots => exact h _ hsafe
  | sum slot body ih =>
    obtain ⟨hslot, extent, hextent, hbody⟩ := hsafe
    exact ⟨hslot, extent, hextent, fun i hi => ih (hbody i hi)⟩

namespace Program.Binds

variable {p : Program} {inputs : List NdArray} {call : BoundCall} {shape : Shape} {f : CoreFunction}
  {s : Signature}

theorem layouts_length (h : p.Binds inputs call shape) :
    call.layouts.length = p.inputSlots.length := by
  rw [h.layouts, List.length_zipWith, Program.coreRanks, List.length_map, h.fits.length_eq,
    Nat.min_self]

/-- **The device can make every read that stays inside its core block**, and finds there what the
kernel finds. -/
theorem supplied_of_inside (h : p.Binds inputs call shape) {iteration : Nat}
    (hiteration : iteration < call.loopCount) {read : Read}
    (hread : read.Inside (p.coreShapes inputs) call.layouts) :
    Supplied (inputs.map NdArray.data) (call.layouts.map (·.start iteration))
      (call.layouts.map (·.strides)) (call.env (coreBlocks p.coreRanks inputs iteration)) read := by
  obtain ⟨_, _, x, _, _, _, hload⟩ := h.load_of_inside hiteration hread
  obtain ⟨_, layout, _, offset, _, hlayout, _, _, _, hoffset, hlt⟩ := hread
  obtain ⟨a, ha, hstop⟩ := forall₂_getElem? (h.slices_inside hiteration) hlayout
  -- the operand has been cut out of the data behind the start of the block
  have hzip : (call.layouts.zip inputs)[read.operand]? = some (layout, a) :=
    List.getElem?_zip_eq_some.mpr ⟨hlayout, ha⟩
  obtain ⟨operand, hoperand, hcut⟩ :=
    forall₂_getElem? (mapM_eq_some_iff.mp (h.operands_eq hiteration)) hzip
  have hblock : layout.block? a.data iteration =
      some (a.data.extract (layout.start iteration) (layout.start iteration + layout.size)) :=
    if_pos hstop
  simp only [hblock, Option.bind_eq_bind, Option.bind_some, Option.pure_def,
    Option.some.injEq] at hcut
  have hx : (a.data.extract (layout.start iteration)
      (layout.start iteration + layout.size))[offset]? = some x := by
    simp only [Env.load, BoundCall.env, hoperand, ← hcut, hoffset, Option.bind_eq_bind,
      Option.bind_some] at hload
    exact hload
  rw [Array.getElem?_extract, if_pos (by omega)] at hx
  have hword : a.data.size < wordBound := (elementCount_eq_some_iff.mp a.count_eq).2
  refine ⟨a.data, layout.start iteration, offset, x, ?_, ?_, ?_, by omega, hx, hload⟩
  · rw [List.getElem?_map, ha]
    rfl
  · rw [List.getElem?_map, hlayout]
    rfl
  · rw [List.getD_eq_getElem?_getD, List.getElem?_map, hlayout]
    exact hoffset

end Program.Binds

/-! ## Words -/

theorem strideOver_lt (shape : Shape) : strideOver shape < wordBound := by
  cases shape with
  | nil => decide
  | cons extent inner =>
    have hlast : wordBound - 1 < wordBound := Nat.sub_lt wordBound_pos Nat.one_pos
    rw [strideOver, saturatingMul]
    exact Nat.lt_of_le_of_lt (Nat.min_le_right _ _) hlast

theorem rowMajorStrides_lt (shape : Shape) : ∀ stride ∈ rowMajorStrides shape, stride < wordBound := by
  induction shape with
  | nil => exact fun stride h => by cases h
  | cons extent inner ih => exact List.forall_mem_cons.mpr ⟨strideOver_lt inner, ih⟩

theorem elementCount_getD_lt (shape : Shape) : (elementCount shape).getD 0 < wordBound := by
  cases hcount : elementCount shape with
  | none => exact wordBound_pos
  | some n => exact (elementCount_eq_some_iff.mp hcount).2

namespace Program.Binds

variable {p : Program} {inputs : List NdArray} {call : BoundCall} {shape : Shape} {f : CoreFunction}
  {s : Signature}

/-- Every extent of the call is an extent of an input. -/
theorem exists_extent (h : p.Binds inputs call shape) (hp : p.Lowers f s) (hs : s.WellFormed)
    {extent : Nat} (hextent : extent ∈ call.extents) : ∃ a ∈ inputs, extent ∈ a.shape := by
  obtain ⟨slot, hslot⟩ := List.mem_iff_getElem?.mp hextent
  have hlt : slot < s.dimensions.length := by
    rw [← hp.dims, ← h.extents_length]
    exact (List.getElem?_eq_some_iff.mp hslot).1
  have hname : s.dimensions[slot]? = some s.dimensions[slot] := List.getElem?_eq_getElem hlt
  -- the name of the slot stands in an input of the signature
  obtain ⟨group, hgroup, hmem⟩ := List.mem_flatten.mp (hs.mem_inputs (List.mem_of_getElem? hname))
  obtain ⟨slots, hslots, hresolved⟩ := exists_of_mem_left hp.inputs hgroup
  obtain ⟨slot', hslot', heq⟩ := exists_of_mem_left hresolved hmem
  rw [hp.dims, s.slotOf_of_getElem? hname] at heq
  cases heq
  obtain ⟨a, ha, hfits⟩ := exists_of_mem_left h.fits hslots
  obtain ⟨extent', hextent', heq⟩ := exists_of_mem_left hfits.axes hslot'
  obtain rfl : extent = extent' := Option.some.inj (hslot.symm.trans heq)
  exact ⟨a, ha, List.mem_of_mem_drop hextent'⟩

/-- The numbers of the call are words, if the extents of the inputs are. -/
theorem call_fits (h : p.Binds inputs call shape) (hp : p.Lowers f s) (hs : s.WellFormed)
    (hwords : ∀ a ∈ inputs, ∀ extent ∈ a.shape, extent < wordBound) : call.Fits := by
  have hlayout : ∀ layout ∈ call.layouts, ∃ rank a, layout = .ofInput rank a := by
    intro layout hlayout
    rw [h.layouts] at hlayout
    obtain ⟨i, hi⟩ := List.mem_iff_getElem?.mp hlayout
    obtain ⟨rank, a, -, -, rfl⟩ := List.getElem?_zipWith_eq_some.mp hi
    exact ⟨rank, a, rfl⟩
  refine ⟨fun extent hextent => ?_, ?_, fun layout hmem => ?_, fun layout hmem => ?_⟩
  · obtain ⟨a, ha, hshape⟩ := h.exists_extent hp hs hextent
    exact hwords a ha extent hshape
  · rw [h.outputCoreSize]
    exact elementCount_getD_lt _
  · obtain ⟨rank, a, rfl⟩ := hlayout layout hmem
    exact elementCount_getD_lt _
  · obtain ⟨rank, a, rfl⟩ := hlayout layout hmem
    exact rowMajorStrides_lt _

/-- The core blocks start at words. -/
theorem start_lt (h : p.Binds inputs call shape) {iteration : Nat}
    (hiteration : iteration < call.loopCount) :
    ∀ layout ∈ call.layouts, layout.start iteration < wordBound := by
  intro layout hlayout
  obtain ⟨a, -, hstop⟩ := exists_of_mem_left (h.slices_inside hiteration) hlayout
  have hword := a.size_lt
  omega

end Program.Binds

/-! ## Kernels -/

namespace Device

/-- The arguments of a kernel: the data of the inputs, the result and the number of its elements. -/
def arguments (inputs : List NdArray) (call : BoundCall) (out : Array Float) : List Content :=
  (inputs.map NdArray.data).map Content.array ++ [.array out, .word call.outputCount]

section Run

variable {p : Program} {inputs : List NdArray} {call : BoundCall} {shape : Shape} {f : CoreFunction}
  {s : Signature} {name : List Char} {store : Store} {out : Array Float}

/-- The body of the kernel of a call that has output elements. -/
theorem coreSource_body (h : p.Binds inputs call shape) (hcore : call.outputCoreSize ≠ 0) :
    (coreSource name p call).body =
      start (.declareWord true .iteration (.quotient .gid call.outputCoreSize)
        (.declareWord false .rest (.remainder .gid call.outputCoreSize)
          (splitPosition call.extents
            (findBlocks (finish ⟨call.extents, call.layouts.map (·.strides)⟩ p.root) 0 call.layouts)
            p.outputSlots.reverse))) := by
  have hmax : Nat.max call.outputCoreSize 1 = call.outputCoreSize :=
    Nat.max_eq_left (Nat.pos_of_ne_zero hcore)
  have htake : call.layouts.take p.inputSlots.length = call.layouts :=
    List.take_of_length_le (Nat.le_of_eq h.layouts_length)
  simp only [coreSource, hmax, htake]

/-- Only the parameters have variables when the kernel starts. -/
theorem Source.Enters.eq_none {arrays : List (Array Float)} {count : Nat}
    (henters : (coreSource name p call).Enters arrays out count store) {name : Name}
    (hinput : ∀ k, name ≠ .input k) (hout : name ≠ .out) (hcount : name ≠ .count) :
    store name = none := by
  refine henters.other name (fun hmem => ?_) hout hcount
  obtain ⟨k, -, rfl⟩ := List.mem_map.mp hmem
  exact hinput k rfl

/-- What the expression of a kernel may use, once the position has been found. -/
theorem view_of_position (h : p.Binds inputs call shape) {count position : Nat} {iteration : Nat}
    (henters : (coreSource name p call).Enters (inputs.map NdArray.data) out count store)
    {store' : Store} (hkept : ∀ name : Name, ¬name.OfPosition → store' name = store name)
    (hstarts : ∀ k layout, call.layouts[k]? = some layout →
      store' (.base k) = some ⟨true, .word (layout.start iteration)⟩)
    (hindices : List.Forall₂ (fun slot i => store' (.index slot) = some ⟨true, .word i⟩) p.outputSlots
      (unrank (p.outputShape call.extents) position)) {index : IndexTable}
    (hindex : List.Forall₂ (fun slot i => index[slot]? = some i) p.outputSlots
      (unrank (p.outputShape call.extents) position)) {frame : Frame} (hframe : Holds frame store') :
    View (inputs.map NdArray.data) (call.layouts.map (·.start iteration)) p.outputSlots index
      [frame] := by
  refine hframe.view (fun k data hdata => ?_) (fun k first hfirst => ?_) (fun slot hslot => ?_)
  · have hlt : k < p.inputSlots.length := by
      rw [h.fits.length_eq, ← List.length_map (f := NdArray.data)]
      exact (List.getElem?_eq_some_iff.mp hdata).1
    rw [hkept _ id]
    exact henters.array k _ data (by simp [coreSource, hlt]) hdata
  · rw [List.getElem?_map, Option.map_eq_some_iff] at hfirst
    obtain ⟨layout, hlayout, rfl⟩ := hfirst
    exact hstarts k layout hlayout
  · -- the table and the variables have the same multi-index
    obtain ⟨k, hk⟩ := List.mem_iff_getElem?.mp hslot
    obtain ⟨i, hi, hslotIndex⟩ := forall₂_getElem? hindex hk
    obtain ⟨i', hi', hvariable⟩ := forall₂_getElem? hindices hk
    obtain rfl : i = i' := Option.some.inj (hi.symm.trans hi')
    exact ⟨i, hslotIndex, hvariable⟩

/-- **The work item of a number leaves the element of that number in the result**: the value of the
source expression for the iteration and the position that the number stands for. -/
theorem run_coreSource (h : p.Binds inputs call shape) (hp : p.Lowers f s) (hs : s.WellFormed)
    (hwords : ∀ a ∈ inputs, ∀ extent ∈ a.shape, extent < wordBound)
    {number : List Char → Option Float} (hnumber : Denotes number p.root) (name : List Char)
    {gid : Nat} (hgid : gid < call.outputCount) (hout : out.size = call.outputCount) :
    ∃ x, s.elementAt f.body inputs (gid / call.outputCoreSize)
        (unrank (p.outputShape call.extents) (gid % call.outputCoreSize)) = some x ∧
      (coreSource name p call).kernel.run number gid (arguments inputs call out) =
        some (arguments inputs call (out.setIfInBounds gid x)) := by
  have hcore : call.outputCoreSize ≠ 0 := by
    intro hzero
    rw [BoundCall.outputCount, hzero, Nat.mul_zero] at hgid
    exact Nat.not_lt_zero _ hgid
  have hiteration : gid / call.outputCoreSize < call.loopCount :=
    Nat.div_lt_of_lt_mul (Nat.mul_comm _ _ ▸ hgid)
  have hposition : gid % call.outputCoreSize < call.outputCoreSize :=
    Nat.mod_lt _ (Nat.pos_of_ne_zero hcore)
  obtain ⟨index, -, -, hindex, hinside⟩ :=
    h.safe_element hp hs hiteration hposition (List.length_replicate (a := 0))
  have hsafe := hinside.imp fun read => h.supplied_of_inside hiteration
  refine ⟨_, h.elementAt_eq_denote hp hs hiteration hindex hinside,
    Source.run_eq ?_ (nodup_coreSource name p call) fun frame store hframe henters => ?_⟩
  · simp [coreSource, h.fits.length_eq]
  -- the indices and the blocks are found first
  have hpos : ∀ slot ∈ p.outputSlots, call.extents.getD slot 0 ≠ 0 := by
    intro slot hslot hzero
    exact (h.outputShape_counted hposition).2 (List.mem_map.mpr ⟨slot, hslot, hzero⟩)
  have hnew : ∀ name : Name, name.OfPosition → store name = none := by
    intro name hname
    refine henters.eq_none ?_ ?_ ?_
    · rintro k rfl
      exact hname
    · rintro rfl
      exact hname
    · rintro rfl
      exact hname
  obtain ⟨store', hreaches, hkept, hnumbered, hindices, hstarts⟩ := reaches_expression number gid
    (finish ⟨call.extents, call.layouts.map (·.strides)⟩ p.root) henters.count hgid hcore hnew
    (hp.outputSlots_nodup hs) hpos (h.start_lt hiteration)
  obtain ⟨frame₁, hframe₁, hexec⟩ := hreaches frame hframe
  have hview := view_of_position h henters hkept hstarts hindices hindex hframe₁
  -- and then the expression is computed
  have htotal : ∀ k, store' (.total k) = none := by
    intro k
    rw [hkept _ id]
    exact henters.eq_none (by simp) (by simp) (by simp)
  have hscoped : p.root.Scoped call.extents.length p.outputSlots :=
    h.extents_length ▸ hp.root_scoped
  obtain ⟨frame', hrun, hresult, hothers⟩ := exec_finish hnumber (h.call_fits hp hs hwords).extents
    hscoped hsafe hframe₁ hview htotal hnumbered ((hkept .out id).trans henters.out) (hout ▸ hgid)
  refine ⟨frame', ?_, hresult, fun name hname => ?_⟩
  · rw [coreSource_body h hcore, hexec]
    exact hrun
  · have hname : (∃ k, name = .input k) ∨ name = .count := by
      rcases List.mem_append.mp hname with hmem | hmem
      · obtain ⟨k, -, rfl⟩ := List.mem_map.mp hmem
        exact .inl ⟨k, rfl⟩
      · exact .inr (List.mem_singleton.mp hmem)
    rcases hname with ⟨k, rfl⟩ | rfl
    · rw [hothers _ (by simp) (by simp), hkept _ id]
    · rw [hothers _ (by simp) (by simp), hkept _ id]

end Run

end Device

/-- **The kernel of a bound call computes what a run computes.** Its text can be read as OpenCL C, for
every name of the function and every program that lowering gives. Then the parameters have different
names; every name that is used has been declared in a scope around it, and an index refers to the
innermost loop around it that counts with it, or else to an output index; no block declares a name
twice. Each work item below the number of elements comes to an end. It stores the element of its
number that a run gives under every strategy, and leaves everything else as it is.

Extents are machine words. A numeral denotes the number that it was printed from. -/
theorem core_kernels_refine_runs {text : String} {s : Signature}
    (hs : Signature.parse text = .ok s) {f : CoreFunction} {p : Program} (hp : f.lower s = .ok p)
    {inputs : List NdArray} {call : BoundCall} {shape : Shape}
    (hbind : p.bind inputs = .ok (call, shape))
    (hwords : ∀ a ∈ inputs, ∀ extent ∈ a.shape, extent < wordBound)
    {number : List Char → Option Float} (hnumber : Denotes number p.root) (name : String) :
    ∃ kernel, OpenCL.read? (coreSource (kernelName name) p call).text = some kernel ∧
      (kernel.parameters.map Parameter.name).Nodup ∧
      (∀ place ∈ kernel.uses, place.InOrder p.outputSlots) ∧
      (∀ place ∈ kernel.declarations, place.Fresh) ∧
      call.outputCount < wordBound ∧
      ∀ strategy : Strategy, ∃ data,
        call.run (strategy.compile p) p.outputSlots inputs = some data ∧
        data.size = call.outputCount ∧
        ∀ gid < call.outputCount, ∃ x, data[gid]? = some x ∧
          ∀ out : Array Float, out.size = call.outputCount →
            kernel.run number gid (arguments inputs call out) =
              some (arguments inputs call (out.setIfInBounds gid x)) := by
  have hlowers := CoreFunction.lowers_of_lower hp
  have hwell := Signature.wellFormed_of_parse hs
  have hbinds := hlowers.binds_of_bind hbind
  have hloads : ∀ access ∈ p.root.loads, access.operand < p.inputSlots.length := by
    intro access haccess
    rw [hlowers.loads_eq_accesses] at haccess
    obtain ⟨declared, hdeclared, -⟩ := hlowers.accesses_declared access haccess
    exact (List.getElem?_eq_some_iff.mp hdeclared).1
  obtain ⟨hparameters, huses, hdeclarations⟩ := inOrder_coreSource (kernelName name)
    hlowers.root_scoped (hlowers.outputSlots_nodup hwell) hloads hbinds.layouts_length
  refine ⟨_, read?_coreSource name p (hbinds.call_fits hlowers hwell hwords), hparameters, huses,
    hdeclarations, hbinds.elementCount_output.2, fun strategy => ?_⟩
  obtain ⟨data, hrun, hsize, hdata⟩ := hbinds.exists_data hlowers hwell strategy
  refine ⟨data, hrun, hsize, fun gid hgid => ?_⟩
  -- the element stands at the position of its iteration and in its core block
  have hcore : 0 < call.outputCoreSize := Nat.pos_of_mul_pos_left (Nat.zero_lt_of_lt hgid)
  have hiteration : gid / call.outputCoreSize < call.loopCount :=
    Nat.div_lt_of_lt_mul (Nat.mul_comm _ _ ▸ hgid)
  have helement := hdata _ hiteration _ (Nat.mod_lt gid hcore)
  rw [Nat.div_add_mod'] at helement
  obtain ⟨x, hx⟩ : ∃ x, data[gid]? = some x :=
    ⟨_, Array.getElem?_eq_getElem (hsize ▸ hgid)⟩
  refine ⟨x, hx, fun out hout => ?_⟩
  obtain ⟨x', hx', hkernel⟩ := run_coreSource hbinds hlowers hwell hwords hnumber (kernelName name)
    hgid hout
  rw [hx, hx'] at helement
  cases helement
  exact hkernel

/-- Two iterations of a sum that hides the output index, with a numeral below zero: the work item of
the last element stores `-2.5 * (3 + 4) + 4`. -/
theorem core_kernels_refine_runs_shadowed_sum :
    ∃ s p call shape kernel, Signature.parse "(m)->(m)" = .ok s ∧
      CoreFunction.lower ⟨"f", .binary .add (.binary .mul (.const (-2.5)) (.sum "m" (.element 0 ["m"])))
        (.element 0 ["m"])⟩ s = .ok p ∧
      p.bind [⟨[2, 2], #[1.0, 2.0, 3.0, 4.0], by decide⟩] = .ok (call, shape) ∧
      OpenCL.read? (coreSource (kernelName "f") p call).text = some kernel ∧
      kernel.run (fun text => List.lookup text
          [("0.0".toList, 0.0), ("1.0".toList, 1.0), ("2.5e0".toList, 2.5)]) 3
          [.array #[1.0, 2.0, 3.0, 4.0], .array #[0.0, 0.0, 0.0, 0.0], .word 4] =
        some [.array #[1.0, 2.0, 3.0, 4.0], .array #[0.0, 0.0, 0.0, -13.5], .word 4] := by
  have hs : Signature.parse "(m)->(m)" = .ok ⟨[["m"]], ["m"]⟩ := by cbv
  have hp : CoreFunction.lower ⟨"f", .binary .add (.binary .mul (.const (-2.5))
      (.sum "m" (.element 0 ["m"]))) (.element 0 ["m"])⟩ ⟨[["m"]], ["m"]⟩ =
        .ok ⟨.binary .add (.binary .mul (.const (-2.5)) (.sum 0 (.load 0 [0]))) (.load 0 [0]), 0,
          ["m"], [[0]], [0], [⟨0, [0]⟩, ⟨0, [0]⟩]⟩ := rfl
  have hbind : Program.bind ⟨.binary .add (.binary .mul (.const (-2.5)) (.sum 0 (.load 0 [0])))
      (.load 0 [0]), 0, ["m"], [[0]], [0], [⟨0, [0]⟩, ⟨0, [0]⟩]⟩
        [⟨[2, 2], #[1.0, 2.0, 3.0, 4.0], by decide⟩] =
          .ok (⟨[2], 2, 2, [⟨2, false, [1]⟩]⟩, [2, 2]) := rfl
  have hnumber : Denotes
      (fun text => List.lookup text
        [("0.0".toList, 0.0), ("1.0".toList, 1.0), ("2.5e0".toList, 2.5)])
      (.binary .add (.binary .mul (.const (-2.5)) (.sum 0 (.load 0 [0]))) (.load 0 [0])) := by
    refine ⟨by decide, by decide, fun x hx _ => ?_⟩
    have hspell : Decimal.spellFloat (-2.5) = "-2.5e0".toList := by decide +kernel
    obtain rfl : x = -2.5 := List.mem_singleton.mp hx
    rw [hspell]
    decide
  obtain ⟨kernel, hread, -, -, -, -, hrun⟩ := core_kernels_refine_runs hs hp hbind
    (by decide) hnumber "f"
  obtain ⟨data, hdata, -, hitems⟩ := hrun .treeWalk
  obtain rfl : #[-6.5, -5.5, -14.5, -13.5] = data := Option.some.inj hdata
  obtain ⟨x, hx, hstored⟩ := hitems 3 (by decide)
  obtain rfl : -13.5 = x := Option.some.inj hx
  exact ⟨_, _, _, _, kernel, hs, hp, hbind, hread, hstored #[0.0, 0.0, 0.0, 0.0] rfl⟩

end ArrayKernels
