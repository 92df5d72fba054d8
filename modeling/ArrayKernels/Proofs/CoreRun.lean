import ArrayKernels.Proofs.CoreMeaning

/-!
# Runs of bound calls

The loop over core blocks hands one index table on from element to element and from iteration to
iteration. A kernel restores the table that it was given, and decoding sets the output slots anew
before every element, so what an earlier element has left in the table does not matter. A run
therefore computes every element as if it were the only one.

## Main results

- `Program.Binds.run_eq`: a run gives the values of the source expression, block after block.
- `Program.Binds.exists_data`: how many elements it leaves, and where.
- `bound_calls_stay_inside`: no step of a bound call leaves the data that it works on.
-/

namespace ArrayKernels

/-! ## Rows in a row -/

/-- The item of rows of equal length, written one after the other. -/
theorem getElem?_flatten_of_length {α : Type} {rows : List (List α)} {length : Nat}
    (hrows : ∀ row ∈ rows, row.length = length) {l j : Nat} (hj : j < length) :
    rows.flatten[l * length + j]? = rows[l]?.bind (·[j]?) := by
  induction rows generalizing l with
  | nil => rfl
  | cons row rows ih =>
    obtain ⟨hrow, hrows⟩ := List.forall_mem_cons.mp hrows
    rw [List.flatten_cons]
    cases l with
    | zero =>
      rw [List.getElem?_append_left (by omega), Nat.zero_mul, Nat.zero_add]
      rfl
    | succ l =>
      have hskip : (l + 1) * length + j = row.length + (l * length + j) := by
        rw [Nat.succ_mul, hrow]
        omega
      rw [hskip, List.getElem?_append_right (Nat.le_add_right _ _), Nat.add_sub_cancel_left,
        ih hrows]
      rfl

/-! ## Loops -/

section Loops

variable {kernel : Kernel} {outputSlots : List Nat} {slotCount size : Nat}

/-- The kernel computes every element of a block, whatever the index table holds before. -/
def ComputesElements (kernel : Kernel) (outputSlots : List Nat) (env : Env) (slotCount size : Nat)
    (value : Nat → Float) : Prop :=
  ∀ position < size, ∀ index : IndexTable, index.length = slotCount →
    ∃ index', decodePosition env.extents outputSlots position index = some (0, index') ∧
      index'.length = slotCount ∧ kernel env index' = some (value position, index')

theorem runElements_eq {env : Env} {value : Nat → Float}
    (h : ComputesElements kernel outputSlots env slotCount size value) {count first : Nat}
    (hcount : first + count = size) {index : IndexTable} (hindex : index.length = slotCount) :
    ∃ index', runElements kernel outputSlots env count first index =
        some ((List.range' first count).map value, index') ∧ index'.length = slotCount := by
  -- the kernel hands on a table of the same length, and nothing more is asked of it
  induction count generalizing first index with
  | zero => exact ⟨index, rfl, hindex⟩
  | succ count ih =>
    obtain ⟨index₁, hdecode, hindex₁, hkernel⟩ := h first (by omega) index hindex
    have hnext : first + 1 + count = size := by omega
    obtain ⟨index₂, hrest, hindex₂⟩ := ih hnext hindex₁
    refine ⟨index₂, ?_, hindex₂⟩
    simp only [runElements, hdecode, hkernel, hrest, Option.bind_eq_bind, Option.bind_some,
      List.range'_succ, List.map_cons]
    rfl

theorem runIterations_eq {call : BoundCall} {inputs : List NdArray} {operands : Nat → List Operand}
    {value : Nat → Nat → Float}
    (hoperands : ∀ l < call.loopCount, call.operands? inputs l = some (operands l))
    (h : ∀ l < call.loopCount, ComputesElements kernel outputSlots
      ⟨[], operands l, call.extents⟩ slotCount call.outputCoreSize (value l))
    {count first : Nat} (hcount : first + count = call.loopCount) {index : IndexTable}
    (hindex : index.length = slotCount) :
    ∃ index', runIterations kernel outputSlots call inputs count first index =
        some ((List.range' first count).map fun l => (List.range call.outputCoreSize).map (value l),
          index') := by
  induction count generalizing first index with
  | zero => exact ⟨index, rfl⟩
  | succ count ih =>
    obtain ⟨index₁, hblock, hindex₁⟩ := runElements_eq (h first (by omega)) (Nat.zero_add _) hindex
    have hnext : first + 1 + count = call.loopCount := by omega
    obtain ⟨index₂, hrest⟩ := ih hnext hindex₁
    refine ⟨index₂, ?_⟩
    simp only [runIterations, hoperands first (by omega), hblock, hrest, Option.bind_eq_bind,
      Option.bind_some, List.range'_succ, List.map_cons, ← List.range_eq_range']
    rfl

end Loops

/-! ## Runs -/

namespace Program.Binds

variable {p : Program} {f : CoreFunction} {s : Signature} {inputs : List NdArray} {call : BoundCall}
  {shape : Shape}

/-- Every element has a value, and a kernel computes it. -/
theorem computes_element (h : p.Binds inputs call shape) (hp : p.Lowers f s) (hs : s.WellFormed)
    (strategy : Strategy) {iteration position : Nat} (hiteration : iteration < call.loopCount)
    (hposition : position < call.outputCoreSize) {index : IndexTable}
    (hindex : index.length = call.extents.length) :
    ∃ index' x, decodePosition call.extents p.outputSlots position index = some (0, index') ∧
      index'.length = call.extents.length ∧
      s.elementAt f.body inputs iteration (unrank (p.outputShape call.extents) position) = some x ∧
      strategy.compile p (call.env (coreBlocks p.coreRanks inputs iteration)) index' =
        some (x, index') := by
  obtain ⟨index', hdecode, hlength, hslots, hsafe⟩ :=
    h.safe_element hp hs hiteration hposition hindex
  exact ⟨index', _, hdecode, hlength, h.elementAt_eq_denote hp hs hiteration hslots hsafe,
    strategy.compile_of_safe (h.answers_of_inside hiteration) hsafe⟩

/-- **A run gives the values of the source expression**, block after block, under every strategy. -/
theorem run_eq (h : p.Binds inputs call shape) (hp : p.Lowers f s) (hs : s.WellFormed)
    (strategy : Strategy) :
    ∃ value : Nat → Nat → Float,
      (∀ l < call.loopCount, ∀ j < call.outputCoreSize,
        s.elementAt f.body inputs l (unrank (p.outputShape call.extents) j) = some (value l j)) ∧
      call.run (strategy.compile p) p.outputSlots inputs =
        some ((List.range call.loopCount).map fun l =>
          (List.range call.outputCoreSize).map (value l)).flatten.toArray := by
  let value : Nat → Nat → Float := fun l j =>
    (s.elementAt f.body inputs l (unrank (p.outputShape call.extents) j)).getD 0.0
  have hvalue : ∀ l < call.loopCount, ∀ j < call.outputCoreSize,
      s.elementAt f.body inputs l (unrank (p.outputShape call.extents) j) = some (value l j) := by
    intro l hl j hj
    obtain ⟨_, x, _, _, hx, _⟩ :=
      h.computes_element hp hs strategy hl hj (List.length_replicate (a := 0))
    simp only [value, hx, Option.getD_some]
  refine ⟨value, hvalue, ?_⟩
  unfold BoundCall.run
  split
  · next hzero =>
    -- no block has an element
    rw [hzero]
    simp
  · -- every element is computed from whatever table the one before it has left
    have hcomputes : ∀ l < call.loopCount, ComputesElements (strategy.compile p) p.outputSlots
        (call.env (coreBlocks p.coreRanks inputs l)) call.extents.length call.outputCoreSize
        (value l) := by
      intro l hl j hj index hindex
      obtain ⟨index', x, hdecode, hlength, hx, hkernel⟩ :=
        h.computes_element hp hs strategy hl hj hindex
      rw [hvalue l hl j hj, Option.some.injEq] at hx
      exact ⟨index', hdecode, hlength, hx ▸ hkernel⟩
    obtain ⟨index', hrun⟩ := runIterations_eq (fun l hl => h.operands_eq hl) hcomputes
      (Nat.zero_add _) (List.length_replicate (a := 0))
    rw [← List.range_eq_range'] at hrun
    simp only [hrun, Option.bind_eq_bind, Option.bind_some]
    rfl

/-- **Where a run leaves the elements**: those of an iteration stand behind those of the iterations
before it. -/
theorem exists_data (h : p.Binds inputs call shape) (hp : p.Lowers f s) (hs : s.WellFormed)
    (strategy : Strategy) :
    ∃ data, call.run (strategy.compile p) p.outputSlots inputs = some data ∧
      data.size = call.outputCount ∧
      ∀ l < call.loopCount, ∀ j < call.outputCoreSize,
        data[l * call.outputCoreSize + j]? =
          s.elementAt f.body inputs l (unrank (p.outputShape call.extents) j) := by
  obtain ⟨value, hvalue, hrun⟩ := h.run_eq hp hs strategy
  refine ⟨_, hrun, ?_, fun l hl j hj => ?_⟩
  · simp [BoundCall.outputCount, Function.comp_def]
  · rw [List.getElem?_toArray, getElem?_flatten_of_length (by simp) hj, hvalue l hl j hj]
    simp [hl, hj]

/-- The core blocks of an iteration lie inside the data of the inputs. -/
theorem slices_inside (h : p.Binds inputs call shape) {iteration : Nat}
    (hiteration : iteration < call.loopCount) :
    List.Forall₂ (fun layout a => layout.start iteration + layout.size ≤ a.data.size) call.layouts
      inputs := by
  have hlength : call.layouts.length = inputs.length := by
    rw [h.layouts, List.length_zipWith, Program.coreRanks, List.length_map, h.fits.length_eq,
      Nat.min_self]
  refine List.forall₂_iff_zip.mpr ⟨hlength, fun {layout a} hmem => ?_⟩
  -- each of them has been cut out for the operands
  obtain ⟨operand, -, hoperand⟩ :=
    exists_of_mem_left (mapM_eq_some_iff.mp (h.operands_eq hiteration)) hmem
  obtain ⟨block, hblock, -⟩ := Option.bind_eq_some_iff.mp hoperand
  exact CoreLayout.stop_le_of_block? hblock

end Program.Binds

/-- **A bound call stays inside its data.** In every iteration, the core blocks lie inside the
inputs. For every output element, from whatever index table, the multi-index can be decoded, and
the kernel of each strategy comes to an end with the index table restored; every read that it has
made on the way, also in an arm of a choice that is not chosen, stays inside its core block. The
reads are noted by a recorded run, which without its notes is the run of the kernel. So a run of the
whole call comes to an end, too. -/
theorem bound_calls_stay_inside {text : String} {s : Signature} (hs : Signature.parse text = .ok s)
    {f : CoreFunction} {p : Program} (hp : f.lower s = .ok p) {inputs : List NdArray}
    {call : BoundCall} {shape : Shape} (hbind : p.bind inputs = .ok (call, shape)) :
    (∀ iteration < call.loopCount,
      List.Forall₂ (fun layout a => layout.start iteration + layout.size ≤ a.data.size) call.layouts
        inputs ∧
      ∃ operands, call.operands? inputs iteration = some operands ∧
        ∀ position < call.outputCoreSize, ∀ index : IndexTable,
          index.length = call.extents.length →
          ∃ index', decodePosition call.extents p.outputSlots position index = some (0, index') ∧
            ∀ strategy : Strategy, ∃ x r,
              strategy.compileRecorded p ⟨[], operands, call.extents⟩ ⟨index', []⟩ = some (x, r) ∧
                r.index = index' ∧
                ∀ read ∈ r.reads, read.Inside (p.coreShapes inputs) call.layouts) ∧
    (∀ (strategy : Strategy) (env : Env) (r : Recorder),
      forget (strategy.compileRecorded p env r) = strategy.compile p env r.index) ∧
    ∀ strategy : Strategy, ∃ data,
      call.run (strategy.compile p) p.outputSlots inputs = some data := by
  have hlowers := CoreFunction.lowers_of_lower hp
  have hwell := Signature.wellFormed_of_parse hs
  have hbinds := hlowers.binds_of_bind hbind
  refine ⟨?_, fun strategy env r => strategy.forget_compileRecorded p env r, ?_⟩
  · intro iteration hiteration
    refine ⟨hbinds.slices_inside hiteration, _, hbinds.operands_eq hiteration, ?_⟩
    intro position hposition index hindex
    obtain ⟨index', hdecode, -, -, hsafe⟩ :=
      hbinds.safe_element hlowers hwell hiteration hposition hindex
    refine ⟨index', hdecode, fun strategy => ?_⟩
    obtain ⟨r, hrun, hr⟩ := strategy.compileRecorded_of_safe (hbinds.answers_of_inside hiteration)
      hsafe (r := ⟨index', []⟩) ⟨rfl, by simp⟩
    exact ⟨_, r, hrun, hr.index_eq, hr.reads⟩
  · intro strategy
    obtain ⟨value, -, hrun⟩ := hbinds.run_eq hlowers hwell strategy
    exact ⟨_, hrun⟩

/-- Two iterations over square blocks, with a read across the diagonal in an arm that is not chosen,
and a sum over the output dimension. -/
theorem bound_calls_stay_inside_across_diagonal :
    ∃ s p call shape, Signature.parse "(m,n),(m)->(m)" = .ok s ∧
      CoreFunction.lower ⟨"f", .sum "n" (.select (.element 1 ["m"]) (.const 1.0)
        (.sum "m" (.element 0 ["n", "m"])))⟩ s = .ok p ∧
      p.bind [⟨[2, 2, 2], #[1.0, 2.0, 3.0, 4.0, 5.0, 6.0, 7.0, 8.0], by decide⟩,
        ⟨[2], #[0.0, 0.5], by decide⟩] = .ok (call, shape) ∧
      call.loopCount = 2 ∧ call.outputCoreSize = 2 ∧
      ∀ strategy : Strategy, ∃ data, call.run (strategy.compile p) p.outputSlots
        [⟨[2, 2, 2], #[1.0, 2.0, 3.0, 4.0, 5.0, 6.0, 7.0, 8.0], by decide⟩,
          ⟨[2], #[0.0, 0.5], by decide⟩] = some data := by
  have hs : Signature.parse "(m,n),(m)->(m)" = .ok ⟨[["m", "n"], ["m"]], ["m"]⟩ := by cbv
  have hp : CoreFunction.lower ⟨"f", .sum "n" (.select (.element 1 ["m"]) (.const 1.0)
      (.sum "m" (.element 0 ["n", "m"])))⟩ ⟨[["m", "n"], ["m"]], ["m"]⟩ = .ok _ := rfl
  exact ⟨_, _, _, _, hs, hp, rfl, rfl, rfl, (bound_calls_stay_inside hs hp rfl).2.2⟩

end ArrayKernels
