import ArrayKernels.Proofs.CoreRun
import ArrayKernels.Proofs.StandardRegistry

/-!
# Calls of core functions

From the request to the result: what the standard registry makes from a core function, is built and
is called, computes the function. The shape of the result is the loop shape followed by the extents
of the output dimensions, and every element is the value of the source expression, with the output
names bound to the core part of its multi-index, over the core blocks at the loop part.

## Main results

- `Program.Binds.elementCount_output`: the shape of an output describes as many elements as a run
  computes.
- `Program.Binds.at?_eq_elementAt`: where in a result the values of the source expression are.
- `standard_core_call_computes`: the standard registry without a device.
-/

namespace ArrayKernels

/-! ## Elements of a result -/

/-- The product of some of the extents is a word, if that of all is a word and not zero. -/
private theorem elementCount_factors {outer inner : Shape}
    (hcount : elementCount (outer ++ inner) ≠ none) {l j : Nat} (hl : l < outer.prod)
    (hj : j < inner.prod) :
    elementCount outer = some outer.prod ∧ elementCount inner = some inner.prod := by
  have hword : outer.prod * inner.prod < wordBound := by
    rw [elementCount_eq, List.prod_append] at hcount
    by_contra hlarge
    exact hcount (if_neg hlarge)
  have houter : outer.prod ≤ outer.prod * inner.prod := Nat.le_mul_of_pos_right _ (by omega)
  have hinner : inner.prod ≤ outer.prod * inner.prod := Nat.le_mul_of_pos_left _ (by omega)
  exact ⟨elementCount_eq_some_iff.mpr ⟨rfl, by omega⟩,
    elementCount_eq_some_iff.mpr ⟨rfl, by omega⟩⟩

/-- The output has as many elements as its shape says, and their number is a word. -/
theorem Program.Binds.elementCount_output {p : Program} {inputs : List NdArray} {call : BoundCall}
    {shape : Shape} (h : p.Binds inputs call shape) :
    elementCount shape = some call.outputCount ∧ call.outputCount < wordBound := by
  have hword := prod_lt_of_elementCount h.counted
  have hcount : call.outputCount = shape.prod := by
    rw [BoundCall.outputCount, h.loopCount, h.outputCoreSize, h.shape_eq]
    exact elementCount_mul_getD (h.shape_eq ▸ hword)
  rw [hcount]
  exact ⟨elementCount_eq_some_iff.mpr ⟨rfl, hword⟩, hword⟩

/-- **Where the values of the source expression are**: the value at a loop position and a core
multi-index stands at the multi-index made of both. -/
theorem Program.Binds.at?_eq_elementAt {p : Program} {f : CoreFunction} {s : Signature}
    {inputs : List NdArray} {call : BoundCall} {shape : Shape} (h : p.Binds inputs call shape)
    (hp : p.Lowers f s) (hs : s.WellFormed) (strategy : Strategy) {data : Array Float}
    (hrun : call.run (strategy.compile p) p.outputSlots inputs = some data) {loop core : List Nat}
    {l : Nat} (hloop : rowMajorPosition (p.loopShape inputs) loop = some l)
    (hcore : InShape (p.outputShape call.extents) core) :
    ∃ x, CoreBlock.at? ⟨shape, data⟩ (loop ++ core) = some x ∧
      s.elementAt f.body inputs l core = some x := by
  obtain ⟨j, hj, hj_lt⟩ := hcore.exists_position
  obtain ⟨hl_lt, -⟩ := rowMajorPosition_eq_some_iff.mp hloop
  obtain ⟨-, hunrank⟩ := rowMajorPosition_eq_some_iff.mp hj
  have hcount : elementCount (p.loopShape inputs ++ p.outputShape call.extents) ≠ none :=
    h.shape_eq ▸ h.counted
  obtain ⟨hloopCount, hcoreSize⟩ := elementCount_factors hcount hl_lt hj_lt
  have hl : l < call.loopCount := by rwa [h.loopCount, hloopCount]
  have hsize : call.outputCoreSize = (p.outputShape call.extents).prod := by
    rw [h.outputCoreSize, hcoreSize, Option.getD_some]
  obtain ⟨value, hvalue, hrun'⟩ := h.run_eq hp hs strategy
  rw [hrun, Option.some.injEq] at hrun'
  refine ⟨value l j, ?_, hunrank ▸ hvalue l hl j (hsize ▸ hj_lt)⟩
  have hposition := rowMajorPosition_append hloop hj
  rw [← h.shape_eq, ← hsize] at hposition
  simp only [CoreBlock.at?, hposition, Option.bind_eq_bind, Option.bind_some, hrun',
    List.getElem?_toArray]
  -- the row of iteration `l` has the values of its core block
  rw [getElem?_flatten_of_length (by simp) (hsize ▸ hj_lt)]
  simp [hl, hsize, hj_lt]

/-! ## Building and calling -/

theorem CoreVectorizer.build_ok {v : CoreVectorizer} {u : CoreUfunc} (h : v.build.value = .ok u) :
    ∃ p, v.function.lower v.signature = .ok p ∧ u.program = p ∧
      u.kernel = v.recipe.strategy.compile p := by
  unfold build at h
  split at h
  · cases h
  · next hufunc =>
    cases h
    obtain ⟨p, hp, heq⟩ := bind_eq_ok_iff.mp hufunc
    cases heq
    exact ⟨p, hp, rfl, rfl⟩

theorem CoreUfunc.call_ok {u : CoreUfunc} {inputs : List NdArray} {out : NdArray}
    (h : (u.call inputs).value = .ok out) :
    ∃ call, u.program.bind inputs = .ok (call, out.shape) ∧
      call.run u.kernel u.program.outputSlots inputs = some out.data := by
  unfold call at h
  split at h
  · cases h
  · next call shape hbind =>
    have hbound : u.runBound call shape inputs = .ok out := by
      cases hresult : u.runBound call shape inputs with
      | error fault =>
        rw [hresult] at h
        cases h
      | ok result =>
        rw [hresult] at h
        cases h
        rfl
    unfold runBound at hbound
    split at hbound
    · split at hbound
      · next data hrun =>
        unfold NdArray.ofShape at hbound
        split at hbound
        · cases hbound
          exact ⟨call, hbind, hrun⟩
        · cases hbound
      · cases hbound
    · cases hbound

theorem CoreUfunc.value_call {u : CoreUfunc} {inputs : List NdArray} {call : BoundCall}
    {shape : Shape} (hbind : u.program.bind inputs = .ok (call, shape)) :
    (u.call inputs).value = (u.runBound call shape inputs).mapError .call := by
  unfold CoreUfunc.call
  simp only [hbind]

/-- The result of a run always fits the shape of the output, so a bound call fails only where there
is no room for the output. -/
theorem CoreUfunc.value_call_of_run {u : CoreUfunc} {inputs : List NdArray} {call : BoundCall}
    {shape : Shape} (hbind : u.program.bind inputs = .ok (call, shape)) {data : Array Float}
    (hrun : call.run u.kernel u.program.outputSlots inputs = some data)
    (hcount : elementCount shape = some data.size) :
    (u.call inputs).value =
      if call.outputBytes ≤ addressableBytes then .ok ⟨shape, data, hcount⟩
      else .error (.call (.allocationFault call.outputCount)) := by
  rw [value_call hbind, runBound, hrun]
  split
  · simp only [NdArray.ofShape, dif_pos hcount]
    rfl
  · rfl

/-! ## The standard registry -/

/-- **A successful call computes the core function.** The standard registry without a device has
three core entries. This holds under the key of each of them, for every signature that can be read,
and for every body and all inputs: the shape of the result is the loop shape and then the extents of
the output dimensions, and the element at a loop position and a core multi-index is the value of the
source expression. -/
theorem standard_core_call_computes (workers : Nat) (settings : Settings) (reason : GpuError)
    {text : String} {s : Signature} (hs : Signature.parse text = .ok s) (f : CoreFunction) :
    (Registry.withoutDevice workers settings reason).core.keys =
      [(.stackCode, .cpu), (.closure, .cpu), (.closure, .gpu)] ∧
    ∀ strategy target,
      (strategy, target) ∈ (Registry.withoutDevice workers settings reason).core.keys →
      ∃ made, ((Registry.withoutDevice workers settings reason).vectorizeCore f s
          (.key strategy target)).value = .ok made ∧
        ∀ u inputs out, made.build.value = .ok u → (u.call inputs).value = .ok out →
          ∃ outputShape, s.output.mapM (s.extents inputs) = some outputShape ∧
            out.shape = s.loopShape inputs ++ outputShape ∧
            ∀ loop core l, rowMajorPosition (s.loopShape inputs) loop = some l →
              InShape outputShape core →
              ∃ x, CoreBlock.at? ⟨out.shape, out.data⟩ (loop ++ core) = some x ∧
                s.elementAt f.body inputs l core = some x := by
  refine ⟨Registry.withoutDevice_core_keys workers settings reason, ?_⟩
  intro strategy target hkey
  obtain ⟨recipe, hmade, -⟩ :=
    Registry.withoutDevice_vectorizeCore workers settings reason hkey f s
  refine ⟨⟨recipe, f, s⟩, hmade, fun u inputs out hbuild hcall => ?_⟩
  obtain ⟨p, hp, rfl, hkernel⟩ := CoreVectorizer.build_ok hbuild
  obtain ⟨call, hbind, hrun⟩ := CoreUfunc.call_ok hcall
  have hlowers := CoreFunction.lowers_of_lower hp
  have hwell := Signature.wellFormed_of_parse hs
  have hbinds := hlowers.binds_of_bind hbind
  have hloopShape : u.program.loopShape inputs = s.loopShape inputs := by
    rw [Program.loopShape, hlowers.coreRanks_eq]
    rfl
  refine ⟨_, hbinds.outputShape_eq hlowers hwell, ?_, fun loop core l hloop hcore => ?_⟩
  · rw [← hloopShape]
    exact hbinds.shape_eq
  · rw [hkernel] at hrun
    exact hbinds.at?_eq_elementAt hlowers hwell _ hrun (hloopShape ▸ hloop) hcore

/-- A sum over the output dimension, and the outer value of its name after it: in the second
iteration the first element is 3 + 4 and 3 more. -/
theorem standard_core_call_computes_shadowed_sum :
    ∃ s made u out, Signature.parse "(m)->(m)" = .ok s ∧
      ((Registry.withoutDevice 1 .standard .disabled).vectorizeCore
        ⟨"f", .binary .add (.sum "m" (.element 0 ["m"])) (.element 0 ["m"])⟩ s
        (.key .closure .gpu)).value = .ok made ∧
      made.build.value = .ok u ∧
      (u.call [⟨[2, 2], #[1.0, 2.0, 3.0, 4.0], by decide⟩]).value = .ok out ∧
      out.data = #[4.0, 5.0, 10.0, 11.0] ∧
      ∃ x, CoreBlock.at? ⟨out.shape, out.data⟩ ([1] ++ [0]) = some x ∧
        s.elementAt (.binary .add (.sum "m" (.element 0 ["m"])) (.element 0 ["m"]))
          [⟨[2, 2], #[1.0, 2.0, 3.0, 4.0], by decide⟩] 1 [0] = some x := by
  have hs : Signature.parse "(m)->(m)" = .ok ⟨[["m"]], ["m"]⟩ := by cbv
  obtain ⟨hkeys, hentries⟩ := standard_core_call_computes 1 .standard .disabled hs
    ⟨"f", .binary .add (.sum "m" (.element 0 ["m"])) (.element 0 ["m"])⟩
  have hkey : (Strategy.closure, Target.gpu) ∈
      (Registry.withoutDevice 1 .standard .disabled).core.keys := by
    rw [hkeys]
    decide
  obtain ⟨made, hmade, hspec⟩ := hentries .closure .gpu hkey
  have hrun : ∃ u, made.build.value = .ok u ∧
      (u.call [⟨[2, 2], #[1.0, 2.0, 3.0, 4.0], by decide⟩]).value =
        .ok ⟨[2, 2], #[4.0, 5.0, 10.0, 11.0], by decide⟩ := by
    cases hmade
    exact ⟨⟨"f", ⟨[["m"]], ["m"]⟩, .coreClosure,
      ⟨.binary .add (.sum 0 (.load 0 [0])) (.load 0 [0]), 0, ["m"], [[0]], [0],
        [⟨0, [0]⟩, ⟨0, [0]⟩]⟩,
      (Node.binary .add (.sum 0 (.load 0 [0])) (.load 0 [0])).toKernel⟩, rfl, rfl⟩
  obtain ⟨u, hbuild, hcall⟩ := hrun
  obtain ⟨outputShape, hshape, -, hvalue⟩ := hspec u _ _ hbuild hcall
  have hextents : List.mapM (Signature.extents ⟨[["m"]], ["m"]⟩
      [⟨[2, 2], #[1.0, 2.0, 3.0, 4.0], by decide⟩]) ["m"] = some [2] := by decide
  obtain rfl : [2] = outputShape := Option.some.inj (hextents.symm.trans hshape)
  exact ⟨_, made, u, _, hs, hmade, hbuild, hcall, rfl,
    hvalue [1] [0] 1 (by decide) (.cons (by decide) .nil)⟩

end ArrayKernels
