import ArrayKernels.Proofs.Acceptance
import ArrayKernels.Proofs.CoreCalls

/-!
# The size of an output

Two limits meet at the output of a core function. Binding refuses an output whose elements cannot be
counted in a word. Making room for it needs eight bytes for each element, and their number has to be
below half of the words. So an output between the two limits is bound, and then there is no room for
it. Inputs with an extent of zero have no elements, however great their other extents are; so such
an output needs no data at all.

## Main results

- `Program.Lowers.prod_of_outputTooLarge`: which outputs binding refuses for their size.
- `output_allocation_decides`: what becomes of the others.
-/

namespace ArrayKernels

/-! ## Refused outputs -/

/-- The fault of an axis is about a dimension. -/
theorem AxisFault.ne_outputTooLarge {seen before : List (String × Nat)} {axis : String × Nat}
    {fault : CallError} (h : AxisFault seen before axis fault) (shape : List Nat) :
    fault ≠ .outputTooLarge shape := by
  obtain ⟨first, -, -, rfl⟩ := h
  exact fun heq => nomatch heq

/-- No input is refused for the size of the output. -/
theorem InputFault.ne_outputTooLarge {before : List NamedInput} {input : NamedInput}
    {fault : CallError} (h : InputFault before input fault) (shape : List Nat) :
    fault ≠ .outputTooLarge shape := by
  cases h with
  | rank => exact fun heq => nomatch heq
  | axis _ haxis =>
    obtain ⟨_, _, _, -, haxis, -⟩ := haxis
    exact haxis.ne_outputTooLarge shape
  | loops => exact fun heq => nomatch heq

/-- Neither is a read. -/
theorem ReadFault.ne_outputTooLarge {groups : List (List String)} {axes : List (String × Nat)}
    {read : Nat × List String} {fault : CallError} (h : ReadFault groups axes read fault)
    (shape : List Nat) : fault ≠ .outputTooLarge shape := by
  obtain ⟨group, -, _, _, _, -, ⟨extent, bound, -, -, -, rfl⟩, -⟩ := h
  exact fun heq => nomatch heq

/-- **What binding refuses for its size** has no zero among its extents, and their product is no
word. -/
theorem Program.Lowers.prod_of_outputTooLarge {p : Program} {f : CoreFunction} {s : Signature}
    (hp : p.Lowers f s) (hs : s.WellFormed) {inputs : List NdArray} {shape : Shape}
    (h : p.bind inputs = .error (.outputTooLarge shape)) : 0 ∉ shape ∧ 2 ^ 64 ≤ shape.prod := by
  unfold bind at h
  split at h
  · next hlength =>
    have hlength : inputs.length = s.inputs.length := hlength.trans hp.inputs.length_eq.symm
    have hstart : Known.Tracks p.dims ⟨List.replicate p.dims.length none, none, []⟩ [] :=
      ⟨.nil _, rfl, fun input hinput => absurd hinput List.not_mem_nil⟩
    obtain ⟨hinputs, htracks⟩ := bindInputs_eq hp.inputs hlength hstart
    rcases bind_eq_error_iff.mp h with hinput | ⟨known, hknown, houtput⟩
    · obtain ⟨_, _, _, -, hinput, -⟩ := (hinputs _).mp hinput
      exact absurd rfl (hinput.ne_outputTooLarge shape)
    · obtain ⟨herror, -⟩ := hp.bindOutput_eq hs hlength (htracks known hknown)
      rcases (herror _).mp houtput with ⟨_, _, _, -, hread, -⟩ | ⟨-, hzero, hlarge, heq⟩
      · exact absurd rfl (hread.ne_outputTooLarge shape)
      · cases heq
        exact ⟨hzero, hlarge⟩
  · cases h

/-! ## Room for an output -/

/-- **What becomes of an output of any size.** Binding refuses for its size only an output whose
elements are too many for a word. A call that has been bound has as many elements of the output as
its shape says, which is a word. It gives an array of that shape if their bytes can be addressed, and
otherwise there is no room for it: binding has let it through although it cannot be made. -/
theorem output_allocation_decides {v : CoreVectorizer} {text : String}
    (hs : Signature.parse text = .ok v.signature) {u : CoreUfunc} (hu : v.build.value = .ok u)
    (inputs : List NdArray) :
    (∀ shape, u.program.bind inputs = .error (.outputTooLarge shape) → 2 ^ 64 ≤ shape.prod) ∧
    ∀ call shape, u.program.bind inputs = .ok (call, shape) →
      call.loopCount * call.outputCoreSize = shape.prod ∧ shape.prod < 2 ^ 64 ∧
      (8 * (call.loopCount * call.outputCoreSize) ≤ 2 ^ 63 - 1 →
        ∃ out, (u.call inputs).value = .ok out ∧ out.shape = shape) ∧
      (2 ^ 63 - 1 < 8 * (call.loopCount * call.outputCoreSize) →
        (u.call inputs).value =
          .error (.call (.allocationFault (call.loopCount * call.outputCoreSize)))) := by
  obtain ⟨p, hlower, rfl, hkernel⟩ := CoreVectorizer.build_ok hu
  have hp := CoreFunction.lowers_of_lower hlower
  have hwell := Signature.wellFormed_of_parse hs
  refine ⟨fun shape hbind => (hp.prod_of_outputTooLarge hwell hbind).2,
    fun call shape hbind => ?_⟩
  have hbinds := hp.binds_of_bind hbind
  obtain ⟨hcount, hword⟩ := hbinds.elementCount_output
  have hprod := (elementCount_eq_some_iff.mp hcount).1
  -- the elements can all be computed, so only the room for them decides
  obtain ⟨data, hrun, hsize, -⟩ := hbinds.exists_data hp hwell v.recipe.strategy
  rw [← hkernel] at hrun
  have hvalue := CoreUfunc.value_call_of_run hbind hrun (hsize ▸ hcount)
  refine ⟨hprod.symm, hprod ▸ hword, fun hfits => ?_, fun hlarge => ?_⟩
  · rw [if_pos (show call.outputBytes ≤ addressableBytes from hfits)] at hvalue
    exact ⟨_, hvalue, rfl⟩
  · rwa [if_neg (show ¬call.outputBytes ≤ addressableBytes from Nat.not_le.mpr hlarge)] at hvalue

/-- The greatest output that there is room for, the next one, and one that cannot be counted. -/
theorem output_allocation_decides_around_the_limits :
    ∃ s u, Signature.parse "(n)->()" = .ok s ∧
      (CoreVectorizer.build ⟨⟨.coreStackCode, .stackCode⟩,
        ⟨"sum", .sum "n" (.element 0 ["n"])⟩, s⟩).value = .ok u ∧
      (∃ out, (u.call [⟨[2 ^ 60 - 1, 0], #[], by decide⟩]).value = .ok out ∧
        out.shape = [2 ^ 60 - 1]) ∧
      (u.call [⟨[2 ^ 60, 0], #[], by decide⟩]).value =
        .error (.call (.allocationFault (2 ^ 60))) ∧
      u.program.bind [⟨[2 ^ 32, 2 ^ 32, 0], #[], by decide⟩] =
        .error (.outputTooLarge [2 ^ 32, 2 ^ 32]) ∧
      2 ^ 64 ≤ [2 ^ 32, 2 ^ 32].prod := by
  have hs : Signature.parse "(n)->()" = .ok ⟨[["n"]], []⟩ := by cbv
  have hdecides := output_allocation_decides (u := _)
    (v := ⟨⟨.coreStackCode, .stackCode⟩, ⟨"sum", .sum "n" (.element 0 ["n"])⟩, ⟨[["n"]], []⟩⟩)
    hs rfl
  refine ⟨_, _, hs, rfl, ?_, ?_, rfl, (hdecides [⟨[2 ^ 32, 2 ^ 32, 0], #[], by decide⟩]).1 _ rfl⟩
  · obtain ⟨-, -, hmade, -⟩ := (hdecides [⟨[2 ^ 60 - 1, 0], #[], by decide⟩]).2 _ _ rfl
    exact hmade (by decide)
  · obtain ⟨-, -, -, hfault⟩ := (hdecides [⟨[2 ^ 60, 0], #[], by decide⟩]).2 _ _ rfl
    exact hfault (by decide)

/-- **Not every output that is bound can be made**: the inner product of no numbers, taken in as many
iterations as take up half of the words. -/
theorem output_without_room_is_bound :
    ∃ s u call, Signature.parse "(n),(n)->()" = .ok s ∧
      (CoreVectorizer.build ⟨⟨.coreClosure, .closure⟩, ⟨"inner", .sum "n"
        (.binary .mul (.element 0 ["n"]) (.element 1 ["n"]))⟩, s⟩).value = .ok u ∧
      u.program.bind [⟨[2 ^ 60, 0], #[], by decide⟩, ⟨[0], #[], by decide⟩] =
        .ok (call, [2 ^ 60]) ∧
      ¬8 * (call.loopCount * call.outputCoreSize) ≤ 2 ^ 63 - 1 ∧
      (u.call [⟨[2 ^ 60, 0], #[], by decide⟩, ⟨[0], #[], by decide⟩]).value =
        .error (.call (.allocationFault (2 ^ 60))) := by
  have hs : Signature.parse "(n),(n)->()" = .ok ⟨[["n"], ["n"]], []⟩ := by cbv
  exact ⟨_, _, _, hs, rfl, rfl, by decide, rfl⟩

end ArrayKernels
