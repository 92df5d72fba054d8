import ArrayKernels.Proofs.BindingFaults

/-!
# Which calls are accepted

A call of a built core function is refused for the number of its inputs, or else for the first fault
of an input, or else for the first read that can leave its operand, or else for the size of its
output; and in no other case. What is refused and why is stated here by the names of the signature,
without the tables that binding keeps. An accepted call has one extent for every dimension, since
reading a signature has checked that each of them is a dimension of an input.

## Main results

- `CoreVectorizer.bind_decides`: which calls of a built function can be bound, and what is wrong
  with the others.
-/

namespace ArrayKernels

/-! ## Refusals -/

namespace Signature

/-- The inputs of a call with the names of their core dimensions. -/
def named (s : Signature) (inputs : List NdArray) : List NamedInput := s.inputs.zip inputs

/-- The core axes of the inputs: names and extents. -/
def axes (s : Signature) (inputs : List NdArray) : List (String × Nat) :=
  coreAxes (s.named inputs)

/-- The shape of the output: the loop shape of the first input that has one, and then the extents
that the output dimensions have first. -/
def resultShape (s : Signature) (inputs : List NdArray) : Shape :=
  (loopsOf (s.named inputs)).getD [] ++ s.output.map fun name => ((s.axes inputs).lookup name).getD 0

/-- Why a call is refused, where `body` is the body of the function. -/
inductive Refuses (s : Signature) (body : Expr) (inputs : List NdArray) : CallError → Prop
  | arity (hlength : inputs.length ≠ s.inputs.length) :
    Refuses s body inputs (.arityMismatch s.inputs.length inputs.length)
  | input {fault : CallError} (hlength : inputs.length = s.inputs.length)
      (hfault : FirstFault InputFault (s.named inputs) fault) :
    Refuses s body inputs fault
  | read {fault : CallError} (hlength : inputs.length = s.inputs.length)
      (hinputs : ∀ fault, ¬FirstFault InputFault (s.named inputs) fault)
      (hfault : FirstFault (fun _ => ReadFault s.inputs (s.axes inputs)) body.reads fault) :
    Refuses s body inputs fault
  | output (hlength : inputs.length = s.inputs.length)
      (hinputs : ∀ fault, ¬FirstFault InputFault (s.named inputs) fault)
      (hreads : ∀ fault,
        ¬FirstFault (fun _ => ReadFault s.inputs (s.axes inputs)) body.reads fault)
      (hzero : 0 ∉ s.resultShape inputs) (hlarge : 2 ^ 64 ≤ (s.resultShape inputs).prod) :
    Refuses s body inputs (.outputTooLarge (s.resultShape inputs))

/-! ## Dimensions -/

theorem slotOf_of_getElem? {s : Signature} {name : String} {slot : Nat}
    (h : s.dimensions[slot]? = some name) : slotOf s.dimensions name = .ok slot := by
  obtain ⟨hlt, rfl⟩ := List.getElem?_eq_some_iff.mp h
  rw [slotOf_eq_ok_iff, List.idxOf?_eq_some_iff]
  refine ⟨hlt, rfl, fun earlier hearlier hsame => ?_⟩
  have hnodup : s.dimensions.Nodup := nodup_eraseDups s.occurrences
  exact absurd (List.getElem_inj hnodup |>.mp hsame) (Nat.ne_of_lt hearlier)

/-- Every name of an input has an extent there, if the input has enough dimensions. -/
theorem exists_axis {s : Signature} {inputs : List NdArray}
    (hlength : inputs.length = s.inputs.length)
    (hranks : ∀ input ∈ s.named inputs, input.1.length ≤ input.2.rank) {name : String}
    (hname : name ∈ s.inputs.flatten) : ∃ extent, (name, extent) ∈ s.axes inputs := by
  obtain ⟨group, hgroup, hname⟩ := List.mem_flatten.mp hname
  obtain ⟨i, hi, rfl⟩ := List.mem_iff_getElem.mp hgroup
  have hinput : (s.inputs[i], inputs[i]) ∈ s.named inputs := by
    refine List.mem_iff_getElem.mpr ⟨i, ?_, List.getElem_zip⟩
    rw [named, List.length_zip]
    omega
  obtain ⟨j, hj, rfl⟩ := List.mem_iff_getElem.mp hname
  -- the name at position `j` goes with the extent there
  have hcore := NdArray.length_coreShape (hranks _ hinput)
  refine ⟨(inputs[i].coreShape s.inputs[i].length)[j], List.mem_flatMap.mpr ⟨_, hinput, ?_⟩⟩
  refine List.mem_iff_getElem.mpr ⟨j, ?_, List.getElem_zip⟩
  rw [NamedInput.axes, List.length_zip, hcore, Nat.min_self]
  exact hj

end Signature

/-! ## Accepted calls -/

section Accepted

variable {p : Program} {f : CoreFunction} {s : Signature} {inputs : List NdArray} {known : Known}

/-- Every dimension has an extent, which is known in its slot. -/
theorem Program.Lowers.extent_known (hp : p.Lowers f s) (hs : s.WellFormed)
    (hlength : inputs.length = s.inputs.length) (h : known.Tracks p.dims (s.named inputs))
    {name : String} {slot : Nat} (hslot : slotOf p.dims name = .ok slot) :
    ∃ extent, (s.axes inputs).lookup name = some extent ∧
      known.extents[slot]? = some (some extent) := by
  have hname : name ∈ s.dimensions := hp.dims ▸ List.mem_of_getElem? (getElem?_of_slotOf hslot)
  obtain ⟨extent, hextent⟩ := s.exists_axis hlength h.ranks (hs.mem_inputs hname)
  have hlookup := h.recorded.agree _ hextent
  have hknown := h.recorded.known name slot hslot
  rw [hlookup, Option.join_eq_some_iff] at hknown
  exact ⟨extent, hlookup, hknown⟩

/-- The shape can be counted, unless no extent is zero and their product is no word. -/
theorem elementCount_eq_none_iff {shape : Shape} :
    elementCount shape = none ↔ 0 ∉ shape ∧ 2 ^ 64 ≤ shape.prod := by
  have hbound : wordBound = 2 ^ 64 := rfl
  rw [elementCount_eq, ← hbound]
  by_cases hlt : shape.prod < wordBound
  · simp [hlt, Nat.not_le.mpr hlt]
  · have hzero : 0 ∉ shape := by
      rw [← prod_eq_zero_iff]
      intro hprod
      exact hlt (hprod ▸ wordBound_pos)
    simp [hlt, hzero, Nat.not_lt.mp hlt]

/-- The extents of the call, by slot, are those that all axes of the dimensions have. -/
structure ExtentsOf (s : Signature) (dims : List String) (inputs : List NdArray)
    (extents : List Nat) : Prop where
  length : extents.length = dims.length
  bound : ∀ (slot : Nat) (name : String), dims[slot]? = some name →
    ∃ extent, extents[slot]? = some extent ∧ (name, extent) ∈ s.axes inputs
  common : ∀ (slot : Nat) (name : String) (extent : Nat), dims[slot]? = some name →
    (name, extent) ∈ s.axes inputs → extents[slot]? = some extent

/-- Behind the inputs, every slot has the extent of its name. -/
theorem Program.Lowers.extent_getD (hp : p.Lowers f s) (hs : s.WellFormed)
    (hlength : inputs.length = s.inputs.length) (h : known.Tracks p.dims (s.named inputs))
    {name : String} {slot : Nat} (hslot : slotOf p.dims name = .ok slot) :
    (s.axes inputs).lookup name = some ((known.extents.map (·.getD 0)).getD slot 0) := by
  obtain ⟨extent, hlookup, hknown⟩ := hp.extent_known hs hlength h hslot
  rw [hlookup, List.getD_eq_getElem?_getD, List.getElem?_map, hknown]
  rfl

/-- The loop shape and the extents of the output dimensions make up the shape of the result. -/
theorem Program.Lowers.known_shape (hp : p.Lowers f s) (hs : s.WellFormed)
    (hlength : inputs.length = s.inputs.length) (h : known.Tracks p.dims (s.named inputs)) :
    known.loopShape.getD [] ++ p.outputSlots.map ((known.extents.map (·.getD 0)).getD · 0) =
      s.resultShape inputs := by
  have houtput : p.outputSlots.map ((known.extents.map (·.getD 0)).getD · 0) =
      s.output.map fun name => ((s.axes inputs).lookup name).getD 0 := by
    rw [eq_comm, ← List.forall₂_eq_eq_eq, List.forall₂_map_left_iff, List.forall₂_map_right_iff]
    refine hp.output.imp fun name slot hslot => ?_
    rw [hp.extent_getD hs hlength h hslot, Option.getD_some]
  rw [houtput, h.loopShape]
  rfl

theorem Program.Lowers.extentsOf_known (hp : p.Lowers f s) (hs : s.WellFormed)
    (hlength : inputs.length = s.inputs.length) (h : known.Tracks p.dims (s.named inputs)) :
    ExtentsOf s p.dims inputs (known.extents.map (·.getD 0)) := by
  refine ⟨?_, fun slot name hname => ?_, fun slot name extent hname haxis => ?_⟩
  · rw [List.length_map, h.recorded.length]
  · rw [hp.dims] at hname
    have hslot := hp.dims ▸ s.slotOf_of_getElem? hname
    obtain ⟨extent, hlookup, hknown⟩ := hp.extent_known hs hlength h hslot
    refine ⟨extent, by rw [List.getElem?_map, hknown]; rfl, ?_⟩
    obtain ⟨before, after, hsplit, -⟩ := List.lookup_eq_some_iff.mp hlookup
    rw [hsplit]
    exact List.mem_append_right _ List.mem_cons_self
  · rw [hp.dims] at hname
    have hslot := hp.dims ▸ s.slotOf_of_getElem? hname
    obtain ⟨extent', hlookup, hknown⟩ := hp.extent_known hs hlength h hslot
    -- all axes of a name have the extent that is found first
    have hcommon := h.recorded.agree _ haxis
    rw [List.getElem?_map, hknown]
    exact hlookup.symm.trans hcommon

/-- **The last checks**, of the reads and of the size of the output. -/
theorem Program.Lowers.bindOutput_eq (hp : p.Lowers f s) (hs : s.WellFormed)
    (hlength : inputs.length = s.inputs.length) (h : known.Tracks p.dims (s.named inputs)) :
    (∀ fault, p.bindOutput known = .error fault ↔
      FirstFault (fun _ => ReadFault s.inputs (s.axes inputs)) f.body.reads fault ∨
      (∀ fault, ¬FirstFault (fun _ => ReadFault s.inputs (s.axes inputs)) f.body.reads fault) ∧
        0 ∉ s.resultShape inputs ∧ 2 ^ 64 ≤ (s.resultShape inputs).prod ∧
        fault = .outputTooLarge (s.resultShape inputs)) ∧
    ∀ call shape, p.bindOutput known = .ok (call, shape) →
      shape = s.resultShape inputs ∧ call.outputCount = shape.prod ∧
        ExtentsOf s p.dims inputs call.extents := by
  have hshape := hp.known_shape hs hlength h
  have hreads : ∀ fault, accessFault? p (known.extents.map (·.getD 0)) = some fault ↔
      FirstFault (fun _ => ReadFault s.inputs (s.axes inputs)) f.body.reads fault :=
    fun fault => hp.accessFault?_eq_some_iff fun _ _ => hp.extent_getD hs hlength h
  unfold bindOutput
  simp only [hshape]
  cases hfault : accessFault? p (known.extents.map (·.getD 0)) with
  | some own =>
    have hown := (hreads own).mp hfault
    refine ⟨fun fault => ⟨fun heq => ?_, fun hcases => ?_⟩, fun call shape heq => by cases heq⟩
    · cases heq
      exact .inl hown
    · rcases hcases with hread | ⟨hsound, -⟩
      · rw [← hreads, hfault, Option.some.injEq] at hread
        rw [hread]
      · exact absurd hown (hsound own)
  | none =>
    have hsound : ∀ fault,
        ¬FirstFault (fun _ => ReadFault s.inputs (s.axes inputs)) f.body.reads fault := by
      intro fault hread
      rw [← hreads, hfault] at hread
      cases hread
    by_cases hcount : elementCount (s.resultShape inputs) = none
    · obtain ⟨hzero, hlarge⟩ := elementCount_eq_none_iff.mp hcount
      simp only [if_pos hcount]
      refine ⟨fun fault => ⟨fun heq => ?_, fun hcases => ?_⟩, fun call shape heq => by cases heq⟩
      · cases heq
        exact .inr ⟨hsound, hzero, hlarge, rfl⟩
      · rcases hcases with hread | ⟨-, -, -, rfl⟩
        · exact absurd hread (hsound fault)
        · rfl
    · simp only [if_neg hcount]
      refine ⟨fun fault => ⟨fun heq => ?_, fun hcases => ?_⟩, fun call shape heq => ?_⟩
      · cases heq
      · rcases hcases with hread | ⟨-, hzero, hlarge, -⟩
        · exact absurd hread (hsound fault)
        · exact absurd (elementCount_eq_none_iff.mpr ⟨hzero, hlarge⟩) hcount
      · cases heq
        have hword := prod_lt_of_elementCount hcount
        refine ⟨rfl, ?_, hp.extentsOf_known hs hlength h⟩
        rw [← hshape] at hword ⊢
        exact elementCount_mul_getD hword

end Accepted

/-- **Which calls can be bound, and what is wrong with the others.** A call of a built function is
refused with exactly the fault that comes first: the number of inputs, the inputs in their order,
the reads from left to right, the size of the output. Any other call is bound: the output has the
loop shape followed by the output extents, it is counted exactly, and every slot has the common
extent of the axes that carry its name, of which there is at least one. -/
theorem CoreVectorizer.bind_decides {v : CoreVectorizer} {text : String}
    (hs : Signature.parse text = .ok v.signature) {u : CoreUfunc} (hu : v.build.value = .ok u)
    (inputs : List NdArray) :
    (∀ fault, u.program.bind inputs = .error fault ↔
      v.signature.Refuses v.function.body inputs fault) ∧
    ((∀ fault, ¬v.signature.Refuses v.function.body inputs fault) →
      ∃ call, u.program.bind inputs = .ok (call, v.signature.resultShape inputs) ∧
        call.outputCount = (v.signature.resultShape inputs).prod ∧
        ExtentsOf v.signature u.program.dims inputs call.extents) := by
  obtain ⟨p, hlower, rfl, -⟩ := CoreVectorizer.build_ok hu
  have hp := CoreFunction.lowers_of_lower hlower
  have hwell := Signature.wellFormed_of_parse hs
  have hgroups : v.signature.inputs.length = u.program.inputSlots.length := hp.inputs.length_eq
  unfold Program.bind
  rw [← hgroups]
  by_cases hlength : inputs.length = v.signature.inputs.length
  · rw [if_pos hlength]
    have hstart : Known.Tracks u.program.dims
        ⟨List.replicate u.program.dims.length none, none, []⟩ [] :=
      ⟨.nil _, rfl, fun input h => absurd h List.not_mem_nil⟩
    obtain ⟨hinputs, htracks⟩ := bindInputs_eq hp.inputs hlength hstart
    have hinputs : ∀ fault, bindInputs u.program.dims 0 u.program.inputSlots inputs
        ⟨List.replicate u.program.dims.length none, none, []⟩ = .error fault ↔
          FirstFault InputFault (v.signature.named inputs) fault := hinputs
    cases hknown : bindInputs u.program.dims 0 u.program.inputSlots inputs
        ⟨List.replicate u.program.dims.length none, none, []⟩ with
    | error own =>
      -- an input is at fault, and nothing else is looked at
      have hown := (hinputs own).mp hknown
      refine ⟨fun fault => ⟨fun heq => ?_, fun hrefuses => ?_⟩, fun hsound => ?_⟩
      · cases heq
        exact .input hlength hown
      · cases hrefuses with
        | arity hlength' => exact absurd hlength hlength'
        | input _ hfault =>
          rw [← hinputs, hknown] at hfault
          cases hfault
          rfl
        | read _ hsound => exact absurd hown (hsound own)
        | output _ hsound => exact absurd hown (hsound own)
      · exact absurd (.input hlength hown) (hsound own)
    | ok known =>
      have hsoundInputs : ∀ fault, ¬FirstFault InputFault (v.signature.named inputs) fault := by
        intro fault hfault
        rw [← hinputs, hknown] at hfault
        cases hfault
      obtain ⟨herror, hok⟩ := hp.bindOutput_eq hwell hlength (htracks known hknown)
      have herror : ∀ fault, u.program.bindOutput known = .error fault ↔
          v.signature.Refuses v.function.body inputs fault := by
        intro fault
        rw [herror]
        constructor
        · rintro (hread | ⟨hsound, hzero, hlarge, rfl⟩)
          · exact .read hlength hsoundInputs hread
          · exact .output hlength hsoundInputs hsound hzero hlarge
        · intro hrefuses
          cases hrefuses with
          | arity hlength' => exact absurd hlength hlength'
          | input _ hfault => exact absurd hfault (hsoundInputs fault)
          | read _ _ hread => exact .inl hread
          | output _ _ hsound hzero hlarge => exact .inr ⟨hsound, hzero, hlarge, rfl⟩
      refine ⟨herror, fun hsound => ?_⟩
      -- the last checks cannot fail, so they give the call
      cases hresult : u.program.bindOutput known with
      | error fault => exact absurd ((herror fault).mp hresult) (hsound fault)
      | ok result =>
        obtain ⟨hshape, hcount, hextents⟩ := hok result.1 result.2 hresult
        refine ⟨result.1, ?_, hshape ▸ hcount, hextents⟩
        rw [← hshape]
        exact hresult
  · rw [if_neg hlength]
    refine ⟨fun fault => ⟨fun heq => ?_, fun hrefuses => ?_⟩, fun hsound => ?_⟩
    · cases heq
      exact .arity hlength
    · cases hrefuses with
      | arity => rfl
      | input hlength' => exact absurd hlength' hlength
      | read hlength' => exact absurd hlength' hlength
      | output hlength' => exact absurd hlength' hlength
    · exact absurd (.arity hlength) (hsound _)

/-- In the second input a dimension has another extent than in the first, which is why the call is
refused. With the right extent, and a loop dimension in the second input only, nothing speaks
against the call. -/
theorem CoreVectorizer.bind_decides_product :
    ∃ u, (CoreVectorizer.build ⟨⟨.coreStackCode, .stackCode⟩,
        ⟨"f", .binary .mul (.element 0 ["m"]) (.element 1 ["m"])⟩, ⟨[["m"], ["m"]], ["m"]⟩⟩).value =
        .ok u ∧
      Signature.Refuses ⟨[["m"], ["m"]], ["m"]⟩
        (.binary .mul (.element 0 ["m"]) (.element 1 ["m"]))
        [⟨[3], #[1.0, 2.0, 3.0], by decide⟩, ⟨[1, 2], #[1.0, 2.0], by decide⟩]
        (.dimensionMismatch "m" 3 2) ∧
      ∀ fault, ¬Signature.Refuses ⟨[["m"], ["m"]], ["m"]⟩
        (.binary .mul (.element 0 ["m"]) (.element 1 ["m"]))
        [⟨[2], #[1.0, 2.0], by decide⟩, ⟨[1, 2], #[1.0, 2.0], by decide⟩] fault := by
  have hs : Signature.parse "(m),(m)->(m)" = .ok ⟨[["m"], ["m"]], ["m"]⟩ := by cbv
  have hdecides := fun u hu inputs => CoreVectorizer.bind_decides (u := u)
    (v := ⟨⟨.coreStackCode, .stackCode⟩,
      ⟨"f", .binary .mul (.element 0 ["m"]) (.element 1 ["m"])⟩, ⟨[["m"], ["m"]], ["m"]⟩⟩)
    hs hu inputs
  refine ⟨_, rfl, ((hdecides _ rfl _).1 _).mp rfl, fun fault hrefuses => ?_⟩
  -- the call is bound, so there is no fault
  cases ((hdecides _ rfl _).1 fault).mpr hrefuses

end ArrayKernels
