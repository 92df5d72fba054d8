import ArrayKernels.Proofs.FirstFault
import ArrayKernels.Proofs.Parts

/-!
# When a kernel can be lowered

Lowering refuses a core function with one fault, although many parts of its body can be at fault at
once. Here the faults of a part are stated by the names of the signature and of the sums around the
part, and lowering is shown to report exactly the fault of the first part that has one, in
pre-order.

## Layers

- **Faults**: what can be wrong with a name, and with a part of an expression.
- **Scopes**: which slots have a value where, while a tree is lowered.
- **Lowering**: names, indices and expressions fail with the first of these faults.

## Main results

- `Expr.lowerCore_failsWith`: the first fault of an expression below any number of sums.
- `CoreFunction.lower_decides`: which core functions can be lowered, and what is wrong with the
  others.
-/

namespace ArrayKernels

/-! ## Faults -/

/-- The signature has the name in an input or in the output. -/
def Signature.Declares (s : Signature) (name : String) : Prop :=
  (∃ group ∈ s.inputs, name ∈ group) ∨ name ∈ s.output

/-- The fault of a name in an index inside of those sums: no dimension has this name, or the
dimension has no value there. -/
inductive NameFault (s : Signature) (sums : List String) (name : String) : KernelError → Prop where
  | unknown : ¬s.Declares name → NameFault s sums name (.unknownDimension name)
  | unbound : s.Declares name → name ∉ s.output → name ∉ sums →
      NameFault s sums name (.unboundDimension name)

/-- The fault of a part itself, whatever its own parts are. An element has the first of several
faults. -/
inductive PartFault (s : Signature) : Part String Expr → KernelError → Prop where
  | argument {sums : List String} {i : Nat} : PartFault s ⟨sums, .arg i⟩ .scalarArgument
  | unknownSum {sums : List String} {dim : String} {body : Expr} : ¬s.Declares dim →
      PartFault s ⟨sums, .sum dim body⟩ (.unknownDimension dim)
  | operand {sums : List String} {k : Nat} {names : List String} : s.inputs.length ≤ k →
      PartFault s ⟨sums, .element k names⟩ (.operandOutOfRange k s.inputs.length)
  | rank {sums : List String} {k : Nat} {names group : List String} : s.inputs[k]? = some group →
      names.length ≠ group.length →
      PartFault s ⟨sums, .element k names⟩ (.indexRankMismatch k group.length names.length)
  | name {sums : List String} {k : Nat} {names group : List String} {fault : KernelError} :
      s.inputs[k]? = some group → names.length = group.length →
      FirstFault (fun _ => NameFault s sums) names fault →
      PartFault s ⟨sums, .element k names⟩ fault

/-- The part is no argument, a sum is over a dimension, and an element has as many names as its
operand has dimensions, all of them with a value there. -/
def Part.Sound (s : Signature) (part : Part String Expr) : Prop :=
  match part.node with
  | .arg _ => False
  | .sum dim _ => s.Declares dim
  | .element k names => ∃ group, s.inputs[k]? = some group ∧ names.length = group.length ∧
      ∀ name ∈ names, s.Declares name ∧ (name ∈ s.output ∨ name ∈ part.sums)
  | _ => True

section Faults

variable {s : Signature} {sums : List String}

theorem not_nameFault_iff {name : String} :
    (∀ fault, ¬NameFault s sums name fault) ↔
      s.Declares name ∧ (name ∈ s.output ∨ name ∈ sums) := by
  constructor
  · intro hsound
    have hdeclared : s.Declares name := by
      by_contra hunknown
      exact hsound _ (.unknown hunknown)
    refine ⟨hdeclared, ?_⟩
    by_contra hunbound
    obtain ⟨houtput, hsums⟩ := not_or.mp hunbound
    exact hsound _ (.unbound hdeclared houtput hsums)
  · rintro ⟨hdeclared, hbound⟩ fault hfault
    cases hfault with
    | unknown hunknown => exact hunknown hdeclared
    | unbound _ houtput hsums => exact hbound.elim houtput hsums

theorem nameFault_iff_of_unknown {name : String} (h : ¬s.Declares name) (fault : KernelError) :
    NameFault s sums name fault ↔ fault = .unknownDimension name := by
  constructor
  · intro hfault
    cases hfault with
    | unknown => rfl
    | unbound hdeclared => exact absurd hdeclared h
  · rintro rfl
    exact .unknown h

theorem nameFault_iff_of_unbound {name : String} (h : s.Declares name)
    (hbound : ¬(name ∈ s.output ∨ name ∈ sums)) (fault : KernelError) :
    NameFault s sums name fault ↔ fault = .unboundDimension name := by
  constructor
  · intro hfault
    cases hfault with
    | unknown hunknown => exact absurd h hunknown
    | unbound => rfl
  · rintro rfl
    exact .unbound h (not_or.mp hbound).1 (not_or.mp hbound).2

section Elements

variable {k : Nat} {names group : List String}

theorem partFault_iff_of_operand (h : s.inputs.length ≤ k) (fault : KernelError) :
    PartFault s ⟨sums, .element k names⟩ fault ↔ fault = .operandOutOfRange k s.inputs.length := by
  have hnone : s.inputs[k]? = none := List.getElem?_eq_none_iff.mpr h
  constructor
  · intro hfault
    cases hfault with
    | operand => rfl
    | rank hgroup => cases hnone.symm.trans hgroup
    | name hgroup => cases hnone.symm.trans hgroup
  · rintro rfl
    exact .operand h

theorem partFault_iff_of_rank (hgroup : s.inputs[k]? = some group)
    (hrank : names.length ≠ group.length) (fault : KernelError) :
    PartFault s ⟨sums, .element k names⟩ fault ↔
      fault = .indexRankMismatch k group.length names.length := by
  constructor
  · intro hfault
    cases hfault with
    | operand hk => cases (List.getElem?_eq_none_iff.mpr hk).symm.trans hgroup
    | rank hgroup' => rw [Option.some.inj (hgroup.symm.trans hgroup')]
    | name hgroup' hrank' =>
      obtain rfl := Option.some.inj (hgroup.symm.trans hgroup')
      exact absurd hrank' hrank
  · rintro rfl
    exact .rank hgroup hrank

theorem partFault_iff_of_names (hgroup : s.inputs[k]? = some group)
    (hrank : names.length = group.length) (fault : KernelError) :
    PartFault s ⟨sums, .element k names⟩ fault ↔
      FirstFault (fun _ => NameFault s sums) names fault := by
  constructor
  · intro hfault
    cases hfault with
    | operand hk => cases (List.getElem?_eq_none_iff.mpr hk).symm.trans hgroup
    | rank hgroup' hrank' =>
      obtain rfl := Option.some.inj (hgroup.symm.trans hgroup')
      exact absurd hrank hrank'
    | name _ _ hfirst => exact hfirst
  · exact .name hgroup hrank

end Elements

/-- The faults say all that can be wrong with a part. -/
theorem not_partFault_iff {part : Part String Expr} :
    (∀ fault, ¬PartFault s part fault) ↔ part.Sound s := by
  obtain ⟨sums, node⟩ := part
  cases node with
  | const v => exact iff_of_true (fun _ hfault => by cases hfault) trivial
  | unary op a => exact iff_of_true (fun _ hfault => by cases hfault) trivial
  | binary op a b => exact iff_of_true (fun _ hfault => by cases hfault) trivial
  | select c t o => exact iff_of_true (fun _ hfault => by cases hfault) trivial
  | arg i => exact iff_of_false (fun hsound => hsound _ .argument) id
  | sum dim body =>
    constructor
    · intro hsound
      by_contra hunknown
      exact hsound _ (.unknownSum hunknown)
    · intro hdeclared fault hfault
      cases hfault with
      | unknownSum hunknown => exact hunknown hdeclared
  | element k names =>
    simp only [Part.Sound]
    cases hgroup : s.inputs[k]? with
    | none =>
      have hk := List.getElem?_eq_none_iff.mp hgroup
      refine iff_of_false (fun hsound => hsound _ (.operand hk)) ?_
      rintro ⟨group, hsome, -⟩
      cases hsome
    | some group =>
      simp only [Option.some.injEq, exists_eq_left']
      by_cases hrank : names.length = group.length
      · simp only [partFault_iff_of_names hgroup hrank, not_firstFault_iff, not_nameFault_iff,
          and_iff_right hrank]
      · exact iff_of_false (fun hsound => hsound _ (.rank hgroup hrank)) fun h => hrank h.1

end Faults

/-! ## Scopes -/

/-- Exactly the slots of the output and of those sums have a value. -/
def ScopeOf (s : Signature) (sums : List String) (bound : List Nat) : Prop :=
  ∀ name slot, slotOf s.dimensions name = .ok slot →
    (slot ∈ bound ↔ name ∈ s.output ∨ name ∈ sums)

section Scopes

variable {s : Signature} {sums : List String} {bound : List Nat}

theorem mem_dimensions_iff {name : String} : name ∈ s.dimensions ↔ s.Declares name := by
  rw [Signature.dimensions, List.mem_eraseDups, Signature.occurrences, List.mem_append,
    List.mem_flatten, Signature.Declares]

/-- Exactly the declared names have slots. -/
theorem slotOf_cases (s : Signature) (name : String) :
    (s.Declares name ∧ ∃ slot, slotOf s.dimensions name = .ok slot) ∨
      ¬s.Declares name ∧ slotOf s.dimensions name = .error (.unknownDimension name) := by
  rw [← mem_dimensions_iff, slotOf]
  cases hslot : s.dimensions.idxOf? name with
  | none => exact .inr ⟨List.idxOf?_eq_none_iff.mp hslot, rfl⟩
  | some slot =>
    obtain ⟨hlt, hname, -⟩ := List.idxOf?_eq_some_iff.mp hslot
    exact .inl ⟨hname ▸ List.getElem_mem hlt, slot, rfl⟩

/-- At first the dimensions of the output have a value. -/
theorem ScopeOf.output {slots : List Nat}
    (h : List.Forall₂ (fun name slot => slotOf s.dimensions name = .ok slot) s.output slots) :
    ScopeOf s [] slots := by
  intro name slot hslot
  rw [or_iff_left List.not_mem_nil]
  constructor
  · intro hmem
    obtain ⟨other, hother, hotherSlot⟩ := exists_of_mem_right h hmem
    exact slotOf_injective hotherSlot hslot ▸ hother
  · intro hmem
    obtain ⟨own, hown, hownSlot⟩ := exists_of_mem_left h hmem
    exact Except.ok.inj (hownSlot.symm.trans hslot) ▸ hown

/-- A sum gives a value to its dimension and leaves the others alone. -/
theorem ScopeOf.push (h : ScopeOf s sums bound) {dim : String} {slot : Nat}
    (hdim : slotOf s.dimensions dim = .ok slot) : ScopeOf s (dim :: sums) (slot :: bound) := by
  intro name slot' hslot'
  have hsame : slot' = slot ↔ name = dim := by
    constructor
    · rintro rfl
      exact slotOf_injective hslot' hdim
    · rintro rfl
      exact Except.ok.inj (hslot'.symm.trans hdim)
  rw [List.mem_cons, List.mem_cons, hsame, h name slot' hslot', or_left_comm]

end Scopes

/-! ## Lowering -/

section Lowering

variable {s : Signature} {sums : List String} {bound : List Nat} {inputSlots : List (List Nat)}

/-- An index fails with the first fault of its names. -/
theorem resolveIndex_failsWith (h : ScopeOf s sums bound) (names : List String) :
    FailsWith (resolveIndex s.dimensions bound names)
      (FirstFault (fun _ => NameFault s sums) names) := by
  induction names with
  | nil => exact .ok fun _ => not_firstFault_nil
  | cons name names ih =>
    -- a name is looked up first, and only then is its slot looked for among the bound ones
    rw [resolveIndex]
    rcases slotOf_cases s name with ⟨hdeclared, slot, hslot⟩ | ⟨hunknown, hslot⟩
    · rw [hslot]
      change FailsWith (if slot ∈ bound then _ else _) _
      by_cases hbound : slot ∈ bound
      · rw [if_pos hbound]
        have hsound := not_nameFault_iff.mpr ⟨hdeclared, (h name slot hslot).mp hbound⟩
        exact .cons hsound ih.bind_ok
      · rw [if_neg hbound]
        have hunbound := mt (h name slot hslot).mpr hbound
        exact .error_cons (nameFault_iff_of_unbound hdeclared hunbound)
    · rw [hslot]
      exact .error_cons (nameFault_iff_of_unknown hunknown)

/-- An element fails with its own fault. -/
theorem element_failsWith
    (hinputs : List.Forall₂ (fun group slots => slots.length = group.length) s.inputs inputSlots)
    (h : ScopeOf s sums bound) (k : Nat) (names : List String) :
    FailsWith ((Expr.element k names).lowerCore s.dimensions inputSlots bound)
      (PartFault s ⟨sums, .element k names⟩) := by
  rw [Expr.lowerCore]
  cases hslots : inputSlots[k]? with
  | none =>
    have hk := List.getElem?_eq_none_iff.mp hslots
    rw [← hinputs.length_eq] at hk ⊢
    exact .error (partFault_iff_of_operand hk)
  | some slots =>
    -- the operand has as many slots as its group has names
    obtain ⟨group, hgroup, hlength⟩ := forall₂_getElem? hinputs.flip hslots
    have hlength : slots.length = group.length := hlength
    simp only [hlength, eq_comm (a := group.length)]
    by_cases hrank : names.length = group.length
    · rw [if_pos hrank]
      refine (resolveIndex_failsWith h names).bind_ok.congr fun fault => ?_
      exact (partFault_iff_of_names hgroup hrank fault).symm
    · rw [if_neg hrank]
      exact .error (partFault_iff_of_rank hgroup hrank)

/-- **An expression fails with the first fault of its parts**, in pre-order. -/
theorem Expr.lowerCore_failsWith (e : Expr)
    (hinputs : List.Forall₂ (fun group slots => slots.length = group.length) s.inputs inputSlots)
    (h : ScopeOf s sums bound) :
    FailsWith (e.lowerCore s.dimensions inputSlots bound)
      (FirstFault (fun _ => PartFault s) (e.partsUnder sums)) := by
  -- only a sum changes the scope, and only for its body
  induction e generalizing sums bound with
  | const v => exact .cons (not_partFault_iff.mpr trivial) (.ok fun _ => not_firstFault_nil)
  | arg i =>
    refine .error_cons fun fault => ?_
    constructor
    · intro hfault
      cases hfault
      rfl
    · rintro rfl
      exact .argument
  | unary op a ih =>
    exact .cons (not_partFault_iff.mpr trivial) (ih h).bind_ok
  | binary op a b iha ihb =>
    refine .cons (not_partFault_iff.mpr trivial) ?_
    exact (iha h).bind_append fun _ _ => (ihb h).bind_ok
  | select c t o ihc iht iho =>
    rw [partsUnder, List.append_assoc]
    refine .cons (not_partFault_iff.mpr trivial) ?_
    exact (ihc h).bind_append fun _ _ => (iht h).bind_append fun _ _ => (iho h).bind_ok
  | element k names =>
    refine (element_failsWith hinputs h k names).congr fun fault => ?_
    rw [partsUnder, firstFault_singleton_iff]
  | sum dim body ih =>
    rw [lowerCore, partsUnder]
    rcases slotOf_cases s dim with ⟨hdeclared, slot, hslot⟩ | ⟨hunknown, hslot⟩
    · rw [hslot]
      exact .cons (not_partFault_iff.mpr hdeclared) (ih (h.push hslot)).bind_ok
    · rw [hslot]
      refine .error_cons fun fault => ?_
      constructor
      · intro hfault
        cases hfault
        rfl
      · rintro rfl
        exact .unknownSum hunknown

/-- The dimensions of a signature have slots themselves. -/
theorem exists_slots {names : List String} (h : ∀ name ∈ names, s.Declares name) :
    ∃ slots, List.Forall₂ (fun name slot => slotOf s.dimensions name = .ok slot) names slots := by
  refine exists_forall₂ fun name hname => ?_
  rcases slotOf_cases s name with ⟨-, hslot⟩ | ⟨hunknown, -⟩
  · exact hslot
  · exact absurd (h name hname) hunknown

/-- A core function fails with the first fault of its body. -/
theorem CoreFunction.lower_failsWith (f : CoreFunction) (s : Signature) :
    FailsWith (f.lower s) (FirstFault (fun _ => PartFault s) f.body.parts) := by
  obtain ⟨inputSlots, hinputs⟩ : ∃ inputSlots, List.Forall₂
      (List.Forall₂ fun name slot => slotOf s.dimensions name = .ok slot) s.inputs inputSlots :=
    exists_forall₂ fun group hgroup => exists_slots fun name hname => .inl ⟨group, hgroup, hname⟩
  obtain ⟨outputSlots, houtput⟩ := exists_slots (s := s) fun name (hname : name ∈ s.output) =>
    .inr hname
  -- the signature has no faults itself, so only the body can have one
  have hlower : f.lower s =
      f.body.lowerCore s.dimensions inputSlots outputSlots >>= fun lowered =>
        .ok ⟨lowered.1, 0, s.dimensions, inputSlots, outputSlots, lowered.2⟩ := by
    rw [lower, mapM_eq_ok_iff.mpr (hinputs.imp fun _ _ => mapM_eq_ok_iff.mpr),
      mapM_eq_ok_iff.mpr houtput]
    rfl
  rw [hlower]
  refine (Expr.lowerCore_failsWith f.body ?_ (.output houtput)).bind_ok
  exact hinputs.imp fun _ _ hgroup => hgroup.length_eq.symm

end Lowering

/-! ## Sound expressions -/

/-- All parts of the expression are sound, if it stands inside of those sums. -/
def Expr.Sound (s : Signature) (sums : List String) (e : Expr) : Prop :=
  ∀ part ∈ e.partsUnder sums, part.Sound s

section Sound

variable {s : Signature} {sums sums' : List String}

theorem sound_unary_iff {op : UnaryOp} {a : Expr} :
    (Expr.unary op a).Sound s sums ↔ a.Sound s sums :=
  List.forall_mem_cons.trans (and_iff_right trivial)

theorem sound_binary_iff {op : BinaryOp} {a b : Expr} :
    (Expr.binary op a b).Sound s sums ↔ a.Sound s sums ∧ b.Sound s sums :=
  List.forall_mem_cons.trans ((and_iff_right trivial).trans List.forall_mem_append)

theorem sound_select_iff {c t o : Expr} :
    (Expr.select c t o).Sound s sums ↔ (c.Sound s sums ∧ t.Sound s sums) ∧ o.Sound s sums := by
  refine List.forall_mem_cons.trans ((and_iff_right trivial).trans ?_)
  exact List.forall_mem_append.trans (and_congr_left' List.forall_mem_append)

/-- A sum gives its dimension a value in its body. -/
theorem sound_sum_iff {dim : String} {body : Expr} :
    (Expr.sum dim body).Sound s sums ↔ s.Declares dim ∧ body.Sound s (dim :: sums) :=
  List.forall_mem_cons

/-- Of the sums around an expression only their dimensions count, not how often or in which order
they come. -/
theorem sound_congr {e : Expr} (h : ∀ name, name ∈ sums ↔ name ∈ sums') :
    e.Sound s sums ↔ e.Sound s sums' := by
  induction e generalizing sums sums' with
  | const v => simp [Expr.Sound, Expr.partsUnder, Part.Sound]
  | arg i => simp [Expr.Sound, Expr.partsUnder, Part.Sound]
  | unary op a ih => rw [sound_unary_iff, sound_unary_iff, ih h]
  | binary op a b iha ihb => rw [sound_binary_iff, sound_binary_iff, iha h, ihb h]
  | select c t o ihc iht iho => rw [sound_select_iff, sound_select_iff, ihc h, iht h, iho h]
  | element k names => simp [Expr.Sound, Expr.partsUnder, Part.Sound, h]
  | sum dim body ih =>
    have hbody : ∀ name, name ∈ dim :: sums ↔ name ∈ dim :: sums' := fun name => by
      rw [List.mem_cons, List.mem_cons, h name]
    rw [sound_sum_iff, sound_sum_iff, ih hbody]

/-- A core function can be lowered exactly if its body is sound. -/
theorem CoreFunction.exists_lower_iff (f : CoreFunction) (s : Signature) :
    (∃ p, f.lower s = .ok p) ↔ f.body.Sound s [] := by
  rw [(f.lower_failsWith s).exists_ok_iff, not_firstFault_iff]
  exact forall₂_congr fun _ _ => not_partFault_iff

end Sound

/-- **Lowering accepts the functions with sound bodies, and refuses the others with the first fault
of their bodies.** The dimension of a sum has no value beside the sum, and the sums around a sum
over the same dimension go on behind it. -/
theorem CoreFunction.lower_decides (s : Signature) :
    (∀ f : CoreFunction, (∃ p, f.lower s = .ok p) ↔ ∀ part ∈ f.body.parts, part.Sound s) ∧
    (∀ (f : CoreFunction) (fault : KernelError),
      f.lower s = .error fault ↔ FirstFault (fun _ => PartFault s) f.body.parts fault) ∧
    (∀ (name dim : String) (op : BinaryOp) (a b : Expr),
      (∃ p, CoreFunction.lower ⟨name, .binary op (.sum dim a) b⟩ s = .ok p) ↔
        (∃ p, CoreFunction.lower ⟨name, .sum dim a⟩ s = .ok p) ∧
          ∃ p, CoreFunction.lower ⟨name, b⟩ s = .ok p) ∧
    ∀ (name dim : String) (op : BinaryOp) (a b : Expr),
      (∃ p, CoreFunction.lower ⟨name, .sum dim (.binary op (.sum dim a) b)⟩ s = .ok p) ↔
        (∃ p, CoreFunction.lower ⟨name, .sum dim a⟩ s = .ok p) ∧
          ∃ p, CoreFunction.lower ⟨name, .sum dim b⟩ s = .ok p := by
  refine ⟨fun f => f.exists_lower_iff s, fun f => f.lower_failsWith s, fun name dim op a b => ?_,
    fun name dim op a b => ?_⟩
  · simp only [CoreFunction.exists_lower_iff, sound_binary_iff]
  · have hinner : a.Sound s [dim, dim] ↔ a.Sound s [dim] := sound_congr (by simp)
    simp only [CoreFunction.exists_lower_iff, sound_binary_iff, sound_sum_iff, hinner, and_assoc]
    exact and_congr_right fun hdim => by simp [hdim]

/-- The dimension of a sum has no value beside it. -/
example :
    CoreFunction.lower ⟨"f", .binary .add (.sum "n" (.element 0 ["n"])) (.element 0 ["n"])⟩
      ⟨[["n"]], []⟩ = .error (.unboundDimension "n") :=
  rfl

end ArrayKernels
