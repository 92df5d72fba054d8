import ArrayKernels.Proofs.ReadSafety

/-!
# What lowered core kernels mean

Lowering replaces dimension names by slots. The source expression looks a name up among the values
that it has been given, and a sum gives its name a new value for the body only. The lowered tree
looks the slot up in a table that the sums overwrite. Both find the same index, since a name that
is in scope has the value that stands in its slot, also where a sum runs over a name that had a
value already.

## Main results

- `Expr.coreValueAt_eq_denote`: lowering keeps the value of a core expression.
- `Program.Binds.elementAt_eq_denote`: the kernel of a bound call is worth the source expression
  with the output names bound to the multi-index of the element.
-/

namespace ArrayKernels

/-! ## Values of names -/

/-- The values that a list gives to names, item by item. -/
def NameValues.ofList (names : List String) (values : List Nat) : NameValues := fun name =>
  (names.zip values).lookup name

/-- The value of the name stands in its slot of the table. -/
def InSlot (dims : List String) (table : List Nat) (name : String) (value : Nat) : Prop :=
  ∃ slot, slotOf dims name = .ok slot ∧ table[slot]? = some value

theorem forall₂_inSlot {dims names : List String} {slots values table : List Nat}
    (hslots : List.Forall₂ (fun name slot => slotOf dims name = .ok slot) names slots)
    (hvalues : List.Forall₂ (fun slot value => table[slot]? = some value) slots values) :
    List.Forall₂ (InSlot dims table) names values :=
  forall₂_trans hslots hvalues fun _ slot _ hslot hvalue => ⟨slot, hslot, hvalue⟩

/-- A list whose items stand in the slots of the names gives each name what is in its slot. -/
theorem NameValues.ofList_eq {dims names : List String} {table values : List Nat}
    (h : List.Forall₂ (InSlot dims table) names values) {name : String} {slot : Nat}
    (hname : name ∈ names) (hslot : slotOf dims name = .ok slot) :
    ofList names values name = table[slot]? := by
  have hisSome : (ofList names values name).isSome = true := by
    rw [ofList, List.lookup_isSome_iff]
    obtain ⟨i, hi⟩ := List.mem_iff_getElem?.mp hname
    obtain ⟨value, hvalue, -⟩ := forall₂_getElem? h hi
    refine ⟨(name, value), List.mem_of_getElem? (i := i) ?_, beq_self_eq_true _⟩
    rw [List.getElem?_zip_eq_some]
    exact ⟨hi, hvalue⟩
  obtain ⟨value, hvalue⟩ := Option.isSome_iff_exists.mp hisSome
  obtain ⟨before, after, hsplit, -⟩ := List.lookup_eq_some_iff.mp hvalue
  -- the name and its value are a pair of the two lists, so the value is in the slot of the name
  have hmem : (name, value) ∈ names.zip values := by
    rw [hsplit]
    exact List.mem_append_right _ List.mem_cons_self
  obtain ⟨slot', hslot', hvalue'⟩ := List.forall₂_zip h hmem
  obtain rfl : slot = slot' := Except.ok.inj (hslot.symm.trans hslot')
  rw [hvalue, hvalue']

/-! ## Sums -/

theorem addUp_succ (f : Nat → Float) (count : Nat) :
    addUp f (count + 1) = addUp f count + f count := by
  simp only [addUp, List.range_succ, List.foldl_append, List.foldl_cons, List.foldl_nil]

theorem sumBelow_eq_addUp {f : Nat → Option Float} {g : Nat → Float} {count : Nat}
    (h : ∀ i < count, f i = some (g i)) : sumBelow f count = some (addUp g count) := by
  induction count with
  | zero => rfl
  | succ count ih =>
    have hbefore := ih fun i hi => h i (by omega)
    simp only [sumBelow, hbefore, h count (by omega), addUp_succ, Option.bind_eq_bind,
      Option.bind_some]
    rfl

/-! ## Expressions and their trees -/

section Meaning

variable {dims : List String} {inputSlots : List (List Nat)} {blocks : List CoreBlock} {env : Env}

/-- What a sum over a name gives to the body: the innermost binding of a name is the one that
counts, in the values of the names as in the table. -/
private theorem inScope_enter {values : NameValues} {index : IndexTable} {bound : List Nat}
    (hvalues : ∀ name slot, slotOf dims name = .ok slot → slot ∈ bound →
      values name = index[slot]?)
    {dim : String} {slot : Nat} (hdim : slotOf dims dim = .ok slot) (hslot : slot < index.length)
    (i : Nat) :
    ∀ name other, slotOf dims name = .ok other → other ∈ slot :: bound →
      values.set dim i name = (index.set slot i)[other]? := by
  intro name other hname hother
  by_cases hsame : name = dim
  · -- the name of the sum itself, also if it had a value outside
    subst hsame
    obtain rfl : other = slot := Except.ok.inj (hname.symm.trans hdim)
    rw [NameValues.set, if_pos rfl, List.getElem?_set_self hslot]
  · -- another name has another slot
    have hne : slot ≠ other := by
      rintro rfl
      exact hsame (slotOf_injective hname hdim)
    rw [NameValues.set, if_neg hsame, List.getElem?_set_ne hne]
    exact hvalues name other hname ((List.mem_cons.mp hother).resolve_left (Ne.symm hne))

/-- **Lowering keeps the value of a core expression**, where the names in scope have the values that
stand in their slots and every read finds the element at its multi-index. -/
theorem Expr.coreValueAt_eq_denote {P : Read → Prop}
    (hread : ∀ read, P read → ∃ block indices x, blocks[read.operand]? = some block ∧
      List.Forall₂ (fun slot i => read.index[slot]? = some i) read.slots indices ∧
      block.at? indices = some x ∧ env.load read.index read.operand read.slots = some x)
    {extents : NameValues}
    (hextents : ∀ name slot, slotOf dims name = .ok slot → extents name = env.extents[slot]?)
    {e : Expr} {bound : List Nat} {n : Node} {accesses : List Access}
    (hlower : e.lowerCore dims inputSlots bound = .ok (n, accesses))
    {values : NameValues} {index : IndexTable}
    (hvalues : ∀ name slot, slotOf dims name = .ok slot → slot ∈ bound →
      values name = index[slot]?)
    (hsafe : n.Safe P env index) :
    e.coreValueAt blocks extents values = some (n.denote env index) := by
  induction e generalizing bound n accesses values index with
  | const v =>
    cases hlower
    rfl
  | arg i => cases hlower
  | unary op a ih =>
    obtain ⟨⟨a', as⟩, ha, heq⟩ := bind_eq_ok_iff.mp hlower
    cases heq
    simp only [coreValueAt, ih ha hvalues hsafe]
    rfl
  | binary op a b iha ihb =>
    obtain ⟨⟨a', as⟩, ha, h⟩ := bind_eq_ok_iff.mp hlower
    obtain ⟨⟨b', bs⟩, hb, heq⟩ := bind_eq_ok_iff.mp h
    cases heq
    simp only [coreValueAt, iha ha hvalues hsafe.1, ihb hb hvalues hsafe.2]
    rfl
  | select c t o ihc iht iho =>
    -- the source evaluates one arm, which is the one that the tree is worth
    obtain ⟨⟨c', cs⟩, hc, h⟩ := bind_eq_ok_iff.mp hlower
    obtain ⟨⟨t', ts⟩, ht, h⟩ := bind_eq_ok_iff.mp h
    obtain ⟨⟨o', os⟩, ho, heq⟩ := bind_eq_ok_iff.mp h
    cases heq
    simp only [coreValueAt, ihc hc hvalues hsafe.1, iht ht hvalues hsafe.2.1,
      iho ho hvalues hsafe.2.2, Node.denote, Option.bind_eq_bind, Option.bind_some]
    split <;> rfl
  | element k names =>
    simp only [lowerCore] at hlower
    split at hlower
    · cases hlower
    · split at hlower
      · obtain ⟨slots, hslots, heq⟩ := bind_eq_ok_iff.mp hlower
        cases heq
        obtain ⟨block, indices, x, hblock, hindices, hx, hload⟩ := hread _ hsafe
        -- the names have the indices that the read finds in their slots
        have hnames : names.mapM values = some indices := by
          rw [mapM_eq_some_iff]
          refine forall₂_trans (forall₂_of_resolveIndex hslots) hindices ?_
          intro name slot i hname hi
          rw [hvalues name slot hname.1 hname.2, hi]
        simp only [coreValueAt, hblock, hnames, Option.bind_eq_bind, Option.bind_some, hx,
          Node.denote, hload, Option.getD_some]
      · cases hlower
  | sum dim body ih =>
    obtain ⟨slot, hdim, h⟩ := bind_eq_ok_iff.mp hlower
    obtain ⟨⟨body', reads⟩, hbody, heq⟩ := bind_eq_ok_iff.mp h
    cases heq
    obtain ⟨hslot, extent, hextent, hsteps⟩ := hsafe
    -- both sums add the same numbers in the same order
    have hsum := sumBelow_eq_addUp fun i hi =>
      ih hbody (inScope_enter hvalues hdim hslot i) (hsteps i hi)
    simp only [coreValueAt, hextents dim slot hdim, hextent, Option.bind_eq_bind, Option.bind_some,
      hsum, Node.denote, Option.getD_some]

end Meaning

/-! ## Calls of a core function -/

namespace Signature

def coreRanks (s : Signature) : List Nat := s.inputs.map List.length

/-- The loop shape of a call: that of the first input that has loop dimensions. -/
def loopShape (s : Signature) (inputs : List NdArray) : Shape :=
  (firstLoops s.coreRanks inputs).getD []

/-- The extents of the dimensions, read off the core dimensions of the inputs. -/
def extents (s : Signature) (inputs : List NdArray) : NameValues :=
  .ofList s.inputs.flatten
    (List.zipWith (fun coreRank a => a.coreShape coreRank) s.coreRanks inputs).flatten

/-- The value of a core expression in an iteration, with the output names bound to a multi-index. -/
def elementAt (s : Signature) (body : Expr) (inputs : List NdArray) (iteration : Nat)
    (index : List Nat) : Option Float :=
  body.coreValueAt (coreBlocks s.coreRanks inputs iteration) (s.extents inputs)
    (.ofList s.output index)

end Signature

namespace Program.Lowers

variable {p : Program} {f : CoreFunction} {s : Signature}

theorem coreRanks_eq (hp : p.Lowers f s) : p.coreRanks = s.coreRanks := by
  rw [coreRanks, Signature.coreRanks, eq_comm, ← List.forall₂_eq_eq_eq,
    List.forall₂_map_left_iff, List.forall₂_map_right_iff]
  exact hp.inputs.imp fun group slots hgroup => hgroup.length_eq

end Program.Lowers

namespace Program.Binds

variable {p : Program} {f : CoreFunction} {s : Signature} {inputs : List NdArray} {call : BoundCall}
  {shape : Shape}

/-- The extents of a bound call, by slot, are those of the dimensions. -/
theorem extents_eq (h : p.Binds inputs call shape) (hp : p.Lowers f s) (hs : s.WellFormed)
    {name : String} {slot : Nat} (hslot : slotOf p.dims name = .ok slot) :
    s.extents inputs name = call.extents[slot]? := by
  have hname : name ∈ s.inputs.flatten := by
    refine hs.mem_inputs ?_
    rw [← hp.dims]
    exact List.mem_of_getElem? (getElem?_of_slotOf hslot)
  have hnames : List.Forall₂ (List.Forall₂ (InSlot p.dims call.extents)) s.inputs
      (p.coreShapes inputs) :=
    forall₂_trans hp.inputs h.axes fun _ _ _ => forall₂_inSlot
  rw [Signature.extents, ← hp.coreRanks_eq]
  exact NameValues.ofList_eq (List.rel_flatten hnames) hname hslot

/-- The core shape of the output consists of the extents of the output dimensions. -/
theorem outputShape_eq (h : p.Binds inputs call shape) (hp : p.Lowers f s) (hs : s.WellFormed) :
    s.output.mapM (s.extents inputs) = some (p.outputShape call.extents) := by
  rw [mapM_eq_some_iff, outputShape, List.forall₂_map_right_iff]
  refine hp.output.imp fun name slot hslot => ?_
  have hlt : slot < call.extents.length := h.extents_length ▸ slotOf_lt hslot
  rw [h.extents_eq hp hs hslot, List.getD_eq_getElem?_getD, List.getElem?_eq_getElem hlt,
    Option.getD_some]

/-- **A kernel is worth its source expression**, with the output names bound to the multi-index that
stands in their slots. -/
theorem elementAt_eq_denote (h : p.Binds inputs call shape) (hp : p.Lowers f s) (hs : s.WellFormed)
    {iteration : Nat} (hiteration : iteration < call.loopCount) {index : IndexTable}
    {outputIndex : List Nat}
    (hindex : List.Forall₂ (fun slot i => index[slot]? = some i) p.outputSlots outputIndex)
    (hsafe : p.root.Safe (Read.Inside (p.coreShapes inputs) call.layouts)
      (call.env (coreBlocks p.coreRanks inputs iteration)) index) :
    s.elementAt f.body inputs iteration outputIndex =
      some (p.root.denote (call.env (coreBlocks p.coreRanks inputs iteration)) index) := by
  have hvalues := forall₂_inSlot hp.output hindex
  rw [Signature.elementAt, ← hp.coreRanks_eq]
  refine Expr.coreValueAt_eq_denote (fun read hread => h.load_of_inside hiteration hread)
    (fun name slot hslot => h.extents_eq hp hs hslot) hp.root
    (fun name slot hslot hbound => ?_) hsafe
  -- in the beginning, the slots in scope are those of the output names
  obtain ⟨other, hother, hsame⟩ := exists_of_mem_right hp.output hbound
  exact NameValues.ofList_eq hvalues (slotOf_injective hslot hsame ▸ hother) hslot

end Program.Binds

end ArrayKernels
