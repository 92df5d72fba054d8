import ArrayKernels.Proofs.CoreCalls
import ArrayKernels.Proofs.FirstFault

/-!
# What is wrong with a call

Binding refuses a call with one fault, although the inputs, the reads of the kernel and the size of
the output can be at fault in many places at once. Here the faults of inputs and of reads are stated
for the arguments of a call, by the names of the signature and in the order in which they count, and
the loop over the inputs and the check of the reads are shown to report exactly the first one.

## Layers

- **Axes**: an axis has the first extent of its name, and what has been recorded of the extents.
- **Inputs**: too few dimensions, an axis or the loop shape, in this order.
- **Reads**: an index that can go beyond the axis that it addresses.

## Main results

- `bindInputs_eq`: the loop over the inputs finds the first fault of an input.
- `Program.Lowers.accessFault?_eq_some_iff`: the check of the reads finds the first one that can
  leave its operand.
-/

namespace ArrayKernels

/-! ## Axes -/

/-- The axis has not the extent that its name has had first, on the axes in `seen` or on those of
the same input before it. -/
def AxisFault (seen before : List (String × Nat)) (axis : String × Nat) (fault : CallError) :
    Prop :=
  ∃ first, (seen ++ before).lookup axis.1 = some first ∧ first ≠ axis.2 ∧
    fault = .dimensionMismatch axis.1 first axis.2

theorem axisFault_snoc (seen : List (String × Nat)) (axis : String × Nat) :
    AxisFault (seen ++ [axis]) = fun before => AxisFault seen (axis :: before) := by
  funext before other fault
  simp only [AxisFault, List.append_assoc, List.singleton_append]

/-- The extents of the slots are what the axes say, which agree. -/
structure Recorded (dims : List String) (extents : List (Option Nat))
    (axes : List (String × Nat)) : Prop where
  length : extents.length = dims.length
  known : ∀ name slot, slotOf dims name = .ok slot → extents[slot]?.join = axes.lookup name
  agree : ∀ axis ∈ axes, axes.lookup axis.1 = some axis.2

theorem Recorded.nil (dims : List String) :
    Recorded dims (List.replicate dims.length none) [] := by
  refine ⟨List.length_replicate, fun name slot hslot => ?_, fun axis h => ?_⟩
  · rw [List.getElem?_replicate, if_pos (slotOf_lt hslot)]
    rfl
  · exact absurd h List.not_mem_nil

section Axes

variable {dims names : List String} {slots : List Nat} {shape : Shape} {seen : List (String × Nat)}
  {extents extents' : List (Option Nat)} {name : String} {slot extent : Nat}

theorem lookup_snoc (seen : List (String × Nat)) (name other : String) (extent : Nat) :
    (seen ++ [(name, extent)]).lookup other =
      (seen.lookup other).or (if other = name then some extent else none) := by
  rw [List.lookup_append]
  by_cases h : other = name
  · subst h
    rw [List.lookup_cons_self, if_pos rfl]
  · rw [List.lookup_cons, beq_false_of_ne h, if_neg h]
    rfl

/-- One more axis is recorded, if it has the extent of its name and no other extent is changed. -/
theorem Recorded.snoc (h : Recorded dims extents seen) (hlength : extents'.length = dims.length)
    (hextent : (seen.lookup name).getD extent = extent)
    (hself : ∀ slot, slotOf dims name = .ok slot → extents'[slot]?.join = some extent)
    (hothers : ∀ other slot, slotOf dims other = .ok slot → other ≠ name →
      extents'[slot]?.join = extents[slot]?.join) :
    Recorded dims extents' (seen ++ [(name, extent)]) := by
  have hname : (seen ++ [(name, extent)]).lookup name = some extent := by
    rw [lookup_snoc, if_pos rfl]
    cases hlookup : seen.lookup name with
    | none => rfl
    | some first =>
      rw [hlookup] at hextent
      exact congrArg some hextent
  refine ⟨hlength, fun other slot hslot => ?_, fun axis haxis => ?_⟩
  · by_cases hother : other = name
    · subst hother
      rw [hname, hself slot hslot]
    · rw [lookup_snoc, if_neg hother, Option.or_none, hothers other slot hslot hother,
        h.known other slot hslot]
  · rcases List.mem_append.mp haxis with hold | hnew
    · rw [lookup_snoc, h.agree axis hold]
      rfl
    · rw [List.mem_singleton.mp hnew, hname]

/-- **The loop over the axes of an input finds the first one that does not fit**, and if there is
none it records all of them. -/
theorem bindAxes_eq
    (hslots : List.Forall₂ (fun name slot => slotOf dims name = .ok slot) names slots)
    (hlength : names.length = shape.length) (h : Recorded dims extents seen) :
    (∀ fault, bindAxes dims slots shape extents = .error fault ↔
      FirstFault (AxisFault seen) (names.zip shape) fault) ∧
    ∀ extents', bindAxes dims slots shape extents = .ok extents' →
      Recorded dims extents' (seen ++ names.zip shape) := by
  induction hslots generalizing shape extents seen with
  | nil =>
    refine ⟨fun fault => ?_, fun extents' hbind => ?_⟩
    · exact iff_of_false (fun hbind => by cases hbind) not_firstFault_nil
    · cases hbind
      rwa [List.zip_nil_left, List.append_nil]
  | @cons name slot names slots hslot hrest ih =>
    cases shape with
    | nil => cases hlength
    | cons extent shape =>
      have hlength : names.length = shape.length := Nat.succ.inj hlength
      have hlt : slot < extents.length := h.length ▸ slotOf_lt hslot
      -- once the axis is recorded, the others are looked at with it behind them
      have hnext : ∀ {extents₁}, Recorded dims extents₁ (seen ++ [(name, extent)]) →
          (∀ fault, ¬AxisFault seen [] (name, extent) fault) →
          (∀ fault, bindAxes dims slots shape extents₁ = .error fault ↔
            FirstFault (AxisFault seen) ((name, extent) :: names.zip shape) fault) ∧
          ∀ extents', bindAxes dims slots shape extents₁ = .ok extents' →
            Recorded dims extents' (seen ++ (name, extent) :: names.zip shape) := by
        intro extents₁ h₁ hsound
        obtain ⟨herror, hok⟩ := ih hlength h₁
        constructor
        · intro fault
          rw [herror, firstFault_cons_of_sound hsound, axisFault_snoc]
        · intro extents' hbind
          have hall := hok extents' hbind
          rwa [List.append_assoc, List.singleton_append] at hall
      rw [bindAxes, h.known name slot hslot, List.zip_cons_cons]
      cases hlookup : seen.lookup name with
      | none =>
        refine hnext (h.snoc ?_ (by rw [hlookup]; rfl) ?_ ?_) ?_
        · rw [List.length_set, h.length]
        · intro slot' hslot'
          obtain rfl : slot = slot' := Except.ok.inj (hslot.symm.trans hslot')
          rw [List.getElem?_set_self hlt]
          rfl
        · intro other slot' hslot' hother
          have hne : slot ≠ slot' := by
            rintro rfl
            exact hother (slotOf_injective hslot' hslot)
          rw [List.getElem?_set_ne hne]
        · rintro fault ⟨first, hfirst, -, -⟩
          rw [List.append_nil, hlookup] at hfirst
          cases hfirst
      | some first =>
        -- the axis either has the extent that its name has had first, or it is at fault
        by_cases hsame : first = extent
        · subst hsame
          simp only [if_true]
          refine hnext (h.snoc h.length (by rw [hlookup]; rfl) ?_ fun _ _ _ _ => rfl) ?_
          · intro slot' hslot'
            rw [h.known name slot' hslot', hlookup]
          · rintro fault ⟨first', hfirst, hne, -⟩
            rw [List.append_nil, hlookup] at hfirst
            exact hne (Option.some.inj hfirst.symm)
        · have hdim : dims.getD slot "" = name := by
            rw [List.getD_eq_getElem?_getD, getElem?_of_slotOf hslot, Option.getD_some]
          have hown : ∀ fault, AxisFault seen [] (name, extent) fault ↔
              fault = .dimensionMismatch name first extent := by
            intro fault
            constructor
            · rintro ⟨first', hfirst, -, rfl⟩
              rw [List.append_nil, hlookup] at hfirst
              rw [Option.some.inj hfirst]
            · rintro rfl
              exact ⟨first, by rw [List.append_nil, hlookup], hsame, rfl⟩
          simp only [if_neg hsame, hdim, firstFault_cons_of_faulty hown, Except.error.injEq]
          exact ⟨fun fault => eq_comm, fun extents' hbind => by cases hbind⟩

end Axes

/-! ## Inputs -/

/-- The names that a signature gives to the core dimensions of an input, and the input. -/
abbrev NamedInput := List String × NdArray

namespace NamedInput

/-- The core axes of the input: their names and their extents. -/
def axes (input : NamedInput) : List (String × Nat) :=
  input.1.zip (input.2.coreShape input.1.length)

def loopShape (input : NamedInput) : Shape := input.2.loopShape input.1.length

end NamedInput

/-- The core axes of all inputs. -/
def coreAxes (inputs : List NamedInput) : List (String × Nat) := inputs.flatMap NamedInput.axes

/-- The loop shape of the first input that has loop dimensions. -/
def loopsOf (inputs : List NamedInput) : Option Shape :=
  (inputs.map NamedInput.loopShape).find? (· ≠ [])

/-- What is wrong with an input that comes after those in `before`. -/
inductive InputFault (before : List NamedInput) : NamedInput → CallError → Prop
  | rank {input : NamedInput} (hrank : input.2.rank < input.1.length) :
    InputFault before input
      (.missingCoreDimensions before.length input.2.rank input.1.length)
  | axis {input : NamedInput} {fault : CallError} (hrank : input.1.length ≤ input.2.rank)
      (haxis : FirstFault (AxisFault (coreAxes before)) input.axes fault) :
    InputFault before input fault
  | loops {input : NamedInput} {expected : Shape} (hrank : input.1.length ≤ input.2.rank)
      (haxes : ∀ fault, ¬FirstFault (AxisFault (coreAxes before)) input.axes fault)
      (hloops : input.loopShape ≠ []) (hexpected : loopsOf before = some expected)
      (hne : expected ≠ input.loopShape) :
    InputFault before input (.loopShapeMismatch before.length expected input.loopShape)

/-- What is known is what the inputs say. -/
structure Known.Tracks (dims : List String) (known : Known) (inputs : List NamedInput) : Prop where
  recorded : Recorded dims known.extents (coreAxes inputs)
  loopShape : known.loopShape = loopsOf inputs
  ranks : ∀ input ∈ inputs, input.1.length ≤ input.2.rank

section Inputs

variable {dims : List String} {slots : List Nat} {before : List NamedInput} {known known' : Known}

theorem loopsOf_snoc (before : List NamedInput) (input : NamedInput) :
    loopsOf (before ++ [input]) =
      (loopsOf before).or (if input.loopShape = [] then none else some input.loopShape) := by
  simp only [loopsOf, List.map_append, List.map_cons, List.map_nil, List.find?_append,
    List.find?_singleton]
  by_cases h : input.loopShape = []
  · simp [h]
  · simp [h]

theorem coreAxes_snoc (before : List NamedInput) (input : NamedInput) :
    coreAxes (before ++ [input]) = coreAxes before ++ input.axes := by
  simp [coreAxes]

theorem bindLoops_eq_error_iff {index : Nat} {loops : Shape} {seen : Option Shape}
    {fault : CallError} :
    bindLoops index loops seen = .error fault ↔
      loops ≠ [] ∧ ∃ expected, seen = some expected ∧ expected ≠ loops ∧
        fault = .loopShapeMismatch index expected loops := by
  unfold bindLoops
  by_cases hempty : loops = []
  · simp [hempty]
  · rw [if_neg (by simpa using hempty)]
    cases seen with
    | none => simp
    | some expected =>
      by_cases hsame : expected = loops
      · simp [hsame]
      · simp only [if_neg hsame, Except.error.injEq, ne_eq, hempty, not_false_eq_true,
          Option.some.injEq, true_and]
        constructor
        · rintro rfl
          exact ⟨expected, rfl, hsame, rfl⟩
        · rintro ⟨_, rfl, -, rfl⟩
          rfl

/-- **One input**: the faults of binding it are its faults, and without a fault it is tracked. -/
theorem bindInput_eq (input : NamedInput)
    (hslots : List.Forall₂ (fun name slot => slotOf dims name = .ok slot) input.1 slots)
    (h : known.Tracks dims before) :
    (∀ fault, bindInput dims before.length slots input.2 known = .error fault ↔
      InputFault before input fault) ∧
    ∀ known', bindInput dims before.length slots input.2 known = .ok known' →
      known'.Tracks dims (before ++ [input]) := by
  have hcore : input.1.length = slots.length := hslots.length_eq
  simp only [bindInput, ← hcore]
  by_cases hrank : input.2.rank < input.1.length
  · -- there are too few dimensions for any other check
    simp only [if_pos hrank]
    refine ⟨fun fault => ?_, fun known' hbind => by cases hbind⟩
    constructor
    · intro hfault
      cases hfault
      exact .rank hrank
    · intro hfault
      cases hfault with
      | rank => rfl
      | axis hrank' => omega
      | loops hrank' => omega
  · simp only [if_neg hrank]
    have hrank : input.1.length ≤ input.2.rank := Nat.not_lt.mp hrank
    obtain ⟨haxes, hrecorded⟩ := bindAxes_eq hslots
      (NdArray.length_coreShape hrank).symm h.recorded
    have haxes : ∀ fault, bindAxes dims slots (input.2.coreShape input.1.length) known.extents =
        .error fault ↔ FirstFault (AxisFault (coreAxes before)) input.axes fault := haxes
    refine ⟨fun fault => ?_, fun known' hbind => ?_⟩
    · rw [bind_eq_error_iff]
      constructor
      · rintro (hfault | ⟨extents, hextents, hrest⟩)
        · exact .axis hrank ((haxes fault).mp hfault)
        · rcases bind_eq_error_iff.mp hrest with hfault | ⟨loops, -, hfault⟩
          · obtain ⟨hloops, expected, hexpected, hne, rfl⟩ := bindLoops_eq_error_iff.mp hfault
            refine .loops hrank (fun fault hfault => ?_) hloops (h.loopShape ▸ hexpected) hne
            rw [← haxes] at hfault
            cases hextents.symm.trans hfault
          · cases hfault
      · intro hfault
        cases hfault with
        | rank hrank' => omega
        | axis _ haxis => exact .inl ((haxes fault).mpr haxis)
        | loops _ hsound hloops hexpected hne =>
          -- without a fault of an axis there are extents, and the loop shape comes next
          cases hextents : bindAxes dims slots (input.2.coreShape input.1.length)
              known.extents with
          | error fault => exact absurd ((haxes fault).mp hextents) (hsound fault)
          | ok extents =>
            refine .inr ⟨extents, hextents, bind_eq_error_iff.mpr (.inl ?_)⟩
            exact bindLoops_eq_error_iff.mpr
              ⟨hloops, _, h.loopShape ▸ hexpected, hne, rfl⟩
    · obtain ⟨extents, hextents, hrest⟩ := bind_eq_ok_iff.mp hbind
      obtain ⟨loops, hloops, heq⟩ := bind_eq_ok_iff.mp hrest
      cases heq
      obtain ⟨hfirst, -⟩ := bindLoops_ok hloops
      refine ⟨?_, ?_, ?_⟩
      · rw [coreAxes_snoc]
        exact hrecorded extents hextents
      · rw [loopsOf_snoc, ← h.loopShape]
        simp only [List.isEmpty_iff] at hfirst
        exact hfirst
      · intro other hother
        rcases List.mem_append.mp hother with hold | hnew
        · exact h.ranks other hold
        · rwa [List.mem_singleton.mp hnew]

/-- **The loop over the inputs finds the first fault of an input.** -/
theorem bindInputs_eq {groups : List (List String)} {inputSlots : List (List Nat)}
    {inputs : List NdArray}
    (hgroups : List.Forall₂ (List.Forall₂ fun name slot => slotOf dims name = .ok slot) groups
      inputSlots)
    (hlength : inputs.length = groups.length) (h : known.Tracks dims before) :
    (∀ fault, bindInputs dims before.length inputSlots inputs known = .error fault ↔
      FirstFault (fun between => InputFault (before ++ between)) (groups.zip inputs) fault) ∧
    ∀ known', bindInputs dims before.length inputSlots inputs known = .ok known' →
      known'.Tracks dims (before ++ groups.zip inputs) := by
  induction hgroups generalizing before inputs known with
  | nil =>
    refine ⟨fun fault => ?_, fun known' hbind => ?_⟩
    · refine iff_of_false (fun hbind => ?_) not_firstFault_nil
      cases hbind
    · cases hbind
      rwa [List.zip_nil_left, List.append_nil]
  | @cons group slots groups inputSlots hgroup hrest ih =>
    cases inputs with
    | nil => cases hlength
    | cons a inputs =>
      obtain ⟨herror, hok⟩ := bindInput_eq (group, a) hgroup h
      rw [bindInputs, List.zip_cons_cons]
      cases hinput : bindInput dims before.length slots a known with
      | error own =>
        refine ⟨fun fault => ?_, fun known' hbind => by cases hbind⟩
        have hown : ∀ fault, InputFault (before ++ []) (group, a) fault ↔ fault = own := by
          intro fault
          rw [List.append_nil, ← herror, hinput, Except.error.injEq, eq_comm]
        rw [firstFault_cons_of_faulty hown]
        constructor
        · intro hfault
          cases hfault
          rfl
        · rintro rfl
          rfl
      | ok known₁ =>
        -- the input is sound, and the others come after it
        have hsound : ∀ fault, ¬InputFault (before ++ []) (group, a) fault := by
          intro fault hfault
          rw [List.append_nil, ← herror] at hfault
          cases hinput.symm.trans hfault
        obtain ⟨hrestError, hrestOk⟩ := ih (Nat.succ.inj hlength) (hok known₁ hinput)
        rw [List.length_append, List.length_singleton] at hrestError hrestOk
        refine ⟨fun fault => ?_, fun known' hbind => ?_⟩
        · rw [firstFault_cons_of_sound hsound]
          refine (hrestError fault).trans ?_
          simp only [List.append_assoc, List.singleton_append]
        · have hall := hrestOk known' hbind
          rwa [List.append_assoc, List.singleton_append] at hall

end Inputs

/-! ## Reads -/

/-- The reads of an expression, from left to right: an operand and the names that index it. -/
def Expr.reads : Expr → List (Nat × List String)
  | const _ => []
  | arg _ => []
  | unary _ a => a.reads
  | binary _ a b => a.reads ++ b.reads
  | select c t o => c.reads ++ t.reads ++ o.reads
  | element k names => [(k, names)]
  | sum _ body => body.reads

/-- The name that indexes an axis of an operand has a greater extent than the name of the axis. -/
def BoundFault (axes : List (String × Nat)) (operand : Nat) (before : List (String × String))
    (names : String × String) (fault : CallError) : Prop :=
  ∃ extent bound, axes.lookup names.1 = some extent ∧ axes.lookup names.2 = some bound ∧
    bound < extent ∧ fault = .accessOutOfBounds operand before.length names.1 extent bound

/-- The first axis at which the read can leave its operand. -/
def ReadFault (groups : List (List String)) (axes : List (String × Nat))
    (read : Nat × List String) (fault : CallError) : Prop :=
  ∃ group, groups[read.1]? = some group ∧
    FirstFault (BoundFault axes read.1) (read.2.zip group) fault

section Reads

variable {dims : List String} {extents : List Nat} {axes : List (String × Nat)}

/-- The list of accesses has the reads of the expression in their order. -/
theorem Expr.reads_of_lowerCore {inputSlots : List (List Nat)} {bound : List Nat} {e : Expr}
    {n : Node} {accesses : List Access}
    (h : e.lowerCore dims inputSlots bound = .ok (n, accesses)) :
    List.Forall₂ (fun read access => access.operand = read.1 ∧
      List.Forall₂ (fun name slot => slotOf dims name = .ok slot) read.2 access.slots)
      e.reads accesses := by
  induction e generalizing bound n accesses with
  | const v =>
    cases h
    exact .nil
  | arg i => cases h
  | unary op a ih =>
    obtain ⟨⟨a', as⟩, ha, heq⟩ := bind_eq_ok_iff.mp h
    cases heq
    exact ih ha
  | binary op a b iha ihb =>
    obtain ⟨⟨a', as⟩, ha, h⟩ := bind_eq_ok_iff.mp h
    obtain ⟨⟨b', bs⟩, hb, heq⟩ := bind_eq_ok_iff.mp h
    cases heq
    exact List.rel_append (iha ha) (ihb hb)
  | select c t o ihc iht iho =>
    obtain ⟨⟨c', cs⟩, hc, h⟩ := bind_eq_ok_iff.mp h
    obtain ⟨⟨t', ts⟩, ht, h⟩ := bind_eq_ok_iff.mp h
    obtain ⟨⟨o', os⟩, ho, heq⟩ := bind_eq_ok_iff.mp h
    cases heq
    exact List.rel_append (List.rel_append (ihc hc) (iht ht)) (iho ho)
  | element k names =>
    simp only [lowerCore] at h
    split at h
    · cases h
    · split at h
      · obtain ⟨slots, hslots, heq⟩ := bind_eq_ok_iff.mp h
        cases heq
        have hnames := (forall₂_of_resolveIndex hslots).imp fun _ _ hname => hname.1
        exact .cons ⟨rfl, hnames⟩ .nil
      · cases h
  | sum dim body ih =>
    obtain ⟨slot, hslot, h⟩ := bind_eq_ok_iff.mp h
    obtain ⟨⟨body', reads⟩, hbody, heq⟩ := bind_eq_ok_iff.mp h
    cases heq
    exact ih hbody

/-- The loop over the axes of a read finds the first one that is too short. -/
theorem axisFault?_eq_some_iff
    (hextents : ∀ name slot, slotOf dims name = .ok slot →
      axes.lookup name = some (extents.getD slot 0))
    {names group : List String} {slots declared : List Nat}
    (hnames : List.Forall₂ (fun name slot => slotOf dims name = .ok slot) names slots)
    (hgroup : List.Forall₂ (fun name slot => slotOf dims name = .ok slot) group declared)
    {operand : Nat} {before : List (String × String)} {fault : CallError} :
    axisFault? dims extents operand before.length slots declared = some fault ↔
      FirstFault (fun between => BoundFault axes operand (before ++ between)) (names.zip group)
        fault := by
  induction hnames generalizing group declared before with
  | nil => exact iff_of_false (fun h => by cases h) not_firstFault_nil
  | @cons name slot names slots hname hrest ih =>
    cases hgroup with
    | nil => exact iff_of_false (fun h => by cases h) not_firstFault_nil
    | @cons own ownSlot group declared hown hgroup =>
      have hdim : dims.getD slot "" = name := by
        rw [List.getD_eq_getElem?_getD, getElem?_of_slotOf hname, Option.getD_some]
      rw [axisFault?, List.zip_cons_cons]
      by_cases hlt : extents.getD ownSlot 0 < extents.getD slot 0
      · have hfault : ∀ fault, BoundFault axes operand (before ++ []) (name, own) fault ↔
            fault = .accessOutOfBounds operand before.length name (extents.getD slot 0)
              (extents.getD ownSlot 0) := by
          intro fault
          rw [List.append_nil]
          constructor
          · rintro ⟨extent, bound, hextent, hbound, -, rfl⟩
            rw [hextents name slot hname, Option.some.injEq] at hextent
            rw [hextents own ownSlot hown, Option.some.injEq] at hbound
            rw [hextent, hbound]
          · rintro rfl
            exact ⟨_, _, hextents name slot hname, hextents own ownSlot hown, hlt, rfl⟩
        rw [firstFault_cons_of_faulty hfault, if_pos hlt, hdim, Option.some.injEq, eq_comm]
      · have hsound : ∀ fault, ¬BoundFault axes operand (before ++ []) (name, own) fault := by
          rintro fault ⟨extent, bound, hextent, hbound, hless, -⟩
          rw [hextents name slot hname, Option.some.injEq] at hextent
          rw [hextents own ownSlot hown, Option.some.injEq] at hbound
          exact hlt (hextent ▸ hbound ▸ hless)
        rw [firstFault_cons_of_sound hsound, if_neg hlt]
        have hnext : axisFault? dims extents operand (before ++ [(name, own)]).length slots
            declared = some fault ↔ _ := ih hgroup
        rw [List.length_append, List.length_singleton] at hnext
        simpa only [List.append_assoc, List.singleton_append] using hnext

/-- **The check of the reads finds the first read that can leave its operand.** -/
theorem Program.Lowers.accessFault?_eq_some_iff {p : Program} {f : CoreFunction} {s : Signature}
    (hp : p.Lowers f s)
    (hextents : ∀ name slot, slotOf p.dims name = .ok slot →
      axes.lookup name = some (extents.getD slot 0)) {fault : CallError} :
    accessFault? p extents = some fault ↔
      FirstFault (fun _ => ReadFault s.inputs axes) f.body.reads fault := by
  refine findSome?_eq_some_iff_firstFault ?_
  have hreads := Expr.reads_of_lowerCore hp.root
  have hdeclared := hp.accesses_declared
  generalize f.body.reads = reads at hreads
  generalize p.accesses = accesses at hreads hdeclared
  induction hreads with
  | nil => exact .nil
  | @cons read access reads accesses hread _ ih =>
    obtain ⟨haccess, haccesses⟩ := List.forall_mem_cons.mp hdeclared
    refine .cons (fun fault => ?_) (ih haccesses)
    obtain ⟨declared, hslots, -⟩ := haccess
    obtain ⟨group, hgroup, hnames⟩ := forall₂_getElem? hp.inputs.flip hslots
    have hsearch : axisFault? p.dims extents access.operand ([] : List (String × String)).length
        access.slots declared = some fault ↔ _ := axisFault?_eq_some_iff hextents hread.2 hnames
    rw [List.getD_eq_getElem?_getD, hslots, Option.getD_some]
    refine hsearch.trans ?_
    rw [hread.1] at hgroup ⊢
    constructor
    · intro hfirst
      exact ⟨group, hgroup, hfirst⟩
    · rintro ⟨group', hgroup', hfirst⟩
      rwa [← Option.some.inj (hgroup.symm.trans hgroup')] at hfirst

end Reads

end ArrayKernels
