import ArrayKernels.Proofs.CoreRun

/-!
# Stale indices

The kernel of a core function runs on an index table in which earlier elements have left their
indices. Here two runs of one kernel are compared, on tables that have the same indices in the slots
of the output and any indices in the others. They go side by side: a read looks only at slots on
which the tables agree, a sum makes them agree on its own slot for its body, and whatever it puts
back afterwards is the same in both tables if the slot belongs to the output. This holds for any
operands and extents, also for those with which the kernel fails.

A run over all elements hands on one table, and so each of its elements has the value that it has
alone, with a table of zeros.

## Layers

- **Pairs of runs**: sequences, loops, and the tables on which two runs work.
- **Kernels**: trees and stack code, one case for each node.
- **Elements**: a whole run, taken apart into elements that are computed one after the other.

## Main results

- `Node.eval_agree`, `Node.exec_emit_agree`: two runs of a well-scoped tree and of its code.
- `Strategy.compile_agree`: two runs of a kernel, under every strategy.
- `BoundCall.Forgets.runInOrder_eq_mapM`: elements in any order.
- `stale_indices_do_not_matter`: both for a core function.
-/

namespace ArrayKernels

/-! ## Pairs of runs -/

/-- Related first parts lead to related second parts. -/
theorem rel_bind {α α' β β' : Type} {R : α → α' → Prop} {S : β → β' → Prop} {x : Option α}
    {x' : Option α'} {f : α → Option β} {f' : α' → Option β'} (h : Option.Rel R x x')
    (hnext : ∀ a a', R a a' → Option.Rel S (f a) (f' a')) :
    Option.Rel S (x >>= f) (x' >>= f') := by
  cases h with
  | none => exact .none
  | some hab => exact hnext _ _ hab

/-- Related results are turned into related results. -/
theorem rel_map {α α' β β' : Type} {R : α → α' → Prop} {S : β → β' → Prop} {x : Option α}
    {x' : Option α'} {f : α → β} {f' : α' → β'} (h : Option.Rel R x x')
    (hresult : ∀ a a', R a a' → S (f a) (f' a')) : Option.Rel S (x.map f) (x'.map f') := by
  cases h with
  | none => exact .none
  | some hab => exact .some (hresult _ _ hab)

theorem rel_imp {α α' : Type} {R S : α → α' → Prop} {x : Option α} {x' : Option α'}
    (h : Option.Rel R x x') (hRS : ∀ a a', R a a' → S a a') : Option.Rel S x x' := by
  cases h with
  | none => exact .none
  | some hab => exact .some (hRS _ _ hab)

/-- What is the same in both runs, if it is there. -/
theorem rel_of_eq {α : Type} {x x' : Option α} (h : x = x') : Option.Rel Eq x x' := by
  subst h
  cases x with
  | none => exact .none
  | some a => exact .some rfl

/-- One result, and related states behind it. -/
def SameResult {α State State' : Type} (R : State → State' → Prop) (r : α × State)
    (r' : α × State') : Prop :=
  r.1 = r'.1 ∧ R r.2 r'.2

theorem map_fst_eq_of_rel {α State State' : Type} {R : State → State' → Prop}
    {x : Option (α × State)} {x' : Option (α × State')} (h : Option.Rel (SameResult R) x x') :
    x.map (·.1) = x'.map (·.1) := by
  cases h with
  | none => rfl
  | some hresult => exact congrArg some hresult.1

/-- Loops with related steps are related. -/
theorem accumulate_agree {State State' : Type} {R : State → State' → Prop}
    {step : Nat → State → Option (Float × State)} {step' : Nat → State' → Option (Float × State')}
    (hstep : ∀ i s s', R s s' → Option.Rel (SameResult R) (step i s) (step' i s'))
    (count first : Nat) (total : Float) {s : State} {s' : State'} (h : R s s') :
    Option.Rel (SameResult R) (accumulate step count first total s)
      (accumulate step' count first total s') := by
  induction count generalizing first total s s' with
  | zero => exact .some ⟨rfl, h⟩
  | succ count ih =>
    refine rel_bind (hstep first s s' h) ?_
    rintro ⟨x, s₁⟩ ⟨x', s₁'⟩ ⟨hx, hs⟩
    obtain rfl : x = x' := hx
    exact ih (first + 1) (total + x) hs

/-- Two index tables of those lengths, with the same indices in some of the slots. -/
structure Agree (size size' : Nat) (bound : List Nat) (index index' : IndexTable) : Prop where
  length_eq : index.length = size
  length_eq' : index'.length = size'
  indices : ∀ slot ∈ bound, index[slot]? = index'[slot]?

section Tables

variable {size size' slot : Nat} {bound bound' : List Nat} {index index' : IndexTable}

theorem Agree.mono (h : Agree size size' bound index index')
    (hbound : ∀ other ∈ bound', other ∈ bound) : Agree size size' bound' index index' :=
  ⟨h.length_eq, h.length_eq', fun other hother => h.indices other (hbound other hother)⟩

/-- Setting a slot in both tables. The slot is one on which they have to agree only if it gets the
same index in both. -/
theorem Agree.set (h : Agree size size' bound index index') (hslot : slot < size ↔ slot < size')
    {i i' : Nat} (hsame : slot ∈ bound' → i = i')
    (hbound : ∀ other ∈ bound', other ≠ slot → other ∈ bound) :
    Agree size size' bound' (index.set slot i) (index'.set slot i') := by
  refine ⟨by rw [List.length_set, h.length_eq], by rw [List.length_set, h.length_eq'],
    fun other hother => ?_⟩
  by_cases hother_slot : other = slot
  · subst hother_slot
    rw [← hsame hother, List.getElem?_set_self', List.getElem?_set_self']
    -- the slot is in both tables or in neither
    by_cases hlt : other < size
    · have hlt' := hslot.mp hlt
      rw [← h.length_eq] at hlt
      rw [← h.length_eq'] at hlt'
      simp [hlt, hlt']
    · have hge' := mt hslot.mpr hlt
      rw [← h.length_eq] at hlt
      rw [← h.length_eq'] at hge'
      simp [Nat.not_lt.mp hlt, Nat.not_lt.mp hge']
  · rw [List.getElem?_set_ne (Ne.symm hother_slot), List.getElem?_set_ne (Ne.symm hother_slot)]
    exact h.indices other (hbound other hother hother_slot)

/-- A sum enters an index: the tables agree on its slot as well. -/
theorem Agree.enter (h : Agree size size' bound index index') (hslot : slot < size ↔ slot < size')
    (i : Nat) : Agree size size' (slot :: bound) (index.set slot i) (index'.set slot i) :=
  h.set hslot (fun _ => rfl) fun _ hother hne => (List.mem_cons.mp hother).resolve_left hne

theorem Agree.getElem?_rel (h : Agree size size' bound index index')
    (hslot : slot < size ↔ slot < size') :
    Option.Rel (fun i i' => slot ∈ bound → i = i') index[slot]? index'[slot]? := by
  by_cases hlt : slot < size
  · have hlt' := hslot.mp hlt
    rw [← h.length_eq] at hlt
    rw [← h.length_eq'] at hlt'
    have hindices := h.indices slot
    rw [List.getElem?_eq_getElem hlt, List.getElem?_eq_getElem hlt'] at hindices ⊢
    exact .some fun hbound => Option.some.inj (hindices hbound)
  · have hge' := mt hslot.mpr hlt
    rw [← h.length_eq] at hlt
    rw [← h.length_eq'] at hge'
    rw [List.getElem?_eq_none (Nat.not_lt.mp hlt), List.getElem?_eq_none (Nat.not_lt.mp hge')]
    exact .none

/-- A read at slots on which the tables agree. -/
theorem Agree.flatOffset_eq (h : Agree size size' bound index index') {slots : List Nat}
    (hslots : ∀ slot ∈ slots, slot ∈ bound) (strides : List Nat) :
    flatOffset index slots strides = flatOffset index' slots strides := by
  induction slots generalizing strides with
  | nil => rfl
  | cons slot slots ih =>
    obtain ⟨hslot, hslots⟩ := List.forall_mem_cons.mp hslots
    cases strides with
    | nil => rfl
    | cons stride strides => simp only [flatOffset, h.indices slot hslot, ih hslots strides]

end Tables

/-! ## Kernels -/

/-- Two environments of a core kernel: the operands and the extents are the same, and the slots of
the kernel are in both tables or in neither. -/
structure Alike (env env' : Env) (slotCount size size' : Nat) : Prop where
  operands : env.operands = env'.operands
  extents : env.extents = env'.extents
  slots : ∀ slot < slotCount, slot < size ↔ slot < size'

section Kernels

variable {env env' : Env} {slotCount size size' : Nat} {bound : List Nat}

theorem Agree.load_eq {index index' : IndexTable} (h : Agree size size' bound index index')
    (halike : Alike env env' slotCount size size') {slots : List Nat}
    (hslots : ∀ slot ∈ slots, slot ∈ bound) (k : Nat) :
    env.load index k slots = env'.load index' k slots := by
  simp only [Env.load, halike.operands, h.flatOffset_eq hslots]

/-- **Two runs of a well-scoped tree** give one number, if they give any, and hand on tables that
agree as before. -/
theorem Node.eval_agree (halike : Alike env env' slotCount size size') {n : Node}
    (hscoped : n.Scoped slotCount bound) {index index' : IndexTable}
    (h : Agree size size' bound index index') :
    Option.Rel (SameResult (Agree size size' bound)) (n.eval env index) (n.eval env' index') := by
  induction n generalizing bound index index' with
  | const v => exact .some ⟨rfl, h⟩
  | arg i => exact hscoped.elim
  | unary op a ih =>
    refine rel_bind (ih hscoped h) ?_
    rintro ⟨x, j⟩ ⟨x', j'⟩ ⟨hx, hj⟩
    exact .some ⟨congrArg op.apply hx, hj⟩
  | binary op a b iha ihb =>
    refine rel_bind (iha hscoped.1 h) ?_
    rintro ⟨x, j⟩ ⟨x', j'⟩ ⟨hx, hj⟩
    refine rel_bind (ihb hscoped.2 hj) ?_
    rintro ⟨y, k⟩ ⟨y', k'⟩ ⟨hy, hk⟩
    exact .some ⟨congrArg₂ op.apply hx hy, hk⟩
  | select c t o ihc iht iho =>
    refine rel_bind (ihc hscoped.1 h) ?_
    rintro ⟨x, j⟩ ⟨x', j'⟩ ⟨hx, hj⟩
    obtain rfl : x = x' := hx
    -- both runs choose the same arm
    by_cases hchoice : (x != 0.0) = true
    · simp only [if_pos hchoice]
      exact iht hscoped.2.1 hj
    · simp only [if_neg hchoice]
      exact iho hscoped.2.2 hj
  | load k slots =>
    simp only [eval, h.load_eq halike hscoped]
    cases env'.load index' k slots with
    | none => exact .none
    | some x => exact .some ⟨rfl, h⟩
  | sum slot body ih =>
    obtain ⟨hslot, hbody⟩ := hscoped
    have hslot := halike.slots slot hslot
    refine rel_bind (h.getElem?_rel hslot) fun saved saved' hsaved => ?_
    refine rel_bind (rel_of_eq (congrArg (·[slot]?) halike.extents)) fun extent extent' hextent => ?_
    obtain rfl : extent = extent' := hextent
    -- every index is entered in both tables, and what agrees in the body agrees outside of it
    have hsteps : ∀ i j j', Agree size size' bound j j' →
        Option.Rel (SameResult (Agree size size' bound)) (body.eval env (j.set slot i))
          (body.eval env' (j'.set slot i)) := by
      intro i j j' hj
      refine rel_imp (ih hbody (hj.enter hslot i)) ?_
      rintro ⟨x, k⟩ ⟨x', k'⟩ ⟨hx, hk⟩
      exact ⟨hx, hk.mono fun _ => List.mem_cons_of_mem _⟩
    refine rel_bind (accumulate_agree hsteps extent 0 0.0 h) ?_
    rintro ⟨x, j⟩ ⟨x', j'⟩ ⟨hx, hj⟩
    exact .some ⟨hx, hj.set hslot hsaved fun _ hother _ => hother⟩

/-- Two stack machines with the same stack and tables that agree. -/
structure StackMachine.Agree (size size' : Nat) (bound : List Nat) (m m' : StackMachine) : Prop where
  stack_eq : m.stack = m'.stack
  index : ArrayKernels.Agree size size' bound m.index m'.index

namespace StackMachine.Agree

variable {m m' : StackMachine}

theorem push (h : m.Agree size size' bound m') (x : Float) :
    (m.push x).Agree size size' bound (m'.push x) :=
  ⟨congrArg (x :: ·) h.stack_eq, h.index⟩

theorem pop (h : m.Agree size size' bound m') :
    SameResult (StackMachine.Agree size size' bound) m.pop m'.pop := by
  obtain ⟨index, stack⟩ := m
  obtain ⟨index', stack'⟩ := m'
  obtain rfl : stack = stack' := h.stack_eq
  cases stack with
  | nil => exact ⟨rfl, h⟩
  | cons x stack => exact ⟨rfl, rfl, h.index⟩

theorem exec_done (h : m.Agree size size' bound m') :
    Option.Rel (StackMachine.Agree size size' bound) (StackCode.done.exec env m)
      (StackCode.done.exec env' m') :=
  .some h

end StackMachine.Agree

/-- **Two runs of the code of a well-scoped tree** go on with the code that follows on machines that
agree, with the number of the tree on both stacks. -/
theorem Node.exec_emit_agree (halike : Alike env env' slotCount size size') {n : Node}
    (hscoped : n.Scoped slotCount bound) {next : StackCode}
    {Q : StackMachine → StackMachine → Prop}
    (hnext : ∀ m m', m.Agree size size' bound m' →
      Option.Rel Q (next.exec env m) (next.exec env' m'))
    {m m' : StackMachine} (h : m.Agree size size' bound m') :
    Option.Rel Q ((n.emit next).exec env m) ((n.emit next).exec env' m') := by
  induction n generalizing bound next Q m m' with
  | const v => exact hnext _ _ (h.push v)
  | arg i => exact hscoped.elim
  | unary op a ih =>
    have hthen : ∀ m m', m.Agree size size' bound m' →
        Option.Rel Q ((StackCode.unary op next).exec env m)
          ((StackCode.unary op next).exec env' m') := by
      intro m m' h
      obtain ⟨hx, hm⟩ := h.pop
      simp only [StackCode.exec, hx]
      exact hnext _ _ (hm.push _)
    exact ih hscoped hthen h
  | binary op a b iha ihb =>
    -- the code behind the first operand is that of the second one and then the instruction
    have hthen : ∀ m m', m.Agree size size' bound m' →
        Option.Rel Q ((StackCode.binary op next).exec env m)
          ((StackCode.binary op next).exec env' m') := by
      intro m m' h
      obtain ⟨hy, hm⟩ := h.pop
      obtain ⟨hx, hm⟩ := hm.pop
      simp only [StackCode.exec, hy, hx]
      exact hnext _ _ (hm.push _)
    exact iha hscoped.1 (fun m m' h => ihb hscoped.2 hthen h) h
  | select c t o ihc iht iho =>
    have hthen : ∀ m m', m.Agree size size' bound m' →
        Option.Rel Q ((StackCode.select next).exec env m)
          ((StackCode.select next).exec env' m') := by
      intro m m' h
      obtain ⟨hotherwise, hm⟩ := h.pop
      obtain ⟨hchosen, hm⟩ := hm.pop
      obtain ⟨hcond, hm⟩ := hm.pop
      simp only [StackCode.exec, hotherwise, hchosen, hcond]
      exact hnext _ _ (hm.push _)
    exact ihc hscoped.1 (fun m m' h =>
      iht hscoped.2.1 (fun m m' h => iho hscoped.2.2 hthen h) h) h
  | load k slots =>
    simp only [emit, StackCode.exec, h.index.load_eq halike hscoped]
    refine rel_bind (rel_of_eq rfl) fun x x' hx => ?_
    obtain rfl : x = x' := hx
    exact hnext _ _ (h.push x)
  | sum slot body ih =>
    obtain ⟨hslot, hbody⟩ := hscoped
    have hslot := halike.slots slot hslot
    refine rel_bind (h.index.getElem?_rel hslot) fun saved saved' hsaved => ?_
    refine rel_bind (rel_of_eq (congrArg (·[slot]?) halike.extents)) fun extent extent' hextent => ?_
    obtain rfl : extent = extent' := hextent
    -- nothing follows the code of the body, and its number is taken off the stack
    have hsteps : ∀ (i : Nat) (m m' : StackMachine), m.Agree size size' bound m' →
        Option.Rel (SameResult (StackMachine.Agree size size' bound))
          (((body.emit .done).exec env (m.enter slot i)).map (·.pop))
          (((body.emit .done).exec env' (m'.enter slot i)).map (·.pop)) := by
      intro i m m' hm
      have hentered : (m.enter slot i).Agree size size' (slot :: bound) (m'.enter slot i) :=
        ⟨hm.stack_eq, hm.index.enter hslot i⟩
      refine rel_map (ih hbody (fun _ _ h => h.exec_done) hentered) fun k k' hk => ?_
      obtain ⟨hx, hk⟩ := hk.pop
      exact ⟨hx, hk.stack_eq, hk.index.mono fun _ => List.mem_cons_of_mem _⟩
    refine rel_bind (accumulate_agree hsteps extent 0 0.0 h) ?_
    rintro ⟨x, k⟩ ⟨x', k'⟩ ⟨hx, hk⟩
    obtain rfl : x = x' := hx
    have hleft : (k.enter slot saved).Agree size size' bound (k'.enter slot saved') :=
      ⟨hk.stack_eq, hk.index.set hslot hsaved fun _ hother _ => hother⟩
    exact hnext _ _ (hleft.push x)

/-- **Two runs of a kernel agree under every strategy**: they give one number, if they give any, and
hand on tables that agree as before. -/
theorem Strategy.compile_agree (strategy : Strategy) {p : Program}
    (halike : Alike env env' slotCount size size') (hscoped : p.root.Scoped slotCount bound)
    {index index' : IndexTable} (h : Agree size size' bound index index') :
    Option.Rel (SameResult (Agree size size' bound)) (strategy.compile p env index)
      (strategy.compile p env' index') := by
  cases strategy with
  | stackCode =>
    have hstart : StackMachine.Agree size size' bound ⟨index, []⟩ ⟨index', []⟩ := ⟨rfl, h⟩
    have hrun := Node.exec_emit_agree halike hscoped (fun _ _ h => h.exec_done) hstart
    refine rel_map (rel_map hrun fun m m' hm => hm.pop) ?_
    rintro ⟨x, m⟩ ⟨x', m'⟩ ⟨hx, hm⟩
    exact ⟨hx, hm.index⟩
  | closure =>
    change Option.Rel _ (p.root.toKernel env index) (p.root.toKernel env' index')
    rw [Node.toKernel_eq, Node.toKernel_eq]
    exact Node.eval_agree halike hscoped h
  | treeWalk => exact Node.eval_agree halike hscoped h

end Kernels

/-! ## Elements -/

/-- **Decoding forgets.** It sets the output slots to the same indices in both tables. -/
theorem decodePosition_agree {size : Nat} {bound : List Nat} {index index' : IndexTable}
    (extents slots : List Nat) (position : Nat) (h : Agree size size bound index index') :
    Option.Rel (SameResult (Agree size size slots)) (decodePosition extents slots position index)
      (decodePosition extents slots position index') := by
  induction slots generalizing position with
  | nil => exact .some ⟨rfl, h.mono (by simp)⟩
  | cons slot slots ih =>
    refine rel_bind (ih position) ?_
    rintro ⟨rest, j⟩ ⟨rest', j'⟩ ⟨hrest, hj⟩
    obtain rfl : rest = rest' := hrest
    refine rel_bind (rel_of_eq rfl) fun extent extent' hextent => ?_
    obtain rfl : extent = extent' := hextent
    by_cases hzero : extent = 0
    · simp only [if_pos hzero]
      exact .none
    · simp only [if_neg hzero]
      exact .some ⟨rfl, hj.enter Iff.rfl _⟩

namespace BoundCall

/-- Computes one element of the output, given by its iteration and its position in the core block,
on an index table that is handed on. -/
def elementFrom (call : BoundCall) (kernel : Kernel) (outputSlots : List Nat)
    (inputs : List NdArray) (place : Nat × Nat) (index : IndexTable) :
    Option (Float × IndexTable) := do
  let operands ← call.operands? inputs place.1
  let (_, index) ← decodePosition call.extents outputSlots place.2 index
  kernel ⟨[], operands, call.extents⟩ index

/-- One element of the output on a table of zeros. -/
def elementAlone (call : BoundCall) (kernel : Kernel) (outputSlots : List Nat)
    (inputs : List NdArray) (place : Nat × Nat) : Option Float :=
  (call.elementFrom kernel outputSlots inputs place (List.replicate call.extents.length 0)).map
    (·.1)

/-- Computes elements of the output one after the other, all of them on one index table. -/
def runInOrder (call : BoundCall) (kernel : Kernel) (outputSlots : List Nat)
    (inputs : List NdArray) : List (Nat × Nat) → IndexTable → Option (List Float × IndexTable)
  | [], index => some ([], index)
  | place :: places, index => do
    let (x, index) ← call.elementFrom kernel outputSlots inputs place index
    let (xs, index) ← call.runInOrder kernel outputSlots inputs places index
    return (x :: xs, index)

/-- The places of all elements, in the order in which a run computes them. -/
def places (call : BoundCall) : List (Nat × Nat) :=
  (List.range call.loopCount).flatMap fun l => (List.range call.outputCoreSize).map (l, ·)

variable {call : BoundCall} {kernel : Kernel} {outputSlots : List Nat} {inputs : List NdArray}

/-! ### A run as a sequence of elements -/

theorem runInOrder_append (places places' : List (Nat × Nat)) (index : IndexTable) :
    call.runInOrder kernel outputSlots inputs (places ++ places') index = (do
      let (xs, index) ← call.runInOrder kernel outputSlots inputs places index
      let (ys, index) ← call.runInOrder kernel outputSlots inputs places' index
      return (xs ++ ys, index)) := by
  induction places generalizing index with
  | nil =>
    cases h : call.runInOrder kernel outputSlots inputs places' index <;> simp [runInOrder, h]
  | cons place places ih => simp [runInOrder, ih, Option.bind_assoc]

theorem runElements_eq_runInOrder {l : Nat} {operands : List Operand}
    (hoperands : call.operands? inputs l = some operands) (count first : Nat)
    (index : IndexTable) :
    runElements kernel outputSlots ⟨[], operands, call.extents⟩ count first index =
      call.runInOrder kernel outputSlots inputs ((List.range' first count).map (l, ·)) index := by
  induction count generalizing first index with
  | zero => rfl
  | succ count ih =>
    simp [runElements, runInOrder, elementFrom, hoperands, List.range'_succ, ih,
      Option.bind_assoc]

theorem runIterations_eq_runInOrder (hsize : 0 < call.outputCoreSize) (count first : Nat)
    (index : IndexTable) :
    (runIterations kernel outputSlots call inputs count first index).map
        (fun r => (r.1.flatten, r.2)) =
      call.runInOrder kernel outputSlots inputs ((List.range' first count).flatMap fun l =>
        (List.range call.outputCoreSize).map (l, ·)) index := by
  induction count generalizing first index with
  | zero => rfl
  | succ count ih =>
    rw [List.range'_succ, List.flatMap_cons, runInOrder_append]
    cases hoperands : call.operands? inputs first with
    | none =>
      -- the first element fails as well, for want of operands
      obtain ⟨size, hsize⟩ := Nat.exists_eq_add_of_lt hsize
      simp [runIterations, hoperands, hsize, List.range_succ_eq_map, runInOrder, elementFrom]
    | some operands =>
      simp only [runIterations, hoperands, Option.bind_eq_bind, Option.bind_some,
        runElements_eq_runInOrder hoperands, ← List.range_eq_range']
      -- the block, and then the blocks behind it
      cases call.runInOrder kernel outputSlots inputs
          ((List.range call.outputCoreSize).map (first, ·)) index with
      | none => rfl
      | some r =>
        simp only [Option.bind_some, ← ih]
        cases runIterations kernel outputSlots call inputs count (first + 1) r.2 <;> rfl

/-- A run computes the elements one after the other, on a table of zeros at first. -/
theorem run_eq_runInOrder :
    call.run kernel outputSlots inputs =
      (call.runInOrder kernel outputSlots inputs call.places
        (List.replicate call.extents.length 0)).map (·.1.toArray) := by
  rw [run]
  split
  · next hzero =>
    have hplaces : call.places = [] := by simp [places, hzero]
    rw [hplaces]
    rfl
  · next hpos =>
    rw [places, List.range_eq_range' (n := call.loopCount),
      ← runIterations_eq_runInOrder (Nat.pos_of_ne_zero hpos)]
    cases runIterations kernel outputSlots call inputs call.loopCount 0 _ <;> rfl

/-! ### Elements of kernels that forget -/

/-- What a kernel computes for an element does not depend on the index table. -/
def Forgets (call : BoundCall) (kernel : Kernel) (outputSlots : List Nat)
    (inputs : List NdArray) : Prop :=
  ∀ place index index',
    Agree call.extents.length call.extents.length [] index index' →
      Option.Rel (SameResult (Agree call.extents.length call.extents.length []))
        (call.elementFrom kernel outputSlots inputs place index)
        (call.elementFrom kernel outputSlots inputs place index')

/-- **Elements in any order** have the values that they have alone. -/
theorem Forgets.runInOrder_eq_mapM (h : call.Forgets kernel outputSlots inputs)
    (places : List (Nat × Nat)) {index : IndexTable} (hindex : index.length = call.extents.length) :
    (call.runInOrder kernel outputSlots inputs places index).map (·.1) =
      places.mapM (call.elementAlone kernel outputSlots inputs) := by
  induction places generalizing index with
  | nil => rfl
  | cons place places ih =>
    -- this element on the table at hand and on zeros
    have helement := h place index (List.replicate call.extents.length 0)
      ⟨hindex, List.length_replicate, by simp⟩
    rw [List.mapM_cons, elementAlone, runInOrder]
    revert helement
    generalize call.elementFrom kernel outputSlots inputs place index = r,
      call.elementFrom kernel outputSlots inputs place (List.replicate call.extents.length 0) = r'
    rintro (⟨hx, hj⟩ | _)
    · simp only [Option.bind_eq_bind, Option.bind_some, Option.map_some, ← ih hj.length_eq, hx]
      cases call.runInOrder kernel outputSlots inputs places _ <;> rfl
    · rfl

/-- In a run, each element has the value that it has alone. -/
theorem Forgets.run_eq_mapM (h : call.Forgets kernel outputSlots inputs) :
    call.run kernel outputSlots inputs =
      (call.places.mapM (call.elementAlone kernel outputSlots inputs)).map List.toArray := by
  rw [← h.runInOrder_eq_mapM call.places (List.length_replicate (a := 0)), run_eq_runInOrder,
    Option.map_map]
  rfl

theorem getElem?_places {l j : Nat} (hl : l < call.loopCount) (hj : j < call.outputCoreSize) :
    call.places[l * call.outputCoreSize + j]? = some (l, j) := by
  rw [places, List.flatMap, getElem?_flatten_of_length (by simp) hj]
  simp [hl, hj]

end BoundCall

/-- A lowered kernel forgets, under every strategy. -/
theorem Program.Lowers.forgets {p : Program} {f : CoreFunction} {s : Signature} (h : p.Lowers f s)
    (strategy : Strategy) (call : BoundCall) (inputs : List NdArray) :
    call.Forgets (strategy.compile p) p.outputSlots inputs := by
  intro place index index' hagree
  refine rel_bind (rel_of_eq rfl) fun operands operands' hoperands => ?_
  obtain rfl : operands = operands' := hoperands
  refine rel_bind (decodePosition_agree _ _ _ hagree) ?_
  rintro ⟨rest, j⟩ ⟨rest', j'⟩ ⟨-, hj⟩
  have halike : Alike ⟨[], operands, call.extents⟩ ⟨[], operands, call.extents⟩ p.dims.length
      call.extents.length call.extents.length := ⟨rfl, rfl, fun _ _ => Iff.rfl⟩
  refine rel_imp (strategy.compile_agree halike h.root_scoped hj) ?_
  rintro ⟨x, k⟩ ⟨x', k'⟩ ⟨hx, hk⟩
  exact ⟨hx, hk.mono (by simp)⟩

/-- **Stale indices do not matter.** For every core function that can be lowered and every strategy:
on two tables with the same slots and with the same indices in the slots of the output, the kernel
gives the same number, or none on both of them; scalar arguments do not count. In a run, which has
one table for everything, each element has the value that it has alone, on a table of zeros; and so
it is for elements computed in any order, from any table. -/
theorem stale_indices_do_not_matter {f : CoreFunction} {s : Signature} {p : Program}
    (hp : f.lower s = .ok p) (strategy : Strategy) :
    (∀ args args' operands extents (index index' : IndexTable),
      (∀ slot < p.dims.length, slot < index.length ↔ slot < index'.length) →
      (∀ slot ∈ p.outputSlots, index[slot]? = index'[slot]?) →
      (strategy.compile p ⟨args, operands, extents⟩ index).map (·.1) =
        (strategy.compile p ⟨args', operands, extents⟩ index').map (·.1)) ∧
    ∀ (call : BoundCall) (inputs : List NdArray),
      (∀ (places : List (Nat × Nat)) (index : IndexTable), index.length = call.extents.length →
        (call.runInOrder (strategy.compile p) p.outputSlots inputs places index).map (·.1) =
          places.mapM (call.elementAlone (strategy.compile p) p.outputSlots inputs)) ∧
      call.run (strategy.compile p) p.outputSlots inputs =
        (call.places.mapM (call.elementAlone (strategy.compile p) p.outputSlots inputs)).map
          List.toArray ∧
      ∀ data, call.run (strategy.compile p) p.outputSlots inputs = some data →
        ∀ l < call.loopCount, ∀ j < call.outputCoreSize,
          data[l * call.outputCoreSize + j]? =
            call.elementAlone (strategy.compile p) p.outputSlots inputs (l, j) := by
  have hlowers := CoreFunction.lowers_of_lower hp
  refine ⟨fun args args' operands extents index index' hslots hindices => ?_,
    fun call inputs => ?_⟩
  · have halike : Alike ⟨args, operands, extents⟩ ⟨args', operands, extents⟩ p.dims.length
        index.length index'.length := ⟨rfl, rfl, hslots⟩
    exact map_fst_eq_of_rel
      (strategy.compile_agree halike hlowers.root_scoped ⟨rfl, rfl, hindices⟩)
  · have hforgets := hlowers.forgets strategy call inputs
    refine ⟨fun places index hindex => hforgets.runInOrder_eq_mapM places hindex,
      hforgets.run_eq_mapM, fun data hdata l hl j hj => ?_⟩
    rw [hforgets.run_eq_mapM] at hdata
    obtain ⟨xs, hxs, rfl⟩ := Option.map_eq_some_iff.mp hdata
    obtain ⟨x, hx, helement⟩ := forall₂_getElem? (mapM_eq_some_iff.mp hxs)
      (BoundCall.getElem?_places hl hj)
    rw [List.getElem?_toArray, hx, helement]

/-- A sum over the output dimension inside another sum, on a table with stale indices in the slot of
the inner dimension, and a run from the last element to the first one. -/
theorem stale_indices_do_not_matter_under_output_sum :
    ∃ p call, CoreFunction.lower ⟨"f", .sum "n" (.binary .add (.element 0 ["m", "n"])
        (.sum "m" (.element 0 ["m", "n"])))⟩ ⟨[["m", "n"]], ["m"]⟩ = .ok p ∧
      p.bind [⟨[2, 2], #[1.0, 2.0, 3.0, 4.0], by decide⟩] = .ok (call, [2]) ∧
      call.places = [(0, 0), (0, 1)] ∧
      ∀ strategy : Strategy,
        (strategy.compile p ⟨[], [⟨#[1.0, 2.0, 3.0, 4.0], [2, 1]⟩], [2, 2]⟩ [1, 7]).map (·.1) =
          (strategy.compile p ⟨[], [⟨#[1.0, 2.0, 3.0, 4.0], [2, 1]⟩], [2, 2]⟩ [1, 0]).map (·.1) ∧
        (call.runInOrder (strategy.compile p) p.outputSlots
            [⟨[2, 2], #[1.0, 2.0, 3.0, 4.0], by decide⟩] [(0, 1), (0, 0)] [5, 7]).map (·.1) =
          [(0, 1), (0, 0)].mapM (call.elementAlone (strategy.compile p) p.outputSlots
            [⟨[2, 2], #[1.0, 2.0, 3.0, 4.0], by decide⟩]) := by
  have hp : CoreFunction.lower ⟨"f", .sum "n" (.binary .add (.element 0 ["m", "n"])
      (.sum "m" (.element 0 ["m", "n"])))⟩ ⟨[["m", "n"]], ["m"]⟩ = .ok _ := rfl
  refine ⟨_, _, hp, rfl, rfl, fun strategy => ⟨?_, ?_⟩⟩
  · exact (stale_indices_do_not_matter hp strategy).1 [] [] _ _ [1, 7] [1, 0] (fun _ _ => Iff.rfl)
      (by decide)
  · exact ((stale_indices_do_not_matter hp strategy).2 _ _).1 _ _ rfl

end ArrayKernels
