import ArrayKernels.Proofs.Recording

/-!
# Agreement of the strategies

A lowered kernel has one value, whichever strategy runs it. The value is stated without any state:
`Node.denote` reads the indices of slots from a table that is passed down, and a sum adds up what
its body is worth with each index in its slot. The strategies share one index table that sums
overwrite and restore; stack code runs the bodies of sums on the stack of the code around them, and
computes both arms of a choice where the other two strategies compute one.

## What a kernel needs

`Node.Safe` says of a tree and an index table that whatever a strategy may do is possible: arguments
are there, the slots of sums are in both tables, and every read is admissible, in both arms of a
choice and for every index that the sums around it give to their slots.

## Main results

- `Strategy.compileRecorded_of_safe`: a safe kernel gives its value, restores the index table and
  notes admissible reads only, under every strategy.
- `strategies_agree`: the three strategies agree.
-/

namespace ArrayKernels

/-! ## The value of a tree -/

/-- The sum of what a function gives for the numbers below a bound, from left to right and from
zero on. -/
def addUp (f : Nat → Float) (count : Nat) : Float :=
  (List.range count).foldl (fun total i => total + f i) 0.0

/-- The value of a tree at the indices of a table. What is not there counts as zero. -/
def Node.denote (env : Env) : Node → IndexTable → Float
  | const v, _ => v
  | arg i, _ => (env.args[i]?).getD 0.0
  | unary op a, index => op.apply (a.denote env index)
  | binary op a b, index => op.apply (a.denote env index) (b.denote env index)
  | select c t o, index =>
    if c.denote env index != 0.0 then t.denote env index else o.denote env index
  | load k slots, index => (env.load index k slots).getD 0.0
  | sum slot body, index =>
    addUp (fun i => body.denote env (index.set slot i)) ((env.extents[slot]?).getD 0)

/-! ## What a strategy may do -/

/-- The environment has an element for a read. -/
def Env.Answers (env : Env) (r : Read) : Prop :=
  ∃ x, env.load r.index r.operand r.slots = some x

instance (env : Env) : DecidablePred env.Answers := fun r =>
  decidable_of_iff ((env.load r.index r.operand r.slots).isSome = true) Option.isSome_iff_exists

/-- Whatever a strategy may do with a tree is possible, and every read that it may make satisfies
`P`. -/
def Node.Safe (P : Read → Prop) (env : Env) : Node → IndexTable → Prop
  | const _, _ => True
  | arg i, _ => i < env.args.length
  | unary _ a, index => a.Safe P env index
  | binary _ a b, index => a.Safe P env index ∧ b.Safe P env index
  | select c t o, index => c.Safe P env index ∧ t.Safe P env index ∧ o.Safe P env index
  | load k slots, index => P ⟨k, slots, index⟩
  | sum slot body, index =>
    slot < index.length ∧
      ∃ extent, env.extents[slot]? = some extent ∧
        ∀ i < extent, body.Safe P env (index.set slot i)

instance Node.decidableSafe {P : Read → Prop} [DecidablePred P] (env : Env) :
    (n : Node) → (index : IndexTable) → Decidable (n.Safe P env index)
  | const _, _ => .isTrue trivial
  | arg i, _ => inferInstanceAs (Decidable (i < env.args.length))
  | unary _ a, index => a.decidableSafe env index
  | binary _ a b, index =>
    have : Decidable (a.Safe P env index) := a.decidableSafe env index
    have : Decidable (b.Safe P env index) := b.decidableSafe env index
    inferInstanceAs (Decidable (_ ∧ _))
  | select c t o, index =>
    have : Decidable (c.Safe P env index) := c.decidableSafe env index
    have : Decidable (t.Safe P env index) := t.decidableSafe env index
    have : Decidable (o.Safe P env index) := o.decidableSafe env index
    inferInstanceAs (Decidable (_ ∧ _ ∧ _))
  | load k slots, index => inferInstanceAs (Decidable (P ⟨k, slots, index⟩))
  | sum slot body, index =>
    have : ∀ i, Decidable (body.Safe P env (index.set slot i)) := fun i =>
      body.decidableSafe env (index.set slot i)
    match h : env.extents[slot]? with
    | none => .isFalse fun ⟨_, _, hextent, _⟩ => by rw [h] at hextent; cases hextent
    | some extent =>
      decidable_of_iff
        (slot < index.length ∧ ∀ i < extent, body.Safe P env (index.set slot i))
        (by simp only [Safe, h, Option.some.injEq, exists_eq_left'])

/-- The recorder holds that index table, and all reads so far satisfy `P`. -/
structure Recorder.Holds (P : Read → Prop) (index : IndexTable) (r : Recorder) : Prop where
  index_eq : r.index = index
  reads : ∀ read ∈ r.reads, P read

namespace Recorder.Holds

variable {P : Read → Prop} {index : IndexTable} {r : Recorder}

theorem enter (h : r.Holds P index) (slot i : Nat) : (r.enter slot i).Holds P (index.set slot i) :=
  ⟨by rw [← h.index_eq]; rfl, h.reads⟩

theorem note (h : r.Holds P index) {k : Nat} {slots : List Nat} (hread : P ⟨k, slots, index⟩) :
    (r.note k slots).Holds P index := by
  refine ⟨h.index_eq, fun read hmem => ?_⟩
  rcases List.mem_append.mp hmem with hold | hnew
  · exact h.reads read hold
  · rw [List.mem_singleton.mp hnew, h.index_eq]
    exact hread

end Recorder.Holds

/-! ## Sums -/

/-- If every step of a loop gives the number that `f` says and keeps `Inv`, the loop adds these
numbers up and keeps `Inv`. -/
theorem accumulate_of_steps {State : Type} (step : Nat → State → Option (Float × State))
    (f : Nat → Float) (Inv : State → Prop) {count : Nat}
    (hstep : ∀ i < count, ∀ s, Inv s → ∃ s', step i s = some (f i, s') ∧ Inv s')
    {s : State} (hs : Inv s) :
    ∃ s', accumulate step count 0 0.0 s = some (addUp f count, s') ∧ Inv s' := by
  -- the loop goes on from any place in the range, with any total so far
  have hloop : ∀ (n first : Nat) (total : Float) (s : State), first + n = count → Inv s →
      ∃ s', accumulate step n first total s =
        some ((List.range' first n).foldl (fun total i => total + f i) total, s') ∧ Inv s' := by
    intro n
    induction n with
    | zero =>
      intro first total s _ hs
      exact ⟨s, rfl, hs⟩
    | succ n ih =>
      intro first total s hcount hs
      obtain ⟨s₁, hfirst, hs₁⟩ := hstep first (by omega) s hs
      obtain ⟨s₂, hrest, hs₂⟩ := ih (first + 1) (total + f first) s₁ (by omega) hs₁
      refine ⟨s₂, ?_, hs₂⟩
      simp only [accumulate, hfirst, Option.bind_eq_bind, Option.bind_some, hrest]
      rfl
  obtain ⟨s', hrun, hs'⟩ := hloop count 0 0.0 s (by omega) hs
  rw [← List.range_eq_range'] at hrun
  exact ⟨s', hrun, hs'⟩

/-- What holds of the recorder while a sum over the slot runs: up to the index in the slot, the
table is the one in which the sum began. -/
def Recorder.InSum (P : Read → Prop) (slot : Nat) (index : IndexTable) (r : Recorder) : Prop :=
  ∀ i, (r.enter slot i).Holds P (index.set slot i)

namespace Recorder.Holds

variable {P : Read → Prop} {index : IndexTable} {r : Recorder} {slot : Nat}

theorem inSum (h : r.Holds P index) : r.InSum P slot index := fun i => h.enter slot i

theorem inSum_of_set {i : Nat} (h : r.Holds P (index.set slot i)) : r.InSum P slot index := by
  intro j
  have hj := h.enter slot j
  rwa [List.set_set] at hj

end Recorder.Holds

/-- Putting the old index back ends a sum. -/
theorem Recorder.InSum.leave {P : Read → Prop} {slot saved : Nat} {index : IndexTable}
    {r : Recorder} (h : r.InSum P slot index) (hsaved : index[slot]? = some saved) :
    (r.enter slot saved).Holds P index := by
  have hold := h saved
  obtain ⟨hslot, rfl⟩ := List.getElem?_eq_some_iff.mp hsaved
  rwa [List.set_getElem_self] at hold

/-! ## Running a safe tree -/

section Safe

variable {P : Read → Prop} {env : Env} {index : IndexTable}

/-- The value of a read that has an answer. -/
private theorem Node.load_of_answers {k : Nat} {slots : List Nat}
    (h : env.Answers ⟨k, slots, index⟩) :
    env.load index k slots = some ((load k slots).denote env index) := by
  obtain ⟨x, hx⟩ := h
  simp only [denote, hx, Option.getD_some]

/-- A safe tree is worth its value to the tree walk, and the index table is as before. -/
theorem Node.evalRecorded_of_safe (hP : ∀ read, P read → env.Answers read) {n : Node}
    {r : Recorder} (hsafe : n.Safe P env index) (hr : r.Holds P index) :
    ∃ r', n.evalRecorded env r = some (n.denote env index, r') ∧ r'.Holds P index := by
  induction n generalizing index r with
  | const v => exact ⟨r, rfl, hr⟩
  | arg i =>
    refine ⟨r, ?_, hr⟩
    have harg : i < env.args.length := hsafe
    simp [evalRecorded, denote, harg]
  | unary op a ih =>
    obtain ⟨r₁, ha, hr₁⟩ := ih hsafe hr
    refine ⟨r₁, ?_, hr₁⟩
    simp only [evalRecorded, ha]
    rfl
  | binary op a b iha ihb =>
    obtain ⟨r₁, ha, hr₁⟩ := iha hsafe.1 hr
    obtain ⟨r₂, hb, hr₂⟩ := ihb hsafe.2 hr₁
    refine ⟨r₂, ?_, hr₂⟩
    simp only [evalRecorded, ha, Option.bind_eq_bind, Option.bind_some, hb]
    rfl
  | select c t o ihc iht iho =>
    obtain ⟨r₁, hc, hr₁⟩ := ihc hsafe.1 hr
    simp only [evalRecorded, hc, Option.bind_eq_bind, Option.bind_some, denote]
    -- only the chosen arm is run, and both are safe
    split
    · exact iht hsafe.2.1 hr₁
    · exact iho hsafe.2.2 hr₁
  | load k slots =>
    have hread : P ⟨k, slots, index⟩ := hsafe
    refine ⟨r.note k slots, ?_, hr.note hread⟩
    simp only [evalRecorded, hr.index_eq, load_of_answers (hP _ hread), Option.map_some]
  | sum slot body ih =>
    obtain ⟨hindex, extent, hextent, hbody⟩ := hsafe
    have hsaved : index[slot]? = some index[slot] := List.getElem?_eq_getElem hindex
    -- within the sum, the table is the old one up to the index in the slot
    obtain ⟨r₁, hrun, hr₁⟩ :=
      accumulate_of_steps (fun i r => body.evalRecorded env (r.enter slot i))
        (fun i => body.denote env (index.set slot i)) (Recorder.InSum P slot index)
        (fun i hi r hr => by
          obtain ⟨r', hrun, hr'⟩ := ih (hbody i hi) (hr i)
          exact ⟨r', hrun, hr'.inSum_of_set⟩)
        hr.inSum
    refine ⟨r₁.enter slot index[slot], ?_, hr₁.leave hsaved⟩
    simp only [evalRecorded, hr.index_eq, hsaved, hextent, Option.bind_eq_bind, Option.bind_some,
      hrun, denote]
    rfl

/-- The code of a safe tree puts the value of the tree on the stack, leaves what is below alone, and
goes on with the code that follows. -/
theorem Node.execRecorded_emit (hP : ∀ read, P read → env.Answers read) {n : Node}
    {r : Recorder} (hsafe : n.Safe P env index) (hr : r.Holds P index) (next : StackCode)
    (stack : List Float) :
    ∃ r', (n.emit next).execRecorded env ⟨r, stack⟩ =
      next.execRecorded env ⟨r', n.denote env index :: stack⟩ ∧ r'.Holds P index := by
  induction n generalizing index r next stack with
  | const v => exact ⟨r, rfl, hr⟩
  | arg i =>
    refine ⟨r, ?_, hr⟩
    have harg : env.args[i]? = some env.args[i] := List.getElem?_eq_getElem hsafe
    simp only [emit, StackCode.execRecorded, denote, harg, Option.getD_some]
    rfl
  | unary op a ih =>
    obtain ⟨r₁, ha, hr₁⟩ := ih hsafe hr (.unary op next) stack
    exact ⟨r₁, ha, hr₁⟩
  | binary op a b iha ihb =>
    -- the code that follows the first operand is that of the second one and then the instruction
    obtain ⟨r₁, ha, hr₁⟩ := iha hsafe.1 hr (b.emit (.binary op next)) stack
    obtain ⟨r₂, hb, hr₂⟩ := ihb hsafe.2 hr₁ (.binary op next) (a.denote env index :: stack)
    exact ⟨r₂, ha.trans hb, hr₂⟩
  | select c t o ihc iht iho =>
    -- both arms are on the stack when the choice is made
    obtain ⟨r₁, hc, hr₁⟩ := ihc hsafe.1 hr (t.emit (o.emit (.select next))) stack
    obtain ⟨r₂, ht, hr₂⟩ := iht hsafe.2.1 hr₁ (o.emit (.select next)) (c.denote env index :: stack)
    obtain ⟨r₃, ho, hr₃⟩ := iho hsafe.2.2 hr₂ (.select next)
      (t.denote env index :: c.denote env index :: stack)
    exact ⟨r₃, (hc.trans ht).trans ho, hr₃⟩
  | load k slots =>
    have hread : P ⟨k, slots, index⟩ := hsafe
    refine ⟨r.note k slots, ?_, hr.note hread⟩
    simp only [emit, StackCode.execRecorded, hr.index_eq, load_of_answers (hP _ hread)]
    rfl
  | sum slot body ih =>
    obtain ⟨hindex, extent, hextent, hbody⟩ := hsafe
    have hsaved : index[slot]? = some index[slot] := List.getElem?_eq_getElem hindex
    -- the body runs on the stack of the code around the sum and gives that stack back
    obtain ⟨⟨r₁, stack₁⟩, hrun, hr₁, hstack⟩ :=
      accumulate_of_steps
        (fun i m => ((body.emit .done).execRecorded env (m.enter slot i)).map (·.pop))
        (fun i => body.denote env (index.set slot i))
        (fun m => m.recorder.InSum P slot index ∧ m.stack = stack)
        (fun i hi m hm => by
          obtain ⟨hr, hstack⟩ := hm
          obtain ⟨r', hrun, hr'⟩ := ih (hbody i hi) (hr i) .done stack
          refine ⟨⟨r', stack⟩, ?_, hr'.inSum_of_set, rfl⟩
          rw [← hstack] at hrun ⊢
          show (((body.emit .done).execRecorded env ⟨m.recorder.enter slot i, m.stack⟩).map _) = _
          rw [hrun]
          rfl)
        (s := ⟨r, stack⟩) ⟨hr.inSum, rfl⟩
    refine ⟨r₁.enter slot index[slot], ?_, hr₁.leave hsaved⟩
    subst hstack
    simp only [emit, StackCode.execRecorded, hr.index_eq, hsaved, hextent, Option.bind_eq_bind,
      Option.bind_some, hrun, denote]
    rfl

/-- **A safe kernel gives its value under every strategy.** It restores the index table, and notes
admissible reads only. -/
theorem Strategy.compileRecorded_of_safe (hP : ∀ read, P read → env.Answers read)
    (strategy : Strategy) {p : Program} {r : Recorder} (hsafe : p.root.Safe P env index)
    (hr : r.Holds P index) :
    ∃ r', strategy.compileRecorded p env r = some (p.root.denote env index, r') ∧
      r'.Holds P index := by
  cases strategy with
  | stackCode =>
    -- no code follows, and the value is the only number on the stack
    obtain ⟨r', hrun, hr'⟩ := Node.execRecorded_emit hP hsafe hr .done []
    refine ⟨r', ?_, hr'⟩
    show ((p.stackCode.execRecorded env ⟨r, []⟩).map _).map _ = _
    rw [Program.stackCode, hrun]
    rfl
  | closure =>
    obtain ⟨r', hrun, hr'⟩ := Node.evalRecorded_of_safe hP hsafe hr
    exact ⟨r', (Node.toRecordedKernel_eq p.root env r).trans hrun, hr'⟩
  | treeWalk => exact Node.evalRecorded_of_safe hP hsafe hr

/-- A safe kernel gives its value under every strategy and restores the index table. -/
theorem Strategy.compile_of_safe (hP : ∀ read, P read → env.Answers read) (strategy : Strategy)
    {p : Program} (hsafe : p.root.Safe P env index) :
    strategy.compile p env index = some (p.root.denote env index, index) := by
  obtain ⟨r', hrun, hr'⟩ :=
    strategy.compileRecorded_of_safe hP hsafe (r := ⟨index, []⟩) ⟨rfl, by simp⟩
  rw [← strategy.forget_compileRecorded p env ⟨index, []⟩, hrun]
  simp only [forget, Option.map_some, hr'.index_eq]

end Safe

/-- **The strategies agree.** Where every argument and every slot of a kernel is there and every
read that it may make has an answer, all three strategies give one number, and each of them leaves
the index table as it found it. -/
theorem strategies_agree (p : Program) (env : Env) (index : IndexTable)
    (hsafe : p.root.Safe env.Answers env index) :
    ∃ x, ∀ strategy : Strategy, strategy.compile p env index = some (x, index) :=
  ⟨p.root.denote env index, fun strategy => strategy.compile_of_safe (fun _ h => h) hsafe⟩

/-- A sum over a slot inside a sum over the same slot, with a choice after it: the strategies agree
where the index table holds indices that no sum would give. -/
theorem strategies_agree_on_shadowed_sums :
    ∃ x, ∀ strategy : Strategy,
      strategy.compile
        ⟨.sum 0 (.binary .add (.sum 0 (.sum 1 (.load 0 [0, 1])))
          (.select (.const 0.0) (.load 1 [0]) (.sum 1 (.load 0 [0, 1])))),
          0, ["m", "n"], [[0, 1], [0]], [], []⟩
        ⟨[], [⟨#[1.0, 2.0, 3.0, 4.0, 5.0, 6.0], [3, 1]⟩, ⟨#[10.0, 100.0], [1]⟩], [2, 3]⟩ [7, 8] =
      some (x, [7, 8]) :=
  strategies_agree _ _ _ (by decide)

end ArrayKernels
