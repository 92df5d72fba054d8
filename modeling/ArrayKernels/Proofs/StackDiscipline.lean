import ArrayKernels.Proofs.StrategyAgreement
import ArrayKernels.Proofs.WatchedStack

/-!
# Stack discipline

Code that has been emitted for a tree treats the stack as the tree is built. Each node finds on top
of the stack what its operands have put there, takes these numbers off and puts its own on. So a run
never touches an entry that it has not pushed itself, and in the end there is one entry more than in
the beginning. The bodies of sums are runs of their own on the same stack.

How high the stack becomes is known beforehand: `StackCode.depth` finds the height of the tree. No
run goes beyond it, and one that gets into the body of every sum comes that far. So a stack that is
given as much room as that at first does not have to grow.

## Layers

- **Height of a tree**: what the static analysis finds in emitted code.
- **Trees on a stack**: a tree does to the stack what its code does.
- **Order**: nothing is popped that does not belong to the run, and the stack stays under a ceiling.
- **Peaks**: the ceiling is reached.

## Main results

- `Node.depth_emit`: the static analysis of emitted code has a result.
- `Node.execWatched_emit`: the code of a tree does what the tree does.
- `Node.orderly_evalWatched`, `Node.reaches_evalWatched`: order and peak, by induction on the tree.
- `emitted_code_keeps_stack_discipline`: both for runs of emitted code.
-/

namespace ArrayKernels

/-! ## Height of a tree -/

/-- The greatest number of entries that the code of a tree adds to the stack. Operands that have
been computed stay on the stack while the next one is computed. -/
def Node.height : Node → Nat
  | const _ => 1
  | arg _ => 1
  | unary _ a => a.height
  | binary _ a b => Nat.max a.height (b.height + 1)
  | select c t o => Nat.max c.height (Nat.max t.height (o.height + 1) + 1)
  | load _ _ => 1
  | sum _ body => body.height

theorem Node.height_pos (n : Node) : 0 < n.height := by
  induction n with
  | const v => exact Nat.one_pos
  | arg i => exact Nat.one_pos
  | unary op a ih => exact ih
  | binary op a b iha ihb => exact Nat.lt_of_lt_of_le iha (Nat.le_max_left _ _)
  | select c t o ihc iht iho => exact Nat.lt_of_lt_of_le ihc (Nat.le_max_left _ _)
  | load k slots => exact Nat.one_pos
  | sum slot body ih => exact ih

theorem Node.height_le_binary (op : BinaryOp) (a b : Node) :
    a.height ≤ (binary op a b).height ∧ b.height + 1 ≤ (binary op a b).height :=
  ⟨Nat.le_max_left _ _, Nat.le_max_right _ _⟩

theorem Node.height_le_select (c t o : Node) :
    c.height ≤ (select c t o).height ∧ t.height + 1 ≤ (select c t o).height ∧
      o.height + 2 ≤ (select c t o).height := by
  have hinner : Nat.max t.height (o.height + 1) + 1 ≤ (select c t o).height := Nat.le_max_right _ _
  have ht : t.height ≤ Nat.max t.height (o.height + 1) := Nat.le_max_left _ _
  have ho : o.height + 1 ≤ Nat.max t.height (o.height + 1) := Nat.le_max_right _ _
  exact ⟨Nat.le_max_left _ _, by omega, by omega⟩

/-- An entry below the peak does not raise it. -/
private theorem peak_absorb {peak high low : Nat} (h : low ≤ high) :
    Nat.max (Nat.max peak high) low = Nat.max peak high :=
  Nat.max_eq_left (Nat.le_trans h (Nat.le_max_right peak high))

/-- The peaks of two parts, of which the second one begins an entry higher. -/
private theorem peak_step (peak height a b : Nat) :
    Nat.max (Nat.max peak (height + a)) (height + 1 + b) =
      Nat.max peak (height + Nat.max a (b + 1)) := by
  have hadd : Nat.max (height + a) (height + (b + 1)) = height + Nat.max a (b + 1) :=
    Nat.add_max_add_left height a (b + 1)
  rw [← hadd, Nat.add_assoc, Nat.add_comm 1 b]
  exact Nat.max_assoc _ _ _

/-- **The static analysis passes the code of a tree.** It finds no underflow, one more entry at the
end, and the height of the tree on the way. -/
theorem Node.peakFrom_emit (n : Node) (next : StackCode) (height peak : Nat) :
    (n.emit next).peakFrom height peak =
      next.peakFrom (height + 1) (Nat.max peak (height + n.height)) := by
  induction n generalizing next height peak with
  | const v => rfl
  | arg i => rfl
  | unary op a ih =>
    -- the operator leaves the height as it is, and that has been reached before
    have hpos := a.height_pos
    rw [emit, ih, StackCode.peakFrom, peak_absorb (by omega), Node.height]
  | binary op a b iha ihb =>
    have hpos := b.height_pos
    rw [emit, iha, ihb, StackCode.peakFrom, if_neg (by omega), peak_absorb (by omega), peak_step,
      Node.height]
    rfl
  | select c t o ihc iht iho =>
    have hpos := o.height_pos
    rw [emit, ihc, iht, iho, StackCode.peakFrom, if_neg (by omega), peak_absorb (by omega),
      peak_step _ (height + 1), peak_step, Node.height]
    rfl
  | load k slots => rfl
  | sum slot body ih =>
    -- the body is analysed on its own, from no entries on
    have hpos := body.height_pos
    have hbody : (body.emit .done).peakFrom 0 0 = some body.height := by
      rw [ih, StackCode.peakFrom, Nat.zero_add]
      exact congrArg some (Nat.max_eq_right (Nat.zero_le _))
    rw [emit, StackCode.peakFrom, hbody, Option.bind_eq_bind, Option.bind_some,
      peak_absorb (by omega), Node.height]

/-- The static analysis finds the height of a tree in its code. -/
theorem Node.depth_emit (n : Node) : (n.emit .done).depth = some n.height := by
  rw [StackCode.depth, peakFrom_emit, StackCode.peakFrom, Nat.zero_add]
  exact congrArg some (Nat.max_eq_right (Nat.zero_le _))

/-! ## Trees on a stack -/

/-- What the code of a tree does on a stack, in a run that began with the stack `start`: it puts a
number on top. The outcome is this number, and the index table. -/
def Node.evalWatched (env : Env) :
    Node → (start stack : List Float) → IndexTable → Watched (Float × IndexTable)
  | const v, start, stack, index => do
    .report [.pushed start (v :: stack)]
    return (v, index)
  | arg i, start, stack, index => do
    let x ← .ofOption env.args[i]?
    .report [.pushed start (x :: stack)]
    return (x, index)
  | unary op a, start, stack, index => do
    let (x, index) ← a.evalWatched env start stack index
    .report [.popping start (x :: stack), .pushed start (op.apply x :: stack)]
    return (op.apply x, index)
  | binary op a b, start, stack, index => do
    let (x, index) ← a.evalWatched env start stack index
    let (y, index) ← b.evalWatched env start (x :: stack) index
    .report [.popping start (y :: x :: stack), .popping start (x :: stack),
      .pushed start (op.apply x y :: stack)]
    return (op.apply x y, index)
  | select c t o, start, stack, index => do
    let (x, index) ← c.evalWatched env start stack index
    let (y, index) ← t.evalWatched env start (x :: stack) index
    let (z, index) ← o.evalWatched env start (y :: x :: stack) index
    let result := if x != 0.0 then y else z
    .report [.popping start (z :: y :: x :: stack), .popping start (y :: x :: stack),
      .popping start (x :: stack), .pushed start (result :: stack)]
    return (result, index)
  | load k slots, start, stack, index => do
    let x ← .ofOption (env.load index k slots)
    .report [.pushed start (x :: stack)]
    return (x, index)
  | sum slot body, start, stack, index => do
    let saved ← .ofOption index[slot]?
    let extent ← .ofOption env.extents[slot]?
    .report [.summing extent]
    let turn (i : Nat) (index : IndexTable) : Watched (Float × IndexTable) := do
      let (x, index) ← body.evalWatched env stack stack (index.set slot i)
      .report [.popping stack (x :: stack), .returned stack stack]
      return (x, index)
    let (total, index) ← accumulateWatched turn extent 0 0.0 index
    .report [.pushed start (total :: stack)]
    return (total, index.set slot saved)

/-- Loops whose states correspond to each other. -/
theorem accumulateWatched_map {State State' : Type} (h : State → State')
    {step : Nat → State → Watched (Float × State)} {step' : Nat → State' → Watched (Float × State')}
    (hstep : ∀ i s, step' i (h s) = step i s >>= fun r => pure (r.1, h r.2))
    (count first : Nat) (total : Float) (s : State) :
    accumulateWatched step' count first total (h s) =
      accumulateWatched step count first total s >>= fun r => pure (r.1, h r.2) := by
  induction count generalizing first total s with
  | zero => rfl
  | succ count ih =>
    simp only [accumulateWatched, hstep, bind_assoc, pure_bind, ih]

/-- **The code of a tree does what the tree does**, and the code that follows goes on from there. -/
theorem Node.execWatched_emit (env : Env) (n : Node) (next : StackCode) (start stack : List Float)
    (index : IndexTable) :
    (n.emit next).execWatched env start ⟨index, stack⟩ =
      n.evalWatched env start stack index >>= fun r =>
        next.execWatched env start ⟨r.2, r.1 :: stack⟩ := by
  induction n generalizing next start stack index with
  | const v => rfl
  | arg i =>
    simp only [emit, StackCode.execWatched, evalWatched, bind_assoc]
    rfl
  | unary op a ih =>
    simp only [emit, ih, evalWatched, bind_assoc]
    rfl
  | binary op a b iha ihb =>
    simp only [emit, iha, ihb, evalWatched, bind_assoc]
    rfl
  | select c t o ihc iht iho =>
    simp only [emit, ihc, iht, iho, evalWatched, bind_assoc]
    rfl
  | load k slots =>
    simp only [emit, StackCode.execWatched, evalWatched, bind_assoc]
    rfl
  | sum slot body ih =>
    -- every turn finds the stack with which the loop begins, and leaves it behind
    have hloop : ∀ extent : Nat, accumulateWatched
        (fun i m => (body.emit .done).execWatched env m.stack (m.enter slot i) >>= fun last =>
          last.returnWatched m.stack) extent 0 0.0 ⟨index, stack⟩ =
        accumulateWatched (fun i index => do
          let r ← body.evalWatched env stack stack (index.set slot i)
          .report [.popping stack (r.1 :: stack), .returned stack stack]
          return r) extent 0 0.0 index >>= fun r => pure (r.1, StackMachine.mk r.2 stack) := by
      intro extent
      refine accumulateWatched_map (StackMachine.mk · stack) (fun i index => ?_) extent 0 0.0 index
      simp only [StackMachine.enter, ih, bind_assoc]
      rfl
    simp only [emit, StackCode.execWatched, evalWatched, hloop, bind_assoc]
    rfl

/-! ## Order -/

/-- The stack has entries on top of those of `start`. -/
def Above (start stack : List Float) : Prop := start <:+ stack ∧ start.length < stack.length

theorem above_cons {start stack : List Float} (h : start <:+ stack) (x : Float) :
    Above start (x :: stack) := by
  refine ⟨h.trans (List.suffix_cons x stack), ?_⟩
  rw [List.length_cons]
  exact Nat.lt_succ_of_le h.length_le

/-- What may happen in a run from the stack `entry` on, also within its sums, if the stack is to
have no more than `ceiling` entries. What is popped has been pushed in the same run, and a run
leaves the stack with which it has begun. -/
def StackEvent.Orderly (entry : List Float) (ceiling : Nat) : StackEvent → Prop
  | pushed start stack => entry <:+ start ∧ Above start stack ∧ stack.length ≤ ceiling
  | popping start stack => entry <:+ start ∧ Above start stack
  | summing _ => True
  | returned start stack => entry <:+ start ∧ stack = start

section Orderly

variable {entry start stack : List Float} {ceiling : Nat}

theorem orderly_pushed (hentry : entry <:+ start) (hstart : start <:+ stack)
    (hroom : stack.length < ceiling) (x : Float) :
    (StackEvent.pushed start (x :: stack)).Orderly entry ceiling :=
  ⟨hentry, above_cons hstart x, hroom⟩

theorem orderly_popping (hentry : entry <:+ start) (hstart : start <:+ stack) (x : Float) :
    (StackEvent.popping start (x :: stack)).Orderly entry ceiling :=
  ⟨hentry, above_cons hstart x⟩

/-- The end of a run whose result lies on the stack with which it has begun. -/
theorem orderly_return (hentry : entry <:+ stack) (x : Float) :
    ∀ e ∈ [StackEvent.popping stack (x :: stack), .returned stack stack],
      e.Orderly entry ceiling := by
  apply List.forall_mem_cons.mpr ⟨orderly_popping hentry List.suffix_rfl x, ?_⟩
  exact List.forall_mem_singleton.mpr ⟨hentry, rfl⟩

end Orderly

namespace Watched

variable {α β : Type} {P : StackEvent → Prop}

/-- Whatever is reported satisfies `P`. -/
def All (P : StackEvent → Prop) (x : Watched α) : Prop := ∀ e ∈ x.events, P e

theorem all_ofOption (x : Option α) : (ofOption x).All P := fun _ h => nomatch h

theorem all_report {events : List StackEvent} (h : ∀ e ∈ events, P e) : (report events).All P := h

theorem All.bind {x : Watched α} {next : α → Watched β} (hx : x.All P)
    (hnext : ∀ a, (next a).All P) : (x >>= next).All P := by
  intro e he
  cases h : x.outcome with
  | none =>
    rw [bind_of_none h] at he
    exact hx e he
  | some a =>
    rw [bind_of_some h] at he
    exact (List.mem_append.mp he).elim (hx e) (hnext a e)

/-- A report that ends a computation. -/
theorem all_report_pure {events : List StackEvent} (h : ∀ e ∈ events, P e) (a : α) :
    (report events >>= fun _ => pure a).All P :=
  (all_report h).bind fun _ _ hnone => nomatch hnone

end Watched

theorem all_accumulateWatched {State : Type} {P : StackEvent → Prop}
    {step : Nat → State → Watched (Float × State)} (hstep : ∀ i s, (step i s).All P)
    (count first : Nat) (total : Float) (s : State) :
    (accumulateWatched step count first total s).All P := by
  induction count generalizing first total s with
  | zero => exact fun _ h => nomatch h
  | succ count ih => exact (hstep first s).bind fun r => ih (first + 1) (total + r.1) r.2

/-- **Whatever a tree does is in order**, if its height fits under the ceiling. -/
theorem Node.orderly_evalWatched {env : Env} {n : Node} {entry start stack : List Float}
    {ceiling : Nat} (hentry : entry <:+ start) (hstart : start <:+ stack)
    (hceiling : stack.length + n.height ≤ ceiling) (index : IndexTable) :
    (n.evalWatched env start stack index).All (StackEvent.Orderly entry ceiling) := by
  induction n generalizing start stack index with
  | const v =>
    refine Watched.all_report_pure ?_ _
    exact List.forall_mem_singleton.mpr (orderly_pushed hentry hstart hceiling v)
  | arg i =>
    refine (Watched.all_ofOption _).bind fun x => Watched.all_report_pure ?_ _
    exact List.forall_mem_singleton.mpr (orderly_pushed hentry hstart hceiling x)
  | unary op a ih =>
    have hroom : stack.length + a.height ≤ ceiling := hceiling
    have hpos := a.height_pos
    refine (ih hentry hstart hroom index).bind fun r => Watched.all_report_pure ?_ _
    refine List.forall_mem_cons.mpr ⟨orderly_popping hentry hstart _, ?_⟩
    exact List.forall_mem_singleton.mpr (orderly_pushed hentry hstart (by omega) _)
  | binary op a b iha ihb =>
    obtain ⟨ha, hb⟩ := Node.height_le_binary op a b
    have hpos := a.height_pos
    refine (iha hentry hstart (by omega) index).bind fun r₁ => ?_
    -- the first operand waits on the stack while the second one is computed
    have hfirst : start <:+ r₁.1 :: stack := (above_cons hstart r₁.1).1
    have hroom : (r₁.1 :: stack).length + b.height ≤ ceiling := by
      rw [List.length_cons]
      omega
    refine (ihb hentry hfirst hroom r₁.2).bind fun r₂ => Watched.all_report_pure ?_ _
    refine List.forall_mem_cons.mpr ⟨orderly_popping hentry hfirst _, ?_⟩
    refine List.forall_mem_cons.mpr ⟨orderly_popping hentry hstart _, ?_⟩
    exact List.forall_mem_singleton.mpr (orderly_pushed hentry hstart (by omega) _)
  | select c t o ihc iht iho =>
    obtain ⟨hc, ht, ho⟩ := Node.height_le_select c t o
    have hpos := c.height_pos
    refine (ihc hentry hstart (by omega) index).bind fun r₁ => ?_
    have hfirst : start <:+ r₁.1 :: stack := (above_cons hstart r₁.1).1
    have hroom : (r₁.1 :: stack).length + t.height ≤ ceiling := by
      rw [List.length_cons]
      omega
    refine (iht hentry hfirst hroom r₁.2).bind fun r₂ => ?_
    have hsecond : start <:+ r₂.1 :: r₁.1 :: stack := (above_cons hfirst r₂.1).1
    have hroom : (r₂.1 :: r₁.1 :: stack).length + o.height ≤ ceiling := by
      rw [List.length_cons, List.length_cons]
      omega
    refine (iho hentry hsecond hroom r₂.2).bind fun r₃ => Watched.all_report_pure ?_ _
    refine List.forall_mem_cons.mpr ⟨orderly_popping hentry hsecond _, ?_⟩
    refine List.forall_mem_cons.mpr ⟨orderly_popping hentry hfirst _, ?_⟩
    refine List.forall_mem_cons.mpr ⟨orderly_popping hentry hstart _, ?_⟩
    exact List.forall_mem_singleton.mpr (orderly_pushed hentry hstart (by omega) _)
  | load k slots =>
    refine (Watched.all_ofOption _).bind fun x => Watched.all_report_pure ?_ _
    exact List.forall_mem_singleton.mpr (orderly_pushed hentry hstart hceiling x)
  | sum slot body ih =>
    have hroom : stack.length + body.height ≤ ceiling := hceiling
    have hpos := body.height_pos
    -- the body runs on the whole stack, which is what its own run begins with
    have hbody : entry <:+ stack := hentry.trans hstart
    have hturn := fun (i : Nat) (index : IndexTable) =>
      (ih hbody List.suffix_rfl hroom (index.set slot i)).bind fun r =>
        Watched.all_report_pure (orderly_return hbody r.1) r
    refine (Watched.all_ofOption _).bind fun saved => ?_
    refine (Watched.all_ofOption _).bind fun extent => ?_
    refine (Watched.all_report (List.forall_mem_singleton.mpr trivial)).bind fun _ => ?_
    refine (all_accumulateWatched hturn extent 0 0.0 index).bind fun r => ?_
    refine Watched.all_report_pure (List.forall_mem_singleton.mpr ?_) _
    exact orderly_pushed hentry hstart (by omega) _

/-! ## Peaks -/

namespace Watched

variable {α β : Type}

/-- The computation comes to an end, and none of the sums in it is empty. -/
structure Full (x : Watched α) : Prop where
  ends : ∃ a, x.outcome = some a
  sums : .summing 0 ∉ x.events

/-- A push makes the stack that high. -/
def Reaches (x : Watched α) (height : Nat) : Prop :=
  ∃ start stack, .pushed start stack ∈ x.events ∧ stack.length = height

/-- Both parts of a full computation are full. -/
theorem Full.parts {x : Watched α} {next : α → Watched β} (h : (x >>= next).Full) :
    x.Full ∧ ∃ a, x.outcome = some a ∧ (next a).Full := by
  obtain ⟨⟨b, hb⟩, hsums⟩ := h
  rw [outcome_bind] at hb
  obtain ⟨a, ha, hb⟩ := Option.bind_eq_some_iff.mp hb
  rw [bind_of_some ha, List.mem_append, not_or] at hsums
  exact ⟨⟨⟨a, ha⟩, hsums.1⟩, a, ha, ⟨b, hb⟩, hsums.2⟩

theorem reaches_of_first {x : Watched α} {next : α → Watched β} {height : Nat}
    (h : x.Reaches height) : (x >>= next).Reaches height := by
  obtain ⟨start, stack, hmem, hlength⟩ := h
  refine ⟨start, stack, ?_, hlength⟩
  cases hx : x.outcome with
  | none => rwa [bind_of_none hx]
  | some a =>
    rw [bind_of_some hx]
    exact List.mem_append_left _ hmem

theorem reaches_of_second {x : Watched α} {a : α} {next : α → Watched β} {height : Nat}
    (hx : x.outcome = some a) (h : (next a).Reaches height) : (x >>= next).Reaches height := by
  obtain ⟨start, stack, hmem, hlength⟩ := h
  refine ⟨start, stack, ?_, hlength⟩
  rw [bind_of_some hx]
  exact List.mem_append_right _ hmem

/-- The height of two parts, of which the second one begins an entry higher. -/
theorem reaches_max {x : Watched α} {a : α} {next : α → Watched β} {height first second : Nat}
    (hx : x.outcome = some a) (hfirst : x.Reaches (height + first))
    (hsecond : (next a).Reaches (height + 1 + second)) :
    (x >>= next).Reaches (height + Nat.max first (second + 1)) := by
  rcases Nat.le_total (second + 1) first with hle | hle
  · have hmax : Nat.max first (second + 1) = first := Nat.max_eq_left hle
    rw [hmax]
    exact reaches_of_first hfirst
  · have hmax : Nat.max first (second + 1) = second + 1 := Nat.max_eq_right hle
    have hheight : height + (second + 1) = height + 1 + second := by omega
    rw [hmax, hheight]
    exact reaches_of_second hx hsecond

theorem reaches_report_pure (start : List Float) (x : Float) (stack : List Float) (a : α) :
    (report [.pushed start (x :: stack)] >>= fun _ => pure a).Reaches (stack.length + 1) :=
  ⟨start, x :: stack, List.mem_singleton.mpr rfl, rfl⟩

end Watched

/-- A loop over some indices reaches what its first turn reaches. -/
theorem reaches_accumulateWatched {State : Type} {step : Nat → State → Watched (Float × State)}
    {count first : Nat} {total : Float} {s : State} {height : Nat} (hcount : 0 < count)
    (h : (accumulateWatched step count first total s).Full)
    (hstep : (step first s).Full → (step first s).Reaches height) :
    (accumulateWatched step count first total s).Reaches height := by
  cases count with
  | zero => exact absurd hcount (Nat.lt_irrefl 0)
  | succ count => exact Watched.reaches_of_first (hstep h.parts.1)

/-- **A full run of a tree reaches the height of the tree.** -/
theorem Node.reaches_evalWatched {env : Env} {n : Node} {start stack : List Float}
    {index : IndexTable} (h : (n.evalWatched env start stack index).Full) :
    (n.evalWatched env start stack index).Reaches (stack.length + n.height) := by
  induction n generalizing start stack index with
  | const v => exact Watched.reaches_report_pure start v stack _
  | arg i =>
    obtain ⟨-, x, hx, -⟩ := h.parts
    exact Watched.reaches_of_second hx (Watched.reaches_report_pure start x stack _)
  | unary op a ih => exact Watched.reaches_of_first (ih h.parts.1)
  | binary op a b iha ihb =>
    obtain ⟨ha, r₁, hr₁, h⟩ := h.parts
    exact Watched.reaches_max hr₁ (iha ha) (Watched.reaches_of_first (ihb h.parts.1))
  | select c t o ihc iht iho =>
    obtain ⟨hc, r₁, hr₁, h⟩ := h.parts
    obtain ⟨ht, r₂, hr₂, h⟩ := h.parts
    apply Watched.reaches_max hr₁ (ihc hc)
    exact Watched.reaches_max hr₂ (iht ht) (Watched.reaches_of_first (iho h.parts.1))
  | load k slots =>
    obtain ⟨-, x, hx, -⟩ := h.parts
    exact Watched.reaches_of_second hx (Watched.reaches_report_pure start x stack _)
  | sum slot body ih =>
    obtain ⟨-, saved, hsaved, h⟩ := h.parts
    obtain ⟨-, extent, hextent, h⟩ := h.parts
    obtain ⟨hsumming, u, hu, h⟩ := h.parts
    -- the sum is not empty, and its first turn reaches the height of the body
    have hcount : 0 < extent := by
      apply Nat.pos_of_ne_zero
      rintro rfl
      exact hsumming.sums (List.mem_singleton.mpr rfl)
    apply Watched.reaches_of_second hsaved
    apply Watched.reaches_of_second hextent
    apply Watched.reaches_of_second hu
    apply Watched.reaches_of_first
    exact reaches_accumulateWatched hcount h.parts.1 fun hturn =>
      Watched.reaches_of_first (ih hturn.parts.1)

/-! ## Runs -/

/-- A run of the code of a tree: what the tree does, and the end of the run. -/
theorem Node.runWatched_emit (env : Env) (n : Node) (m : StackMachine) :
    (n.emit .done).runWatched env m =
      n.evalWatched env m.stack m.stack m.index >>= fun r => do
        .report [.popping m.stack (r.1 :: m.stack), .returned m.stack m.stack]
        return (r.1, ⟨r.2, m.stack⟩) := by
  rw [StackCode.runWatched, execWatched_emit, bind_assoc]
  rfl

/-- The code of a safe tree comes to its end, with the value of the tree as its result. -/
theorem Node.run_emit_of_safe {env : Env} {n : Node} {m : StackMachine}
    (hsafe : n.Safe env.Answers env m.index) :
    (n.emit .done).run env m = some (n.denote env m.index, m) := by
  obtain ⟨index, stack⟩ := m
  obtain ⟨r, hexec, hr⟩ :=
    execRecorded_emit (fun _ h => h) hsafe (r := ⟨index, []⟩) ⟨rfl, by simp⟩ .done stack
  -- the notes of the recorded run are of no interest here
  have hforget := (n.emit .done).forget_execRecorded env ⟨⟨index, []⟩, stack⟩
  rw [hexec] at hforget
  have hdone : (n.emit .done).exec env ⟨index, stack⟩ =
      some ⟨r.index, n.denote env index :: stack⟩ := hforget.symm
  rw [StackCode.run, hdone, hr.index_eq]
  rfl

/-- **Emitted code keeps stack discipline.** The static analysis gives the code of a tree a depth. In
a run of the code on any machine, the stack with which the run begins stays where it is: whatever is
popped, also in the bodies of sums, has been pushed in the same run, and every run ends with the
stack with which it has begun. The stack never has more than `depth` entries on top of that one.
This holds up to the end of the run or to its failure. If every argument and slot is there and every
read has an answer, the run does not fail; it gives one number and leaves the machine as it was, and
unless one of the sums in it was empty, the stack has once been `depth` entries higher. -/
theorem emitted_code_keeps_stack_discipline (n : Node) :
    ∃ depth, (n.emit .done).depth = some depth ∧
      ∀ (env : Env) (m : StackMachine), ∃ events,
        (n.emit .done).runWatched env m = ⟨events, (n.emit .done).run env m⟩ ∧
        (∀ e ∈ events, e.Orderly m.stack (m.stack.length + depth)) ∧
        (n.Safe env.Answers env m.index →
          (n.emit .done).run env m = some (n.denote env m.index, m) ∧
          (.summing 0 ∉ events → ∃ start stack,
            .pushed start stack ∈ events ∧ stack.length = m.stack.length + depth)) := by
  refine ⟨n.height, n.depth_emit, fun env m => ?_⟩
  have houtcome := (n.emit .done).outcome_runWatched env m
  refine ⟨((n.emit .done).runWatched env m).events, ?_, ?_, fun hsafe => ?_⟩
  · rw [← houtcome]
  · rw [n.runWatched_emit env m]
    have horderly : (n.evalWatched env m.stack m.stack m.index).All
        (StackEvent.Orderly m.stack (m.stack.length + n.height)) :=
      Node.orderly_evalWatched List.suffix_rfl List.suffix_rfl (Nat.le_refl _) m.index
    exact horderly.bind fun r => Watched.all_report_pure (orderly_return List.suffix_rfl r.1) _
  · have hrun := Node.run_emit_of_safe hsafe
    refine ⟨hrun, fun hsums => ?_⟩
    have hfull : ((n.emit .done).runWatched env m).Full := ⟨⟨_, houtcome.trans hrun⟩, hsums⟩
    have hreaches : ((n.emit .done).runWatched env m).Reaches (m.stack.length + n.height) := by
      rw [n.runWatched_emit env m] at hfull ⊢
      exact Watched.reaches_of_first (Node.reaches_evalWatched hfull.parts.1)
    exact hreaches

/-- A sum inside a sum, on a stack that holds a number already. The stack is highest in the body of
the inner sum, while an operand of the outer one waits below. -/
theorem emitted_code_keeps_stack_discipline_in_nested_sums :
    ∃ code events x,
      code = Node.emit (.sum 0 (.binary .add (.const 1.0)
        (.sum 1 (.binary .mul (.load 0 [0]) (.load 0 [1]))))) .done ∧
      code.depth = some 3 ∧
      code.runWatched ⟨[], [⟨#[1.0, 2.0, 3.0], [1]⟩], [2, 3]⟩ ⟨[7, 8], [5.0]⟩ =
        ⟨events, some (x, ⟨[7, 8], [5.0]⟩)⟩ ∧
      .summing 0 ∉ events ∧ ∃ start stack, .pushed start stack ∈ events ∧ stack.length = 4 := by
  obtain ⟨depth, hdepth, hruns⟩ := emitted_code_keeps_stack_discipline (.sum 0 (.binary .add
    (.const 1.0) (.sum 1 (.binary .mul (.load 0 [0]) (.load 0 [1])))))
  obtain ⟨events, hrun, -, hsafe⟩ :=
    hruns ⟨[], [⟨#[1.0, 2.0, 3.0], [1]⟩], [2, 3]⟩ ⟨[7, 8], [5.0]⟩
  obtain ⟨hresult, hpeak⟩ := hsafe (by decide)
  obtain rfl : depth = 3 := Option.some.inj (hdepth.symm.trans (by decide))
  have hevents : (StackCode.runWatched _ _ _).events = events := congrArg Watched.events hrun
  have hsums : StackEvent.summing 0 ∉ events := by
    intro hmem
    have hall : (events.all fun e => match e with | .summing 0 => false | _ => true) = true := by
      rw [← hevents]
      rfl
    exact absurd (List.all_eq_true.mp hall _ hmem) (by decide)
  rw [hresult] at hrun
  exact ⟨_, events, _, rfl, hdepth, hrun, hsums, hpeak hsums⟩

end ArrayKernels
