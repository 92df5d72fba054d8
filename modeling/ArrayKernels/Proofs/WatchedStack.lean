import ArrayKernels.Kernel.StackCode

/-!
# Watched runs of stack code

All that is seen of a run of stack code is the stack that it leaves behind. Here the machine runs a
second time and reports what it does to its stack on the way: every push and every pop, each sum
that begins, and the end of every run. A run that fails has reported everything up to that point.

The code as a whole is one run, and each turn of a sum is a run of its own, of the sum's body. A
report says with which stack the run began, so that one can tell what belongs to the run from what
lay there before.

A watched run is the run itself with its events: `StackCode.outcome_runWatched`.

## Layers

- **Events**: what is reported, and computations that report and may fail.
- **Watched code**: the machine, in step with `StackCode.exec` and `StackCode.run`.
- **Outcomes**: without its events, each watched run is the run that it watches.
-/

namespace ArrayKernels

/-! ## Events -/

/-- What a run of stack code does. The run began with the stack `start`. -/
inductive StackEvent where
  /-- A number has been pushed, and this is the stack now. -/
  | pushed (start stack : List Float)
  /-- The top of this stack is about to be popped. -/
  | popping (start stack : List Float)
  /-- A sum over that many indices begins. -/
  | summing (extent : Nat)
  /-- The run is over, its result has been popped, and this stack is left. -/
  | returned (start stack : List Float)

/-- The outcome of something that may fail, and what it has reported until then. -/
structure Watched (α : Type) where
  events : List StackEvent
  outcome : Option α

namespace Watched

variable {α β : Type}

/-- Reports events and does nothing else. -/
def report (events : List StackEvent) : Watched Unit := ⟨events, some ()⟩

/-- What may be missing, without a report. -/
def ofOption (x : Option α) : Watched α := ⟨[], x⟩

/-- Goes on with the outcome of a first part, if it has one, and reports the events of both. -/
def andThen (x : Watched α) (next : α → Watched β) : Watched β :=
  match x.outcome with
  | none => ⟨x.events, none⟩
  | some a => ⟨x.events ++ (next a).events, (next a).outcome⟩

instance : Monad Watched where
  pure a := ⟨[], some a⟩
  bind := andThen

theorem bind_of_none {x : Watched α} (h : x.outcome = none) (next : α → Watched β) :
    x >>= next = ⟨x.events, none⟩ := by
  show x.andThen next = _
  rw [andThen, h]

theorem bind_of_some {x : Watched α} {a : α} (h : x.outcome = some a) (next : α → Watched β) :
    x >>= next = ⟨x.events ++ (next a).events, (next a).outcome⟩ := by
  show x.andThen next = _
  rw [andThen, h]

theorem id_map (x : Watched α) : id <$> x = x := by
  obtain ⟨events, _ | a⟩ := x
  · rfl
  · exact congrArg (Watched.mk · (some a)) (List.append_nil events)

theorem andThen_assoc {γ : Type} (x : Watched α) (f : α → Watched β) (g : β → Watched γ) :
    x >>= f >>= g = x >>= fun a => f a >>= g := by
  cases hx : x.outcome with
  | none => rw [bind_of_none hx, bind_of_none hx, bind_of_none rfl]
  | some a =>
    rw [bind_of_some hx, bind_of_some hx]
    cases hf : (f a).outcome with
    | none => rw [bind_of_none rfl, bind_of_none hf]
    | some b => rw [bind_of_some rfl, bind_of_some hf, List.append_assoc]

instance : LawfulMonad Watched := .mk' _ id_map (fun _ _ => rfl) andThen_assoc

@[simp]
theorem outcome_pure (a : α) : (pure a : Watched α).outcome = some a := rfl

@[simp]
theorem outcome_report (events : List StackEvent) : (report events).outcome = some () := rfl

@[simp]
theorem outcome_ofOption (x : Option α) : (ofOption x).outcome = x := rfl

@[simp]
theorem outcome_bind (x : Watched α) (next : α → Watched β) :
    (x >>= next).outcome = x.outcome.bind fun a => (next a).outcome := by
  cases h : x.outcome with
  | none => rw [bind_of_none h, Option.bind_none]
  | some a => rw [bind_of_some h, Option.bind_some]

end Watched

/-! ## Watched code -/

namespace StackMachine

/-- Puts a number on top. -/
def pushWatched (m : StackMachine) (start : List Float) (x : Float) : Watched StackMachine := do
  .report [.pushed start (m.push x).stack]
  return m.push x

/-- Takes the top off. -/
def popWatched (m : StackMachine) (start : List Float) : Watched (Float × StackMachine) := do
  .report [.popping start m.stack]
  return m.pop

/-- Takes the result of a run off and ends the run. -/
def returnWatched (m : StackMachine) (start : List Float) : Watched (Float × StackMachine) := do
  let (x, m) ← m.popWatched start
  .report [.returned start m.stack]
  return (x, m)

end StackMachine

/-- Adds `count` numbers to a total as `accumulate` does, with steps that report. -/
def accumulateWatched {State : Type} (step : Nat → State → Watched (Float × State)) :
    (count first : Nat) → (total : Float) → State → Watched (Float × State)
  | 0, _, total, state => pure (total, state)
  | count + 1, first, total, state => do
    let (x, state) ← step first state
    accumulateWatched step count (first + 1) (total + x) state

namespace StackCode

/-- Runs code to its end, in a run that began with the stack `start`. -/
def execWatched (env : Env) : StackCode → (start : List Float) → StackMachine → Watched StackMachine
  | done, _, m => pure m
  | push v next, start, m => do
    let m ← m.pushWatched start v
    next.execWatched env start m
  | arg i next, start, m => do
    let x ← .ofOption env.args[i]?
    let m ← m.pushWatched start x
    next.execWatched env start m
  | load k slots next, start, m => do
    let x ← .ofOption (env.load m.index k slots)
    let m ← m.pushWatched start x
    next.execWatched env start m
  | unary op next, start, m => do
    let (x, m) ← m.popWatched start
    let m ← m.pushWatched start (op.apply x)
    next.execWatched env start m
  | binary op next, start, m => do
    let (y, m) ← m.popWatched start
    let (x, m) ← m.popWatched start
    let m ← m.pushWatched start (op.apply x y)
    next.execWatched env start m
  | select next, start, m => do
    let (otherwise, m) ← m.popWatched start
    let (chosen, m) ← m.popWatched start
    let (cond, m) ← m.popWatched start
    let m ← m.pushWatched start (if cond != 0.0 then chosen else otherwise)
    next.execWatched env start m
  | sum slot body next, start, m => do
    let saved ← .ofOption m.index[slot]?
    let extent ← .ofOption env.extents[slot]?
    .report [.summing extent]
    let turn (i : Nat) (m : StackMachine) : Watched (Float × StackMachine) := do
      let last ← body.execWatched env m.stack (m.enter slot i)
      last.returnWatched m.stack
    let (total, m) ← accumulateWatched turn extent 0 0.0 m
    let m ← (m.enter slot saved).pushWatched start total
    next.execWatched env start m

/-- Runs code to its end and takes the result off the stack. -/
def runWatched (env : Env) (code : StackCode) (m : StackMachine) :
    Watched (Float × StackMachine) := do
  let last ← code.execWatched env m.stack m
  last.returnWatched m.stack

end StackCode

/-! ## Outcomes -/

@[simp]
theorem StackMachine.outcome_pushWatched (m : StackMachine) (start : List Float) (x : Float) :
    (m.pushWatched start x).outcome = some (m.push x) := rfl

@[simp]
theorem StackMachine.outcome_popWatched (m : StackMachine) (start : List Float) :
    (m.popWatched start).outcome = some m.pop := rfl

@[simp]
theorem StackMachine.outcome_returnWatched (m : StackMachine) (start : List Float) :
    (m.returnWatched start).outcome = some m.pop := rfl

theorem outcome_accumulateWatched {State : Type} {step : Nat → State → Watched (Float × State)}
    {step' : Nat → State → Option (Float × State)} (hstep : ∀ i s, (step i s).outcome = step' i s)
    (count first : Nat) (total : Float) (s : State) :
    (accumulateWatched step count first total s).outcome = accumulate step' count first total s := by
  induction count generalizing first total s with
  | zero => rfl
  | succ count ih =>
    simp only [accumulateWatched, accumulate, Watched.outcome_bind, hstep, ih]
    rfl

/-- Without its events, a watched execution is the execution itself. -/
theorem StackCode.outcome_execWatched (env : Env) (code : StackCode) (start : List Float)
    (m : StackMachine) : (code.execWatched env start m).outcome = code.exec env m := by
  induction code generalizing start m with
  | done => rfl
  | push v next ih => exact ih start (m.push v)
  | arg i next ih =>
    simp only [execWatched, exec, Watched.outcome_bind, Watched.outcome_ofOption, ih]
    rfl
  | load k slots next ih =>
    simp only [execWatched, exec, Watched.outcome_bind, Watched.outcome_ofOption, ih]
    rfl
  | unary op next ih => exact ih start _
  | binary op next ih => exact ih start _
  | select next ih => exact ih start _
  | sum slot body next ihb ihn =>
    -- a turn of the loop is a run of the body, from the stack that it finds
    have hturn : ∀ (i : Nat) (m : StackMachine),
        (body.execWatched env m.stack (m.enter slot i) >>= fun last =>
          last.returnWatched m.stack).outcome = (body.exec env (m.enter slot i)).map (·.pop) := by
      intro i m
      rw [Watched.outcome_bind, ihb, Option.map_eq_bind]
      rfl
    simp only [execWatched, exec, Watched.outcome_bind, Watched.outcome_ofOption,
      Watched.outcome_report, outcome_accumulateWatched hturn, ihn]
    rfl

/-- **Without its events, a watched run is the run itself.** -/
theorem StackCode.outcome_runWatched (env : Env) (code : StackCode) (m : StackMachine) :
    (code.runWatched env m).outcome = code.run env m := by
  rw [runWatched, Watched.outcome_bind, outcome_execWatched, run, Option.map_eq_bind]
  rfl

end ArrayKernels
