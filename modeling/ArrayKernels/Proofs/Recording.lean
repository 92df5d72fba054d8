import ArrayKernels.Kernel.Compile

/-!
# Recorded runs

The kernels of the three strategies say nothing about the reads that they make on the way. Here each
of them is run a second time with a recorder in place of the index table: the recorder holds the
index table and notes every read together with the indices that all slots have at that moment.

A recorded run is the run itself with notes taken: `Strategy.forget_compileRecorded`. So what is
proved of the notes holds of the reads that the kernel makes.

## Layers

- **Recorder**: the index table with its notes.
- **Recorded evaluation** of trees, closures and stack code, one definition for each strategy, in
  step with `Node.eval`, the building blocks of `Kernel` and `StackCode.exec`.
- **Forgetting**: without the notes, each of them is the run that it records.
-/

namespace ArrayKernels

/-! ## The recorder -/

/-- A read that a kernel makes: what it reads, and the index table at that moment. -/
structure Read where
  operand : Nat
  slots : List Nat
  index : IndexTable

/-- The index table, and the reads made so far. -/
structure Recorder where
  index : IndexTable
  reads : List Read

namespace Recorder

def enter (r : Recorder) (slot i : Nat) : Recorder := { r with index := r.index.set slot i }

/-- Notes a read. -/
def note (r : Recorder) (operand : Nat) (slots : List Nat) : Recorder :=
  { r with reads := r.reads ++ [⟨operand, slots, r.index⟩] }

end Recorder

/-- A kernel that takes notes. -/
abbrev RecordedKernel := Env → Recorder → Option (Float × Recorder)

/-- The outcome of a recorded run without the notes. -/
def forget : Option (Float × Recorder) → Option (Float × IndexTable) :=
  Option.map fun (x, r) => (x, r.index)

/-! ## Trees -/

/-- The value of a tree, and the recorder that the evaluation leaves behind. -/
def Node.evalRecorded (env : Env) : Node → Recorder → Option (Float × Recorder)
  | const v, r => some (v, r)
  | arg i, r => (env.args[i]?).map (·, r)
  | unary op a, r => do
    let (x, r) ← a.evalRecorded env r
    return (op.apply x, r)
  | binary op a b, r => do
    let (x, r) ← a.evalRecorded env r
    let (y, r) ← b.evalRecorded env r
    return (op.apply x y, r)
  | select c t o, r => do
    let (x, r) ← c.evalRecorded env r
    if x != 0.0 then t.evalRecorded env r else o.evalRecorded env r
  | load k slots, r => (env.load r.index k slots).map (·, r.note k slots)
  | sum slot body, r => do
    let saved ← r.index[slot]?
    let extent ← env.extents[slot]?
    let (total, r) ←
      accumulate (fun i r => body.evalRecorded env (r.enter slot i)) extent 0 0.0 r
    return (total, r.enter slot saved)

/-! ## Closures -/

namespace RecordedKernel

def constant (value : Float) : RecordedKernel := fun _ r => some (value, r)

def argument (position : Nat) : RecordedKernel := fun env r => (env.args[position]?).map (·, r)

def element (operand : Nat) (slots : List Nat) : RecordedKernel := fun env r =>
  (env.load r.index operand slots).map (·, r.note operand slots)

def apply₁ (f : Float → Float) (kernel : RecordedKernel) : RecordedKernel := fun env r => do
  let (x, r) ← kernel env r
  return (f x, r)

def apply₂ (f : Float → Float → Float) (first second : RecordedKernel) : RecordedKernel :=
  fun env r => do
    let (x, r) ← first env r
    let (y, r) ← second env r
    return (f x y, r)

def choose (cond chosen otherwise : RecordedKernel) : RecordedKernel := fun env r => do
  let (x, r) ← cond env r
  if x != 0.0 then chosen env r else otherwise env r

def sumOver (slot : Nat) (body : RecordedKernel) : RecordedKernel := fun env r => do
  let saved ← r.index[slot]?
  let extent ← env.extents[slot]?
  let (total, r) ← accumulate (fun i r => body env (r.enter slot i)) extent 0 0.0 r
  return (total, r.enter slot saved)

end RecordedKernel

/-- The closure of a tree, taking notes. -/
def Node.toRecordedKernel : Node → RecordedKernel
  | const v => .constant v
  | arg i => .argument i
  | unary op a => .apply₁ op.apply a.toRecordedKernel
  | binary op a b => .apply₂ op.apply a.toRecordedKernel b.toRecordedKernel
  | select c t o => .choose c.toRecordedKernel t.toRecordedKernel o.toRecordedKernel
  | load k slots => .element k slots
  | sum slot body => .sumOver slot body.toRecordedKernel

/-! ## Stack code -/

/-- The stack machine with a recorder in place of its index table. -/
structure RecordingMachine where
  recorder : Recorder
  stack : List Float

namespace RecordingMachine

def push (m : RecordingMachine) (x : Float) : RecordingMachine := { m with stack := x :: m.stack }

def pop (m : RecordingMachine) : Float × RecordingMachine :=
  match m.stack with
  | [] => (0.0 / 0.0, m)
  | x :: stack => (x, { m with stack })

/-- Sets the current index of a slot. -/
def enter (m : RecordingMachine) (slot i : Nat) : RecordingMachine :=
  { m with recorder := m.recorder.enter slot i }

/-- Notes a read. -/
def note (m : RecordingMachine) (operand : Nat) (slots : List Nat) : RecordingMachine :=
  { m with recorder := m.recorder.note operand slots }

/-- The machine without its notes. -/
def forget (m : RecordingMachine) : StackMachine := ⟨m.recorder.index, m.stack⟩

end RecordingMachine

namespace StackCode

/-- Runs code to its end, taking notes. -/
def execRecorded (env : Env) : StackCode → RecordingMachine → Option RecordingMachine
  | done, m => some m
  | push v next, m => next.execRecorded env (m.push v)
  | arg i next, m => do
    let x ← env.args[i]?
    next.execRecorded env (m.push x)
  | load k slots next, m => do
    let x ← env.load m.recorder.index k slots
    next.execRecorded env ((m.note k slots).push x)
  | unary op next, m =>
    let (x, m) := m.pop
    next.execRecorded env (m.push (op.apply x))
  | binary op next, m =>
    let (y, m) := m.pop
    let (x, m) := m.pop
    next.execRecorded env (m.push (op.apply x y))
  | select next, m =>
    let (otherwise, m) := m.pop
    let (chosen, m) := m.pop
    let (cond, m) := m.pop
    next.execRecorded env (m.push (if cond != 0.0 then chosen else otherwise))
  | sum slot body next, m => do
    let saved ← m.recorder.index[slot]?
    let extent ← env.extents[slot]?
    let (total, m) ←
      accumulate (fun i m => (body.execRecorded env (m.enter slot i)).map (·.pop)) extent 0 0.0 m
    next.execRecorded env ((m.enter slot saved).push total)

/-- The recorded kernel that runs code on an empty stack. -/
def toRecordedKernel (code : StackCode) : RecordedKernel := fun env r =>
  ((code.execRecorded env ⟨r, []⟩).map (·.pop)).map fun (x, m) => (x, m.recorder)

end StackCode

/-- The kernel of a program under a strategy, taking notes. -/
def Strategy.compileRecorded : Strategy → Program → RecordedKernel
  | stackCode, p => p.stackCode.toRecordedKernel
  | closure, p => p.root.toRecordedKernel
  | treeWalk, p => fun env r => p.root.evalRecorded env r

/-! ## Forgetting the notes -/

/-- Adding up commutes with a map of the states that the steps commute with. -/
private theorem accumulate_map {State State' : Type} (h : State → State')
    (step : Nat → State → Option (Float × State)) (step' : Nat → State' → Option (Float × State'))
    (hstep : ∀ i s, (step i s).map (fun (x, s) => (x, h s)) = step' i (h s))
    (count first : Nat) (total : Float) (s : State) :
    (accumulate step count first total s).map (fun (x, s) => (x, h s)) =
      accumulate step' count first total (h s) := by
  -- the loops go on side by side as long as neither of them has failed
  induction count generalizing first total s with
  | zero => rfl
  | succ count ih =>
    simp only [accumulate, ← hstep]
    cases step first s with
    | none => rfl
    | some result => exact ih (first + 1) (total + result.1) result.2

/-- A recorded evaluation is the evaluation itself. -/
theorem Node.forget_evalRecorded (env : Env) (n : Node) (r : Recorder) :
    forget (n.evalRecorded env r) = n.eval env r.index := by
  induction n generalizing r with
  | const v => rfl
  | arg i => simp only [evalRecorded, eval, forget, Option.map_map, Function.comp_def]
  | unary op a ih =>
    simp only [evalRecorded, eval, ← ih]
    cases a.evalRecorded env r <;> rfl
  | binary op a b iha ihb =>
    simp only [evalRecorded, eval, ← iha]
    cases a.evalRecorded env r with
    | none => rfl
    | some x =>
      simp only [forget, Option.map_some, Option.bind_eq_bind, Option.bind_some, ← ihb]
      cases b.evalRecorded env x.2 <;> rfl
  | select c t o ihc iht iho =>
    simp only [evalRecorded, eval, ← ihc]
    cases c.evalRecorded env r with
    | none => rfl
    | some x =>
      -- the condition has one value, so both evaluations choose the same arm
      simp only [forget, Option.map_some, Option.bind_eq_bind, Option.bind_some, ← iht, ← iho]
      split <;> rfl
  | load k slots =>
    simp only [evalRecorded, eval, forget, Option.map_map, Function.comp_def, Recorder.note]
  | sum slot body ih =>
    -- forgetting commutes with the whole loop, since it does with the body
    have hsteps := accumulate_map Recorder.index
      (fun i r => body.evalRecorded env (r.enter slot i))
      (fun i index => body.eval env (index.set slot i)) fun i r => ih (r.enter slot i)
    simp only [evalRecorded, eval]
    cases r.index[slot]? with
    | none => rfl
    | some saved =>
      cases env.extents[slot]? with
      | none => rfl
      | some extent =>
        simp only [Option.bind_eq_bind, Option.bind_some, ← hsteps]
        cases accumulate (fun i r => body.evalRecorded env (r.enter slot i)) extent 0 0.0 r <;> rfl

theorem Node.toRecordedKernel_eq (n : Node) (env : Env) (r : Recorder) :
    n.toRecordedKernel env r = n.evalRecorded env r := by
  induction n generalizing r with
  | const v => rfl
  | arg i => rfl
  | unary op a ih => simp only [toRecordedKernel, RecordedKernel.apply₁, evalRecorded, ih]
  | binary op a b iha ihb =>
    simp only [toRecordedKernel, RecordedKernel.apply₂, evalRecorded, iha, ihb]
  | select c t o ihc iht iho =>
    simp only [toRecordedKernel, RecordedKernel.choose, evalRecorded, ihc, iht, iho]
  | load k slots => rfl
  | sum slot body ih => simp only [toRecordedKernel, RecordedKernel.sumOver, evalRecorded, ih]

theorem Node.toKernel_eq (n : Node) (env : Env) (index : IndexTable) :
    n.toKernel env index = n.eval env index := by
  induction n generalizing index with
  | const v => rfl
  | arg i => rfl
  | unary op a ih => simp only [toKernel, Kernel.apply₁, eval, ih]
  | binary op a b iha ihb => simp only [toKernel, Kernel.apply₂, eval, iha, ihb]
  | select c t o ihc iht iho => simp only [toKernel, Kernel.choose, eval, ihc, iht, iho]
  | load k slots => rfl
  | sum slot body ih => simp only [toKernel, Kernel.sumOver, eval, ih]

private theorem RecordingMachine.forget_pop (m : RecordingMachine) :
    m.forget.pop = (m.pop.1, m.pop.2.forget) := by
  obtain ⟨r, stack⟩ := m
  cases stack <;> rfl

/-- A recorded run of stack code is the run itself. -/
theorem StackCode.forget_execRecorded (env : Env) (code : StackCode) (m : RecordingMachine) :
    (code.execRecorded env m).map RecordingMachine.forget = code.exec env m.forget := by
  induction code generalizing m with
  | done => rfl
  | push v next ih => exact ih (m.push v)
  | arg i next ih =>
    simp only [execRecorded, exec]
    cases env.args[i]? with
    | none => rfl
    | some x => exact ih (m.push x)
  | load k slots next ih =>
    simp only [execRecorded, exec]
    show _ = (env.load m.recorder.index k slots).bind _
    cases env.load m.recorder.index k slots with
    | none => rfl
    | some x => exact ih ((m.note k slots).push x)
  | unary op next ih =>
    simp only [execRecorded, exec, RecordingMachine.forget_pop]
    exact ih _
  | binary op next ih =>
    simp only [execRecorded, exec, RecordingMachine.forget_pop]
    exact ih _
  | select next ih =>
    simp only [execRecorded, exec, RecordingMachine.forget_pop]
    exact ih _
  | sum slot body next ihb ihn =>
    -- the body runs to its end in every step of the loop, and the top is taken off after it
    have hsteps := accumulate_map RecordingMachine.forget
      (fun i m => (body.execRecorded env (m.enter slot i)).map (·.pop))
      (fun i m => (body.exec env (m.enter slot i)).map (·.pop)) fun i m => by
        show _ = (body.exec env (m.enter slot i).forget).map (·.pop)
        rw [← ihb, Option.map_map, Option.map_map]
        simp only [Function.comp_def, RecordingMachine.forget_pop]
    simp only [execRecorded, exec]
    show _ = (m.recorder.index[slot]?).bind _
    cases m.recorder.index[slot]? with
    | none => rfl
    | some saved =>
      cases env.extents[slot]? with
      | none => rfl
      | some extent =>
        simp only [Option.bind_eq_bind, Option.bind_some, ← hsteps]
        cases accumulate (fun i m => (body.execRecorded env (m.enter slot i)).map (·.pop))
            extent 0 0.0 m with
        | none => rfl
        | some result => exact ihn ((result.2.enter slot saved).push result.1)

/-- **A recorded run of a kernel is the run itself**: under every strategy, what the recorded kernel
gives is what the kernel gives, with notes of the reads. -/
theorem Strategy.forget_compileRecorded (strategy : Strategy) (p : Program) (env : Env)
    (r : Recorder) :
    forget (strategy.compileRecorded p env r) = strategy.compile p env r.index := by
  cases strategy with
  | stackCode =>
    -- the run starts on an empty stack with or without notes
    have hexec := p.stackCode.forget_execRecorded env ⟨r, []⟩
    show forget (p.stackCode.toRecordedKernel env r) = p.stackCode.toKernel env r.index
    simp only [StackCode.toRecordedKernel, StackCode.toKernel, StackCode.run]
    rw [show (⟨r.index, []⟩ : StackMachine) = (⟨r, []⟩ : RecordingMachine).forget from rfl, ← hexec]
    cases p.stackCode.execRecorded env ⟨r, []⟩ with
    | none => rfl
    | some m =>
      simp only [Option.map_some, RecordingMachine.forget_pop]
      rfl
  | closure =>
    show forget (p.root.toRecordedKernel env r) = p.root.toKernel env r.index
    rw [Node.toRecordedKernel_eq, Node.toKernel_eq, Node.forget_evalRecorded]
  | treeWalk => exact Node.forget_evalRecorded env p.root r

end ArrayKernels
