import ArrayKernels.Kernel.Env
import ArrayKernels.Kernel.Program

/-!
# Stack code

A kernel as a program for a stack machine. Operands are pushed in the order of evaluation; an
operator pops its operands and pushes its result. A choice is made between two values that have both
been computed, since kernels have no effects. A sum carries its body as a program of its own, which
runs on the same stack.
-/

namespace ArrayKernels

/-- A program for the stack machine: instructions, each with what follows it. -/
inductive StackCode where
  /-- Nothing more to do. -/
  | done
  /-- Pushes a number. -/
  | push (value : Float) (next : StackCode)
  /-- Pushes the argument at a position. -/
  | arg (position : Nat) (next : StackCode)
  /-- Pushes the element of an operand at the current indices of the slots. -/
  | load (operand : Nat) (slots : List Nat) (next : StackCode)
  /-- Replaces the top of the stack. -/
  | unary (op : UnaryOp) (next : StackCode)
  /-- Replaces the two topmost numbers, of which the right operand is on top. -/
  | binary (op : BinaryOp) (next : StackCode)
  /-- Pops the third operand of a choice, the second and the first, and pushes the chosen one. -/
  | select (next : StackCode)
  /-- Pushes the sum of the body's results over all indices of a slot. -/
  | sum (slot : Nat) (body next : StackCode)

/-! ## From trees -/

/-- The code of a tree, followed by `next`. -/
def Node.emit : Node → StackCode → StackCode
  | const v, next => .push v next
  | arg i, next => .arg i next
  | unary op a, next => a.emit (.unary op next)
  | binary op a b, next => a.emit (b.emit (.binary op next))
  | select c t o, next => c.emit (t.emit (o.emit (.select next)))
  | load k slots, next => .load k slots next
  | sum slot body, next => .sum slot (body.emit .done) next

/-! ## The machine -/

/-- The state of the machine: the index table, and the stack with its top first. -/
structure StackMachine where
  index : IndexTable
  stack : List Float

namespace StackMachine

/-- Puts a number on top. -/
def push (m : StackMachine) (x : Float) : StackMachine := { m with stack := x :: m.stack }

/-- Takes the top off. An empty stack gives a value that is not a number. -/
def pop (m : StackMachine) : Float × StackMachine :=
  match m.stack with
  | [] => (0.0 / 0.0, m)
  | x :: stack => (x, { m with stack })

/-- Sets the current index of a slot. -/
def enter (m : StackMachine) (slot i : Nat) : StackMachine := { m with index := m.index.set slot i }

end StackMachine

namespace StackCode

/-- Runs code to its end. -/
def exec (env : Env) : StackCode → StackMachine → Option StackMachine
  | done, m => some m
  | push v next, m => next.exec env (m.push v)
  | arg i next, m => do
    let x ← env.args[i]?
    next.exec env (m.push x)
  | load k slots next, m => do
    let x ← env.load m.index k slots
    next.exec env (m.push x)
  | unary op next, m =>
    let (x, m) := m.pop
    next.exec env (m.push (op.apply x))
  | binary op next, m =>
    let (y, m) := m.pop
    let (x, m) := m.pop
    next.exec env (m.push (op.apply x y))
  | select next, m =>
    let (otherwise, m) := m.pop
    let (chosen, m) := m.pop
    let (cond, m) := m.pop
    next.exec env (m.push (if cond != 0.0 then chosen else otherwise))
  | sum slot body next, m => do
    let saved ← m.index[slot]?
    let extent ← env.extents[slot]?
    let (total, m) ←
      accumulate (fun i m => (body.exec env (m.enter slot i)).map (·.pop)) extent 0 0.0 m
    next.exec env ((m.enter slot saved).push total)

/-- Runs code to its end and takes the result off the stack. -/
def run (env : Env) (code : StackCode) (m : StackMachine) : Option (Float × StackMachine) :=
  (code.exec env m).map (·.pop)

/-- The kernel that runs code on an empty stack. -/
def toKernel (code : StackCode) : Kernel := fun env index =>
  (code.run env ⟨index, []⟩).map fun (x, m) => (x, m.index)

/-! ## Stack height -/

/-- The greatest height that the stack reaches when the code starts at `height`, the bodies of sums
included, or `none` if the code would pop below its own entries. `peak` is the greatest height so
far. -/
def peakFrom : StackCode → (height peak : Nat) → Option Nat
  | done, _, peak => some peak
  | push _ next, height, peak => next.peakFrom (height + 1) (Nat.max peak (height + 1))
  | arg _ next, height, peak => next.peakFrom (height + 1) (Nat.max peak (height + 1))
  | load _ _ next, height, peak => next.peakFrom (height + 1) (Nat.max peak (height + 1))
  | unary _ next, height, peak => next.peakFrom height (Nat.max peak height)
  | binary _ next, height, peak =>
    if height < 1 then none else next.peakFrom (height - 1) (Nat.max peak (height - 1))
  | select next, height, peak =>
    if height < 2 then none else next.peakFrom (height - 2) (Nat.max peak (height - 2))
  | sum _ body next, height, peak => do
    let inner ← body.peakFrom 0 0
    next.peakFrom (height + 1) (Nat.max (Nat.max peak (height + inner)) (height + 1))

/-- The greatest height that the code adds to the stack. -/
def depth (code : StackCode) : Option Nat := code.peakFrom 0 0

end StackCode

/-- The stack code of a kernel. -/
def Program.stackCode (p : Program) : StackCode := p.root.emit .done

end ArrayKernels
