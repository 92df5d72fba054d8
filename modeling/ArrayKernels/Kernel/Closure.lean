import ArrayKernels.Kernel.Env
import ArrayKernels.Kernel.Program

/-!
# Kernels as closures

A tree is turned once into a function built from small kernels. Running it looks at no node again:
operators, slots and numbers have already been captured.
-/

namespace ArrayKernels

namespace Kernel

/-! ## Building blocks -/

/-- Always the same number. -/
def constant (value : Float) : Kernel := fun _ index => some (value, index)

/-- The argument at a position. -/
def argument (position : Nat) : Kernel := fun env index => (env.args[position]?).map (·, index)

/-- The element of an operand at the current indices of the slots. -/
def element (operand : Nat) (slots : List Nat) : Kernel := fun env index =>
  (env.load index operand slots).map (·, index)

/-- A function of one kernel's value. -/
def apply₁ (f : Float → Float) (kernel : Kernel) : Kernel := fun env index => do
  let (x, index) ← kernel env index
  return (f x, index)

/-- A function of two kernels' values, the first one computed first. -/
def apply₂ (f : Float → Float → Float) (first second : Kernel) : Kernel := fun env index => do
  let (x, index) ← first env index
  let (y, index) ← second env index
  return (f x y, index)

/-- One of two kernels, chosen by the value of a third. The other one is not run. -/
def choose (cond chosen otherwise : Kernel) : Kernel := fun env index => do
  let (x, index) ← cond env index
  if x != 0.0 then chosen env index else otherwise env index

/-- The sum of a kernel's values over all indices of a slot. -/
def sumOver (slot : Nat) (body : Kernel) : Kernel := fun env index => do
  let saved ← index[slot]?
  let extent ← env.extents[slot]?
  let (total, index) ← accumulate (fun i index => body env (index.set slot i)) extent 0 0.0 index
  return (total, index.set slot saved)

end Kernel

/-! ## From trees -/

/-- The closure of a tree. -/
def Node.toKernel : Node → Kernel
  | const v => .constant v
  | arg i => .argument i
  | unary op a => .apply₁ op.apply a.toKernel
  | binary op a b => .apply₂ op.apply a.toKernel b.toKernel
  | select c t o => .choose c.toKernel t.toKernel o.toKernel
  | load k slots => .element k slots
  | sum slot body => .sumOver slot body.toKernel

end ArrayKernels
