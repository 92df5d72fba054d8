/-!
# Evaluation of one element

What a kernel sees when it computes one element of a result, and how it reads an operand. Every
index is checked, so an evaluation that reads outside its data has no value.
-/

namespace ArrayKernels

/-- The current index of every slot. -/
abbrev IndexTable := List Nat

/-- A core block of an input, addressed through strides. -/
structure Operand where
  data : Array Float
  strides : List Nat

/-- What does not change while a kernel computes one element. -/
structure Env where
  /-- The scalar arguments of an elementwise kernel. -/
  args : List Float
  /-- The input blocks of a core kernel. -/
  operands : List Operand
  /-- The extent of every slot. -/
  extents : List Nat

namespace Env

/-- The environment of an elementwise kernel. -/
def ofArgs (args : List Float) : Env := ⟨args, [], []⟩

end Env

/-- The position in a block of the element at the current indices of the slots. Slots without a
stride and strides without a slot do not count. -/
def flatOffset (index : IndexTable) : List Nat → List Nat → Option Nat
  | slot :: slots, stride :: strides => do
    let i ← index[slot]?
    let rest ← flatOffset index slots strides
    return i * stride + rest
  | _, _ => some 0

/-- The element of an operand at the current indices of the slots. -/
def Env.load (env : Env) (index : IndexTable) (operand : Nat) (slots : List Nat) :
    Option Float := do
  let block ← env.operands[operand]?
  let offset ← flatOffset index slots block.strides
  block.data[offset]?

/-- A compiled kernel: its value in an environment, and the index table that it leaves behind. -/
abbrev Kernel := Env → IndexTable → Option (Float × IndexTable)

/-- The value of an elementwise kernel at a row of arguments. -/
def Kernel.onRow (kernel : Kernel) (args : List Float) : Option Float :=
  (kernel (.ofArgs args) []).map (·.1)

/-- Adds `count` numbers to a total, from left to right. The numbers are what `step` gives for
`first`, `first + 1` and so on, each in the state that the one before it left behind. -/
def accumulate {State : Type} (step : Nat → State → Option (Float × State)) :
    (count first : Nat) → (total : Float) → State → Option (Float × State)
  | 0, _, total, state => some (total, state)
  | count + 1, first, total, state => do
    let (x, state) ← step first state
    accumulate step count (first + 1) (total + x) state

end ArrayKernels
