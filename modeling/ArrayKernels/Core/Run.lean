import ArrayKernels.Core.Binding
import ArrayKernels.Kernel.Env

/-!
# Running a bound call

The loop over core blocks. In each iteration the kernel computes every element of the output's core
block; before each element the output slots are set to its multi-index. One index table serves the
whole run, so the kernel may find in it what earlier elements have left in other slots.
-/

namespace ArrayKernels

/-- Sets slots to the multi-index of a flat position, innermost slot last in the list and first
decoded. The result comes with what is left of the position. A slot without extent, or of extent
zero, has no index. -/
def decodePosition (extents : List Nat) :
    List Nat → (position : Nat) → IndexTable → Option (Nat × IndexTable)
  | [], position, index => some (position, index)
  | slot :: slots, position, index => do
    let (rest, index) ← decodePosition extents slots position index
    let extent ← extents[slot]?
    if extent = 0 then none
    else return (rest / extent, index.set slot (rest % extent))

/-- Computes `count` elements of the output's core block, from position `first` on. -/
def runElements (kernel : Kernel) (outputSlots : List Nat) (env : Env) :
    (count first : Nat) → IndexTable → Option (List Float × IndexTable)
  | 0, _, index => some ([], index)
  | count + 1, first, index => do
    let (_, index) ← decodePosition env.extents outputSlots first index
    let (x, index) ← kernel env index
    let (xs, index) ← runElements kernel outputSlots env count (first + 1) index
    return (x :: xs, index)

/-- The operands of an iteration: the core blocks of the inputs. -/
def BoundCall.operands? (call : BoundCall) (inputs : List NdArray) (iteration : Nat) :
    Option (List Operand) :=
  (call.layouts.zip inputs).mapM fun (layout, input) => do
    let block ← layout.block? input.data iteration
    return ⟨block, layout.strides⟩

/-- Computes `count` core blocks of the output, from iteration `first` on. -/
def runIterations (kernel : Kernel) (outputSlots : List Nat) (call : BoundCall)
    (inputs : List NdArray) :
    (count first : Nat) → IndexTable → Option (List (List Float) × IndexTable)
  | 0, _, index => some ([], index)
  | count + 1, first, index => do
    let operands ← call.operands? inputs first
    let (block, index) ←
      runElements kernel outputSlots ⟨[], operands, call.extents⟩ call.outputCoreSize 0 index
    let (blocks, index) ← runIterations kernel outputSlots call inputs count (first + 1) index
    return (block :: blocks, index)

/-- The elements of the output, core block after core block. An output without elements is computed
without looking at the inputs. -/
def BoundCall.run (call : BoundCall) (kernel : Kernel) (outputSlots : List Nat)
    (inputs : List NdArray) : Option (Array Float) :=
  if call.outputCoreSize = 0 then some #[]
  else do
    let (blocks, _) ← runIterations kernel outputSlots call inputs call.loopCount 0
      (List.replicate call.extents.length 0)
    return blocks.flatten.toArray

end ArrayKernels
