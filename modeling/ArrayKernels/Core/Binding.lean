import ArrayKernels.Kernel.Program
import ArrayKernels.NdArray

/-!
# Binding arrays to a core kernel

A call of a core function splits the shape of every input into loop dimensions and core dimensions.
The core dimensions are the last ones, as many as the signature declares. Binding gives every slot
its extent, checks that all inputs agree on the extents and on the loop shape, that every read of
the kernel stays inside its operand, and that the output can be counted.

An input without loop dimensions is used as a whole in every iteration of the loop.
-/

namespace ArrayKernels

/-! ## What binding gives -/

/-- How the core blocks of an input lie in its data. -/
structure CoreLayout where
  /-- The number of elements of a core block. -/
  size : Nat
  /-- The whole input is the block of every iteration. -/
  shared : Bool
  /-- The strides of the core dimensions. -/
  strides : List Nat
deriving DecidableEq

/-- A call whose arrays have been bound. -/
structure BoundCall where
  /-- The extent of every slot. -/
  extents : List Nat
  /-- The number of iterations of the loop over core blocks. -/
  loopCount : Nat
  /-- The number of elements of a block of the output. -/
  outputCoreSize : Nat
  /-- The layout of every input. -/
  layouts : List CoreLayout
deriving DecidableEq

/-- The number of elements of the output. -/
def BoundCall.outputCount (call : BoundCall) : Nat := call.loopCount * call.outputCoreSize

/-- The number of bytes that the output takes, eight for each element. -/
def BoundCall.outputBytes (call : BoundCall) : Nat := 8 * call.outputCount

/-- The core block of an input in an iteration, if it lies inside the data. -/
def CoreLayout.block? (layout : CoreLayout) (data : Array Float) (iteration : Nat) :
    Option (Array Float) :=
  let start := if layout.shared then 0 else iteration * layout.size
  if start + layout.size ≤ data.size then some (data.extract start (start + layout.size)) else none

/-! ## Extents and loop shape -/

/-- What is known after some of the inputs. -/
structure Known where
  /-- The extents of the slots that have occurred. -/
  extents : List (Option Nat)
  /-- The loop shape of the first input that has loop dimensions. -/
  loopShape : Option Shape
  /-- The layouts of the inputs. -/
  layouts : List CoreLayout

/-- Gives slots their extents, from left to right. A slot that has another extent already is an
error. -/
def bindAxes (dims : List String) :
    List Nat → Shape → List (Option Nat) → Except CallError (List (Option Nat))
  | slot :: slots, extent :: shape, extents =>
    match extents[slot]?.join with
    | none => bindAxes dims slots shape (extents.set slot (some extent))
    | some first =>
      if first = extent then bindAxes dims slots shape extents
      else .error (.dimensionMismatch (dims.getD slot "") first extent)
  | _, _, extents => .ok extents

/-- Takes the loop shape of an input into account. -/
def bindLoops (index : Nat) (loops : Shape) (known : Option Shape) :
    Except CallError (Option Shape) :=
  if loops.isEmpty then .ok known
  else
    match known with
    | none => .ok (some loops)
    | some expected =>
      if expected = loops then .ok known else .error (.loopShapeMismatch index expected loops)

/-- Takes the input at position `index` into account, which has those core slots. -/
def bindInput (dims : List String) (index : Nat) (slots : List Nat) (input : NdArray)
    (known : Known) : Except CallError Known :=
  let core := slots.length
  if input.rank < core then .error (.missingCoreDimensions index input.rank core)
  else do
    let loops := input.shape.take (input.rank - core)
    let coreShape := input.shape.drop (input.rank - core)
    let extents ← bindAxes dims slots coreShape known.extents
    let loopShape ← bindLoops index loops known.loopShape
    let layout : CoreLayout :=
      ⟨(elementCount coreShape).getD 0, loops.isEmpty, rowMajorStrides coreShape⟩
    return ⟨extents, loopShape, known.layouts ++ [layout]⟩

/-- Takes the inputs from position `index` on into account. -/
def bindInputs (dims : List String) :
    (index : Nat) → List (List Nat) → List NdArray → Known → Except CallError Known
  | index, slots :: inputSlots, input :: inputs, known => do
    let known ← bindInput dims index slots input known
    bindInputs dims (index + 1) inputSlots inputs known
  | _, _, _, known => .ok known

/-! ## Reads -/

/-- The first axis of an operand, from `axis` on, that is shorter than the dimension which indexes
it. -/
def axisFault? (dims : List String) (extents : List Nat) (operand : Nat) :
    (axis : Nat) → (slots declared : List Nat) → Option CallError
  | axis, slot :: slots, own :: declared =>
    let extent := extents.getD slot 0
    let bound := extents.getD own 0
    if bound < extent then
      some (.accessOutOfBounds operand axis (dims.getD slot "") extent bound)
    else axisFault? dims extents operand (axis + 1) slots declared
  | _, _, _ => none

/-- The first read that can leave its operand. -/
def accessFault? (p : Program) (extents : List Nat) : Option CallError :=
  p.accesses.findSome? fun access =>
    axisFault? p.dims extents access.operand 0 access.slots (p.inputSlots.getD access.operand [])

/-! ## Binding -/

/-- The call that the inputs make up, once all of them have been looked at: checks the reads of the
kernel and the size of the output. -/
def Program.bindOutput (p : Program) (known : Known) : Except CallError (BoundCall × Shape) :=
  let extents := known.extents.map (·.getD 0)
  match accessFault? p extents with
  | some fault => .error fault
  | none =>
    let loopShape := known.loopShape.getD []
    let outputCore := p.outputSlots.map (extents.getD · 0)
    let outputShape := loopShape ++ outputCore
    if elementCount outputShape = none then .error (.outputTooLarge outputShape)
    else
      .ok (⟨extents, (elementCount loopShape).getD 0, (elementCount outputCore).getD 0,
        known.layouts⟩, outputShape)

/-- Binds the inputs of a call. The result comes with the shape of the output: the loop shape, and
then the extents of the output dimensions. -/
def Program.bind (p : Program) (inputs : List NdArray) : Except CallError (BoundCall × Shape) :=
  if inputs.length = p.inputSlots.length then do
    let known ← bindInputs p.dims 0 p.inputSlots inputs
      ⟨List.replicate p.dims.length none, none, []⟩
    p.bindOutput known
  else .error (.arityMismatch p.inputSlots.length inputs.length)

end ArrayKernels
