import ArrayKernels.Elementwise.Column
import ArrayKernels.Shape

/-!
# Schedules

Three ways to run a kernel over all rows of a call.

* Serial: row after row.
* In blocks: the rows are cut into blocks of equal length, the last one possibly shorter. Every
  block writes its own part of the result, so the blocks may run in any order.
* In windows: one window of rows after the other is copied to scratch columns, and the kernel runs
  over these. A column that stands for one number is copied out to the length of the window.

All three give the same result.
-/

namespace ArrayKernels

/-! ## Serial -/

/-- Runs the rows one after the other. -/
def runSerial (kernel : Kernel) (columns : List Column) (len : Nat) : Option Column := do
  let values ← kernel.onSpan columns ⟨0, len⟩
  return values.toArray

/-! ## Blocks -/

/-- The length of a block: there are at most four blocks for each worker, and a block has at least
`minBlock` rows. -/
def blockLength (workers minBlock len : Nat) : Nat :=
  Nat.max (ceilDiv len (Nat.max workers 1 * 4)) (Nat.max minBlock 1)

/-- The blocks of that length that cover the rows before `len`. -/
def blocks (length len : Nat) : List Span :=
  (List.range (ceilDiv len length)).map fun n => ⟨n * length, Nat.min (n * length + length) len⟩

/-- The result with the values of a block put in from position `first` on. -/
def writeAt (out : Column) (first : Nat) : List Float → Column
  | [] => out
  | x :: xs => writeAt (out.setIfInBounds first x) (first + 1) xs

/-- Runs blocks in the order of the list, each into its part of the result. -/
def runBlocks (kernel : Kernel) (columns : List Column) (order : List Span) (out : Column) :
    Option Column :=
  order.foldlM (fun out block => do
    let values ← kernel.onSpan columns block
    return writeAt out block.first values) out

/-- Runs the rows in blocks, from the first block to the last. -/
def runParallel (workers minBlock : Nat) (kernel : Kernel) (columns : List Column) (len : Nat) :
    Option Column :=
  runBlocks kernel columns (blocks (blockLength workers minBlock len) len)
    (Array.replicate len 0.0)

/-! ## Windows -/

/-- The windows of at most `size` rows, or of one if `size` is zero, that cover the rows from
`first` on and before `len`. -/
def windows (size len first : Nat) : List Span :=
  if first < len then
    let stop := Nat.min (first + Nat.max size 1) len
    ⟨first, stop⟩ :: windows size len stop
  else []
termination_by len - first
decreasing_by
  have : 1 ≤ Nat.max size 1 := Nat.le_max_right size 1
  simp only [Nat.min_def]
  split <;> omega

/-- The rows of a window in a scratch column. -/
def stage (window : Span) (column : Column) : Option Column :=
  if column.size = 1 then (column[0]?).map (Array.replicate window.length)
  else if window.stop ≤ column.size then some (column.extract window.first window.stop)
  else none

/-- Runs the rows of one window on scratch columns. -/
def runWindow (kernel : Kernel) (columns : List Column) (window : Span) : Option (List Float) := do
  let staged ← columns.mapM (stage window)
  kernel.onSpan staged ⟨0, window.length⟩

/-- Runs the rows in windows. -/
def runStream (size : Nat) (kernel : Kernel) (columns : List Column) (len : Nat) :
    Option Column := do
  let parts ← (windows size len 0).mapM (runWindow kernel columns)
  return parts.flatten.toArray

/-! ## Choice -/

/-- A way to run a kernel over all rows. -/
inductive Schedule where
  | serial
  | parallel (workers minBlock : Nat)
  | stream (size : Nat)

/-- Runs a kernel over the rows before `len`. -/
def Schedule.run : Schedule → Kernel → List Column → Nat → Option Column
  | serial => runSerial
  | parallel workers minBlock => runParallel workers minBlock
  | stream size => runStream size

end ArrayKernels
