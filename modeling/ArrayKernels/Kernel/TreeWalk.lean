import ArrayKernels.Kernel.Env
import ArrayKernels.Kernel.Program

/-!
# Walking the tree

The plainest way to run a lowered kernel: evaluate its tree. A sum sets its slot to each index in
turn and puts the old index back afterwards.
-/

namespace ArrayKernels

/-- The value of a tree, and the index table that the evaluation leaves behind. -/
def Node.eval (env : Env) : Node → IndexTable → Option (Float × IndexTable)
  | const v, index => some (v, index)
  | arg i, index => (env.args[i]?).map (·, index)
  | unary op a, index => do
    let (x, index) ← a.eval env index
    return (op.apply x, index)
  | binary op a b, index => do
    let (x, index) ← a.eval env index
    let (y, index) ← b.eval env index
    return (op.apply x y, index)
  | select c t o, index => do
    let (x, index) ← c.eval env index
    if x != 0.0 then t.eval env index else o.eval env index
  | load k slots, index => (env.load index k slots).map (·, index)
  | sum slot body, index => do
    let saved ← index[slot]?
    let extent ← env.extents[slot]?
    let (total, index) ←
      accumulate (fun i index => body.eval env (index.set slot i)) extent 0 0.0 index
    return (total, index.set slot saved)

end ArrayKernels
