import ArrayKernels.Kernel.TreeWalk
import ArrayKernels.Kernel.Closure
import ArrayKernels.Kernel.StackCode
import ArrayKernels.Registry.Key

/-!
# From programs to kernels

Each strategy turns a lowered program into a kernel of its own form.
-/

namespace ArrayKernels

/-- The kernel of a program under a strategy. -/
def Strategy.compile : Strategy → Program → Kernel
  | stackCode, p => p.stackCode.toKernel
  | closure, p => p.root.toKernel
  | treeWalk, p => fun env index => p.root.eval env index

end ArrayKernels
