import ArrayKernels.Operator

/-!
# Lowered kernels

In a lowered kernel every dimension is a slot: a position in the tables of extents and of current
indices that belong to a call. All names have been resolved and all checks of the expression made.
-/

namespace ArrayKernels

/-- An expression over slots. -/
inductive Node where
  | const (value : Float)
  | arg (position : Nat)
  | unary (op : UnaryOp) (operand : Node)
  | binary (op : BinaryOp) (lhs rhs : Node)
  | select (cond chosen otherwise : Node)
  /-- The element of an operand at the current index of each slot. -/
  | load (operand : Nat) (slots : List Nat)
  /-- The sum of the body over all indices of a slot. -/
  | sum (slot : Nat) (body : Node)

/-- A place where a kernel reads an operand. -/
structure Access where
  operand : Nat
  slots : List Nat
deriving DecidableEq

/-- The places where the expression reads an operand, from left to right. -/
def Node.loads : Node → List Access
  | const _ => []
  | arg _ => []
  | unary _ a => a.loads
  | binary _ a b => a.loads ++ b.loads
  | select c t o => c.loads ++ t.loads ++ o.loads
  | load k slots => [⟨k, slots⟩]
  | sum _ body => body.loads

/-- A lowered kernel. -/
structure Program where
  /-- The expression. -/
  root : Node
  /-- The number of scalar arguments of an elementwise kernel. -/
  arity : Nat
  /-- The dimension names of a core kernel, by slot. -/
  dims : List String
  /-- The core slots that the signature declares for each input. -/
  inputSlots : List (List Nat)
  /-- The core slots of the output. -/
  outputSlots : List Nat
  /-- Every place where the expression reads an operand, for the check against bound extents. -/
  accesses : List Access

end ArrayKernels
