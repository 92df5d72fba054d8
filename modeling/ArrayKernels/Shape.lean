/-!
# Shapes

The extents of an array, the number of its elements and the strides of its row-major layout.

Sizes are machine words, that is, natural numbers below `wordBound`. A number of elements that is no
word is reported as `none`. A stride that is no word is replaced by the greatest word; such a stride
belongs to an array without elements, so nothing is ever read through it.
-/

namespace ArrayKernels

/-- The number of machine words. -/
def wordBound : Nat := Nat.pow 2 64

/-- The greatest number of bytes that one object may take: positions in memory are signed words. -/
def addressableBytes : Nat := Nat.pow 2 63 - 1

/-- The product of two words, if it is a word. -/
def checkedMul (a b : Nat) : Option Nat := if a * b < wordBound then some (a * b) else none

/-- The product of two words, or the greatest word if the product is larger. -/
def saturatingMul (a b : Nat) : Nat := Nat.min (a * b) (wordBound - 1)

/-- The quotient of `a` by `b`, rounded up. -/
def ceilDiv (a b : Nat) : Nat := (a + b - 1) / b

/-- The extents of an array, outermost axis first. -/
abbrev Shape := List Nat

/-- The number of elements of an array of that shape, if it is a word. An extent of zero makes it
zero however large the other extents are. -/
def elementCount (shape : Shape) : Option Nat :=
  if 0 ∈ shape then some 0 else shape.foldlM checkedMul 1

/-- The number of elements that one step along an axis passes over, from the extents of the axes
inside it. -/
def strideOver : Shape → Nat
  | [] => 1
  | extent :: inner => saturatingMul (strideOver inner) extent

/-- The strides of the row-major layout, outermost axis first. -/
def rowMajorStrides : Shape → List Nat
  | [] => []
  | _ :: inner => strideOver inner :: rowMajorStrides inner

end ArrayKernels
