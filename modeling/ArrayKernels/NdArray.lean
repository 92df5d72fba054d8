import ArrayKernels.Shape
import ArrayKernels.Error

/-!
# Arrays

An array is a shape and the elements in row-major order. That the shape describes exactly the
elements is part of the type, so no operation has to check it again.
-/

namespace ArrayKernels

/-- A row-major array of numbers. -/
structure NdArray where
  /-- The extents, outermost axis first. -/
  shape : Shape
  /-- The elements in row-major order. -/
  data : Array Float
  /-- The shape describes as many elements as there are. -/
  count_eq : elementCount shape = some data.size

namespace NdArray

/-- The array of that shape with those elements, if their number fits. -/
def ofShape (shape : Shape) (data : Array Float) : Except CallError NdArray :=
  if h : elementCount shape = some data.size then .ok ⟨shape, data, h⟩
  else .error (.shapeMismatch shape data.size)

theorem elementCount_singleton {n : Nat} (h : n < wordBound) : elementCount [n] = some n := by
  by_cases hn : n = 0
  · simp [elementCount, hn]
  · have h0 : 0 ≠ n := fun e => hn e.symm
    simp [elementCount, checkedMul, h, h0]

/-- The array with one axis that holds those elements. -/
def ofRow (data : Array Float) (h : data.size < wordBound) : NdArray :=
  ⟨[data.size], data, elementCount_singleton h⟩

/-- The array without axes that holds one number. -/
def scalar (value : Float) : NdArray :=
  ⟨[], #[value], by simp [elementCount]⟩

/-- The number of axes. -/
def rank (a : NdArray) : Nat := a.shape.length

end NdArray

end ArrayKernels
