import ArrayKernels.Elementwise.Schedule
import ArrayKernels.Kernel.Lowering
import ArrayKernels.Kernel.Compile
import ArrayKernels.Log.Event

/-!
# Elementwise functions

A recipe says how a scalar function is to be run over columns. A vectorizer is a function with a
recipe. Building it lowers and compiles the function; what comes out can be called.
-/

namespace ArrayKernels

/-- The part of the library that builds and calls functions, as events name it. -/
def callOrigin : String := "vectorize::backends"

/-- How a scalar function is run. -/
structure Recipe where
  kind : Kind
  strategy : Strategy
  schedule : Schedule

/-- A scalar function and how it is run. -/
structure Vectorizer where
  recipe : Recipe
  function : ScalarFunction

/-- A function over columns. -/
structure Ufunc where
  name : String
  arity : Nat
  kind : Kind
  kernel : Kernel
  schedule : Schedule

namespace Vectorizer

/-- What the function over columns consists of. -/
def ufunc (v : Vectorizer) : Except KernelError Ufunc := do
  let program ← v.function.lower
  return ⟨v.function.name, v.function.arity, v.recipe.kind, v.recipe.strategy.compile program,
    v.recipe.schedule⟩

/-- Builds the function over columns. -/
def build (v : Vectorizer) : Logged (Except Error Ufunc) :=
  match v.ufunc with
  | .error fault => .silent (.error (.kernel fault))
  | .ok ufunc =>
    ⟨.ok ufunc,
      [⟨.debug, callOrigin, "Built ufunc",
        [("kind", ufunc.kind.name), ("name", ufunc.name), ("arity", toString ufunc.arity)]⟩]⟩

end Vectorizer

namespace Ufunc

/-- The number of rows of a call, if there are as many columns as arguments and their lengths
agree. -/
def rows (u : Ufunc) (columns : List Column) : Except CallError Nat :=
  if columns.length = u.arity then rowCount columns
  else .error (.arityMismatch u.arity columns.length)

/-- Calls the function. -/
def call (u : Ufunc) (columns : List Column) : Logged (Except Error Column) :=
  match u.rows columns with
  | .error fault => .silent (.error (.call fault))
  | .ok len =>
    ⟨match u.schedule.run u.kernel columns len with
      | some out => .ok out
      | none => .error (.call .indexFault),
      [⟨.trace, callOrigin, "Calling ufunc",
        [("kind", u.kind.name), ("name", u.name), ("len", toString len)]⟩]⟩

end Ufunc

end ArrayKernels
