import ArrayKernels.Core.Run
import ArrayKernels.Elementwise.Ufunc

/-!
# Functions over core blocks

A core recipe says how a core function is to be run over arrays. Building a core vectorizer lowers
the function against its signature and compiles it; what comes out can be called.
-/

namespace ArrayKernels

/-- How a core function is run. -/
structure CoreRecipe where
  kind : Kind
  strategy : Strategy

/-- A core function, its signature and how it is run. -/
structure CoreVectorizer where
  recipe : CoreRecipe
  function : CoreFunction
  signature : Signature

/-- A function over arrays. -/
structure CoreUfunc where
  name : String
  signature : Signature
  kind : Kind
  program : Program
  kernel : Kernel

namespace CoreVectorizer

/-- What the function over arrays consists of. -/
def ufunc (v : CoreVectorizer) : Except KernelError CoreUfunc := do
  let program ← v.function.lower v.signature
  return ⟨v.function.name, v.signature, v.recipe.kind, program,
    v.recipe.strategy.compile program⟩

/-- Builds the function over arrays. -/
def build (v : CoreVectorizer) : Logged (Except Error CoreUfunc) :=
  match v.ufunc with
  | .error fault => .silent (.error (.kernel fault))
  | .ok ufunc =>
    ⟨.ok ufunc,
      [⟨.debug, callOrigin, "Built gufunc",
        [("kind", ufunc.kind.name), ("name", ufunc.name),
         ("signature", ufunc.signature.render)]⟩]⟩

end CoreVectorizer

namespace CoreUfunc

/-- Runs a bound call and gives the output its shape. Room for the whole output is made first. -/
def runBound (u : CoreUfunc) (call : BoundCall) (shape : Shape) (inputs : List NdArray) :
    Except CallError NdArray :=
  if call.outputBytes ≤ addressableBytes then
    match call.run u.kernel u.program.outputSlots inputs with
    | some data => NdArray.ofShape shape data
    | none => .error .indexFault
  else .error (.allocationFault call.outputCount)

/-- Calls the function. -/
def call (u : CoreUfunc) (inputs : List NdArray) : Logged (Except Error NdArray) :=
  match u.program.bind inputs with
  | .error fault => .silent (.error (.call fault))
  | .ok (call, shape) =>
    ⟨(u.runBound call shape inputs).mapError .call,
      [⟨.trace, callOrigin, "Calling gufunc",
        [("kind", u.kind.name), ("name", u.name), ("loops", toString call.loopCount)]⟩]⟩

end CoreUfunc

end ArrayKernels
