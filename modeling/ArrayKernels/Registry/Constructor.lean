import ArrayKernels.Core.CoreUfunc

/-!
# Constructors

A constructor makes a vectorizer from a function. To run one is an effect: each run is noted, with
the number of the constructor and with what it has made, and whoever runs constructors hands the
notes on next to the results. So the notes tell which constructors have been run, how often, and
what came of it.
-/

namespace ArrayKernels

/-- A vectorizer of either family. -/
inductive AnyVectorizer where
  | elementwise (vectorizer : Vectorizer)
  | core (vectorizer : CoreVectorizer)

/-- A run of a constructor. -/
structure Invocation where
  /-- The number of the constructor. -/
  number : Nat
  /-- What it has made. -/
  made : AnyVectorizer

/-- A result, and the runs of constructors on the way to it, the first one first. -/
structure Constructed (α : Type) where
  value : α
  invocations : List Invocation

/-- The result with a function applied to it. That runs no constructor. -/
def Constructed.map {α β : Type} (f : α → β) (c : Constructed α) : Constructed β :=
  ⟨f c.value, c.invocations⟩

/-! ## Elementwise constructors -/

/-- Makes a vectorizer from a scalar function. -/
abbrev Constructor := ScalarFunction → Constructed Vectorizer

/-- The constructor with that number. Each time it makes what `make` says, and notes the run. -/
def Constructor.numbered (number : Nat) (make : ScalarFunction → Vectorizer) : Constructor :=
  fun function => ⟨make function, [⟨number, .elementwise (make function)⟩]⟩

/-! ## Core constructors -/

/-- Makes a core vectorizer from a core function and its signature. -/
abbrev CoreConstructor := CoreFunction → Signature → Constructed CoreVectorizer

/-- The constructor with that number. Each time it makes what `make` says, and notes the run. -/
def CoreConstructor.numbered (number : Nat) (make : CoreFunction → Signature → CoreVectorizer) :
    CoreConstructor :=
  fun function signature =>
    ⟨make function signature, [⟨number, .core (make function signature)⟩]⟩

end ArrayKernels
