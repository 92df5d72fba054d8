import ArrayKernels.Registry.Builder

/-!
# Requests to a registry

A request names the entry that it wants by key or by the names of a strategy and a target. A request
for a vectorizer hands in a function. When the entry has been found, its constructor is run, each
time anew, and what it makes is the answer. All other requests only look at the entries.
-/

namespace ArrayKernels

/-- How a request names an entry. -/
inductive Selector where
  | key (strategy : Strategy) (target : Target)
  /-- By the names of a strategy and of a target. -/
  | names (backend target : String)

/-- The key of the entry. The name of the strategy is read first. -/
def Selector.resolve : Selector → Except RequestError (Strategy × Target)
  | key strategy target => .ok (strategy, target)
  | names backend target => do
    let strategy ← Strategy.parse backend
    let target ← Target.parse target
    return (strategy, target)

/-- The two families of entries. -/
inductive Family where
  | elementwise | core
deriving DecidableEq

/-- What a request leads to: an answer with its events, and the constructors that have been run. -/
structure Requested (α : Type) extends Logged (Except RequestError α) where
  invocations : List Invocation

namespace Requested

variable {α β : Type}

/-- A request is refused before any constructor is run. -/
def refused (fault : RequestError) : Requested α := ⟨.silent (.error fault), []⟩

/-- A request is answered with what a constructor has made. -/
def answered (made : Constructed α) (events : List Event) : Requested α :=
  ⟨⟨.ok made.value, events⟩, made.invocations⟩

/-- The answer with a function applied to what has been made. -/
def map (f : α → β) (r : Requested α) : Requested β := ⟨r.toLogged.mapOk f, r.invocations⟩

end Requested

namespace Registry

/-! ## Looking at the entries -/

/-- The labels of the entries of a family. -/
def labels (r : Registry) : Family → Table Kind
  | .elementwise => r.elementwise.mapValues Entry.label
  | .core => r.core.mapValues Entry.label

/-- The strategies that have entries. -/
def strategies (r : Registry) (family : Family) : List Strategy := (r.labels family).strategies

/-- The targets that have entries under a strategy. -/
def targets (r : Registry) (family : Family) (strategy : Strategy) : List Target :=
  (r.labels family).targets strategy

/-- The label of an entry. -/
def resolve (r : Registry) (family : Family) (selector : Selector) : Except RequestError Kind := do
  let (strategy, target) ← selector.resolve
  (r.labels family).find strategy target

/-! ## Making vectorizers -/

/-- Runs the constructor of an elementwise entry on a function. -/
def vectorize (r : Registry) (function : ScalarFunction) (selector : Selector) :
    Requested Vectorizer :=
  match selector.resolve with
  | .error fault => .refused fault
  | .ok (strategy, target) =>
    match r.elementwise.find strategy target with
    | .error fault => .refused fault
    | .ok entry =>
      .answered (entry.construct function)
        [⟨.debug, registryOrigin, "Constructing vectorizer",
          [("strategy", strategy.name), ("target", target.name), ("kind", entry.label.name),
           ("name", function.name)]⟩]

/-- Runs the constructor of a core entry on a function and its signature. -/
def vectorizeCore (r : Registry) (function : CoreFunction) (signature : Signature)
    (selector : Selector) : Requested CoreVectorizer :=
  match selector.resolve with
  | .error fault => .refused fault
  | .ok (strategy, target) =>
    match r.core.find strategy target with
    | .error fault => .refused fault
    | .ok entry =>
      .answered (entry.construct function signature)
        [⟨.debug, registryOrigin, "Constructing gufunc vectorizer",
          [("strategy", strategy.name), ("target", target.name), ("kind", entry.label.name),
           ("name", function.name), ("signature", signature.render)]⟩]

end Registry

end ArrayKernels
