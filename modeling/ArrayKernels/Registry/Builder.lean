import ArrayKernels.Registry.Constructor
import ArrayKernels.Registry.Table
import ArrayKernels.Settings

/-!
# Building registries

A registry starts from no entries or from the standard ones, and grows by additions. An addition
under a key that is taken replaces the entry there. A constructor has the number of the addition that
brought it, so that its runs can be traced back to the addition. Nothing is constructed here.

The standard entries are given as lists of recipes. A gpu target without a device runs on the cpu.
-/

namespace ArrayKernels

/-! ## Standard recipes -/

/-- The standard elementwise recipes and the targets that they serve. -/
def Recipe.standard (workers : Nat) (settings : Settings) : List (Target × Recipe) :=
  let inBlocks := Schedule.parallel workers settings.parallelMinChunk
  let inWindows := Schedule.stream settings.streamChunkSize
  [(.cpu, ⟨.serialStackCode, .stackCode, .serial⟩),
   (.parallel, ⟨.parallelStackCode, .stackCode, inBlocks⟩),
   (.stream, ⟨.streamStackCode, .stackCode, inWindows⟩),
   (.cpu, ⟨.serialClosure, .closure, .serial⟩),
   (.parallel, ⟨.parallelClosure, .closure, inBlocks⟩),
   (.stream, ⟨.streamClosure, .closure, inWindows⟩),
   (.cpu, ⟨.serialTreeWalk, .treeWalk, .serial⟩),
   (.parallel, ⟨.parallelTreeWalk, .treeWalk, inBlocks⟩)]

/-- The elementwise recipe for the gpu target when there is no device. -/
def Recipe.fallback : Recipe := ⟨.serialClosure, .closure, .serial⟩

/-- The standard elementwise recipe of a kind. -/
def Recipe.ofKind? (workers : Nat) (settings : Settings) (kind : Kind) : Option Recipe :=
  ((standard workers settings).map (·.2)).find? (·.kind = kind)

/-- The standard core recipes and the targets that they serve. -/
def CoreRecipe.standard : List (Target × CoreRecipe) :=
  [(.cpu, ⟨.coreStackCode, .stackCode⟩), (.cpu, ⟨.coreClosure, .closure⟩)]

/-- The core recipe for the gpu target when there is no device. -/
def CoreRecipe.fallback : CoreRecipe := ⟨.coreClosure, .closure⟩

/-- The standard core recipe of a kind. -/
def CoreRecipe.ofKind? (kind : Kind) : Option CoreRecipe :=
  (standard.map (·.2)).find? (·.kind = kind)

/-! ## Additions -/

/-- An entry to be added: what it is to make of functions, labelled with a kind. -/
inductive Addition where
  | elementwise (strategy : Strategy) (target : Target) (label : Kind)
      (construct : ScalarFunction → Vectorizer)
  | core (strategy : Strategy) (target : Target) (label : Kind)
      (construct : CoreFunction → Signature → CoreVectorizer)

namespace Addition

/-- The entry of an elementwise recipe under its own strategy and kind. -/
def ofRecipe (target : Target) (recipe : Recipe) : Addition :=
  .elementwise recipe.strategy target recipe.kind (.mk recipe)

/-- The entry of a core recipe under its own strategy and kind. -/
def ofCoreRecipe (target : Target) (recipe : CoreRecipe) : Addition :=
  .core recipe.strategy target recipe.kind (.mk recipe)

/-- The standard entries when there is no device. -/
def standard (workers : Nat) (settings : Settings) : List Addition :=
  (Recipe.standard workers settings).map (fun (target, recipe) => ofRecipe target recipe)
    ++ CoreRecipe.standard.map (fun (target, recipe) => ofCoreRecipe target recipe)
    ++ [ofRecipe .gpu .fallback, ofCoreRecipe .gpu .fallback]

end Addition

/-! ## Builders and registries -/

/-- What is registered under a key. -/
structure Entry (κ : Type) where
  /-- The kind that the entry is labelled with. What it constructs may report another one. -/
  label : Kind
  construct : κ

/-- The entries of both families, and why the gpu target runs on the cpu, if it does. -/
structure Registry where
  elementwise : Table (Entry Constructor)
  core : Table (Entry CoreConstructor)
  fallback : Option GpuError

/-- A registry that is still growing. -/
structure Builder where
  elementwise : Table (Entry Constructor) := []
  core : Table (Entry CoreConstructor) := []
  fallback : Option GpuError := none
  /-- How many entries have been added. The next constructor gets this number. -/
  added : Nat := 0

/-- The part of the library that keeps vectorizers, as events name it. -/
def registryOrigin : String := "vectorize::registry"

namespace Builder

/-- No entries. -/
def empty : Builder := {}

/-- Adds an entry. -/
def add (b : Builder) : Addition → Builder
  | .elementwise strategy target label construct =>
    { b with
      elementwise := b.elementwise.insert strategy target ⟨label, .numbered b.added construct⟩
      added := b.added + 1 }
  | .core strategy target label construct =>
    { b with
      core := b.core.insert strategy target ⟨label, .numbered b.added construct⟩
      added := b.added + 1 }

/-- Adds entries, the first of the list first. -/
def addAll (b : Builder) (additions : List Addition) : Builder := additions.foldl add b

/-- The standard entries for `workers` workers when there is no device, with a warning that says
why. -/
def standard (workers : Nat) (settings : Settings) (reason : GpuError) : Logged Builder :=
  ⟨{ empty.addAll (Addition.standard workers settings) with fallback := some reason },
    [⟨.warn, registryOrigin, "GPU support unavailable, gpu target falls back to cpu vectorizers",
      [("reason", reason.message)]⟩]⟩

/-- The registry with the entries that have been added. -/
def build (b : Builder) : Logged Registry :=
  ⟨⟨b.elementwise, b.core, b.fallback⟩,
    [⟨.debug, registryOrigin, "Built vectorizer registry",
      [("vectorizers", toString b.elementwise.size), ("gu_vectorizers", toString b.core.size),
       ("gpu", "false")]⟩]⟩

end Builder

/-- Why no device can be had: either none is wanted, or there is no driver for one. -/
def Settings.deviceFailure (settings : Settings) : GpuError :=
  if settings.gpuDisabled then .disabled else .notCompiled

/-- The standard registry for those settings. -/
def Registry.ofSettings (workers : Nat) (settings : Settings) : Logged Registry :=
  (Builder.standard workers settings settings.deviceFailure).andThen Builder.build

end ArrayKernels
