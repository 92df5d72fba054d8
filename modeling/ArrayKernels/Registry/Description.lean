import ArrayKernels.Registry.Request
import ArrayKernels.Text.Outline

/-!
# Descriptions

Outlines of registries and vectorizers. A registry shows the label of every entry: the strategies
are in the order of their names as texts, the targets of each in their own order.
-/

namespace ArrayKernels

open Text (Outline)

/-! ## Device errors -/

/-- The outline of a device error. -/
def GpuError.outline : GpuError → Outline
  | disabled => .word "Disabled"
  | notCompiled => .word "NotCompiled"
  | noPlatform text => .tagged "NoPlatform" (.quoted text)
  | noDevice text => .tagged "NoDevice" (.quoted text)
  | noDoublePrecision text => .tagged "NoDoublePrecision" (.quoted text)
  | initialization text => .tagged "Initialization" (.quoted text)

/-! ## Registries -/

/-- A table in the order of the names of its strategies. -/
def Table.sortedByName (t : Table Kind) : Table Kind :=
  t.mergeSort fun a b => a.1.name ≤ b.1.name

/-- The outline of a table of labels. -/
def Table.outline (t : Table Kind) : Outline :=
  .map <| t.sortedByName.map fun (strategy, row) =>
    (Text.quote strategy.name,
      .map (row.map fun (target, kind) => (target.label.toList, .word kind.name)))

/-- The outline of a registry. -/
def Registry.outline (r : Registry) : Outline :=
  .record "Registry"
    [("vectorizers", (r.labels .elementwise).outline),
     ("gu_vectorizers", (r.labels .core).outline),
     ("gpu", .optional none),
     ("fallback", .optional (r.fallback.map GpuError.outline))]

/-! ## Vectorizers -/

/-- The outline of an elementwise vectorizer. -/
def Vectorizer.outline (v : Vectorizer) : Outline :=
  .record "Vectorizer" [("kind", .word v.recipe.kind.name), ("function", .quoted v.function.name)]

/-- The outline of a core vectorizer. -/
def CoreVectorizer.outline (v : CoreVectorizer) : Outline :=
  .record "GuVectorizer"
    [("kind", .word v.recipe.kind.name), ("function", .quoted v.function.name),
     ("signature", .quoted v.signature.render)]

end ArrayKernels
