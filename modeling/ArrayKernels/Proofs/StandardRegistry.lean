import ArrayKernels.Registry.Request

/-!
# The standard registry

Which entries the standard registry has when there is no device, and with what strategy each of them
runs. An entry for the gpu target is there, too, and runs on the cpu.
-/

namespace ArrayKernels

/-- The keys of a table, in their order. -/
def Table.keys {α : Type} (t : Table α) : List (Strategy × Target) :=
  t.flatMap fun (strategy, row) => row.map fun (target, _) => (strategy, target)

namespace Registry

/-- The standard registry when there is no device. -/
def withoutDevice (workers : Nat) (settings : Settings) (reason : GpuError) : Registry :=
  ((Builder.standard workers settings reason).andThen Builder.build).value

theorem withoutDevice_keys (workers : Nat) (settings : Settings) (reason : GpuError) :
    (withoutDevice workers settings reason).elementwise.keys =
      [(.stackCode, .cpu), (.stackCode, .parallel), (.stackCode, .stream), (.closure, .cpu),
        (.closure, .parallel), (.closure, .stream), (.closure, .gpu), (.treeWalk, .cpu),
        (.treeWalk, .parallel)] :=
  rfl

theorem withoutDevice_core_keys (workers : Nat) (settings : Settings) (reason : GpuError) :
    (withoutDevice workers settings reason).core.keys =
      [(.stackCode, .cpu), (.closure, .cpu), (.closure, .gpu)] :=
  rfl

/-- Under each of its keys the function is run by a recipe with the strategy of the key. -/
theorem withoutDevice_vectorize (workers : Nat) (settings : Settings) (reason : GpuError)
    {strategy : Strategy} {target : Target}
    (hkey : (strategy, target) ∈ (withoutDevice workers settings reason).elementwise.keys)
    (f : ScalarFunction) :
    ∃ recipe : Recipe, ((withoutDevice workers settings reason).vectorize f
        (.key strategy target)).value = .ok ⟨recipe, f⟩ ∧ recipe.strategy = strategy := by
  simp only [withoutDevice_keys, List.mem_cons, Prod.mk.injEq, List.not_mem_nil, or_false] at hkey
  rcases hkey with ⟨rfl, rfl⟩ | ⟨rfl, rfl⟩ | ⟨rfl, rfl⟩ | ⟨rfl, rfl⟩ | ⟨rfl, rfl⟩ | ⟨rfl, rfl⟩ |
    ⟨rfl, rfl⟩ | ⟨rfl, rfl⟩ | ⟨rfl, rfl⟩ <;> exact ⟨_, rfl, rfl⟩

theorem withoutDevice_vectorizeCore (workers : Nat) (settings : Settings) (reason : GpuError)
    {strategy : Strategy} {target : Target}
    (hkey : (strategy, target) ∈ (withoutDevice workers settings reason).core.keys)
    (f : CoreFunction) (s : Signature) :
    ∃ recipe : CoreRecipe, ((withoutDevice workers settings reason).vectorizeCore f s
        (.key strategy target)).value = .ok ⟨recipe, f, s⟩ ∧ recipe.strategy = strategy := by
  simp only [withoutDevice_core_keys, List.mem_cons, Prod.mk.injEq, List.not_mem_nil,
    or_false] at hkey
  rcases hkey with ⟨rfl, rfl⟩ | ⟨rfl, rfl⟩ | ⟨rfl, rfl⟩ <;> exact ⟨_, rfl, rfl⟩

end Registry

end ArrayKernels
