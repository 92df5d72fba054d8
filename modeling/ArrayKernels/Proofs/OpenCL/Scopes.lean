import ArrayKernels.Proofs.OpenCL.Reader

/-!
# Scopes of OpenCL C

Which declaration a name refers to, from the text alone. A loop opens a scope for its counter and
another one for its body; all other declarations belong to the block in which they stand, and so do
the parameters to the block of the kernel. A name refers to the innermost declaration that stands
before it.

## Main results

- `Place.resolve_cons`: names are resolved from the inside to the outside.
-/

namespace ArrayKernels.OpenCL

/-- The declarations of a block, or the counter of a loop. -/
structure Scope where
  ofLoop : Bool
  names : List (List Char)

/-- The variables and arrays that an expression uses, from left to right. -/
def Term.names : Term → List (List Char)
  | int _ | word _ | decimal _ | nan | infinity => []
  | name text => [text]
  | item array position => array :: position.names
  | call _ operand => operand.names
  | callTwo _ lhs rhs => lhs.names ++ rhs.names
  | negated operand => operand.names
  | binary _ lhs rhs => lhs.names ++ rhs.names
  | choice cond chosen otherwise => cond.names ++ chosen.names ++ otherwise.names

/-- The scopes with one declaration more in the innermost one. -/
def addName (name : List Char) : List Scope → List Scope
  | [] => []
  | scope :: outer => { scope with names := name :: scope.names } :: outer

/-- A place in a program: a name and the scopes that are in force, the innermost first. -/
structure Place where
  name : List Char
  scopes : List Scope

/-- The places of names. -/
def places (scopes : List Scope) (names : List (List Char)) : List Place :=
  names.map (⟨·, scopes⟩)

/-- The places where statements use a name. -/
def Code.uses : List Scope → Code → List Place
  | _, done => []
  | scopes, declare _ _ name value next =>
    places scopes value.names ++ next.uses (addName name scopes)
  | scopes, returnIf cond next => places scopes cond.names ++ next.uses scopes
  | scopes, update name _ value next =>
    places scopes (name :: value.names) ++ next.uses scopes
  | scopes, store array position value next =>
    places scopes (array :: position.names ++ value.names) ++ next.uses scopes
  | scopes, loop counter first cond body next =>
    let head := ⟨true, [counter]⟩ :: scopes
    places scopes first.names ++ places head (cond.names ++ [counter]) ++
      body.uses (⟨false, []⟩ :: head) ++ next.uses scopes

/-- The places where statements declare a name, with the scopes as they are before. -/
def Code.declarations : List Scope → Code → List Place
  | _, done => []
  | scopes, declare _ _ name _ next => ⟨name, scopes⟩ :: next.declarations (addName name scopes)
  | scopes, returnIf _ next => next.declarations scopes
  | scopes, update _ _ _ next => next.declarations scopes
  | scopes, store _ _ _ next => next.declarations scopes
  | scopes, loop counter _ _ body next =>
    ⟨counter, ⟨true, []⟩ :: scopes⟩ ::
      body.declarations (⟨false, []⟩ :: ⟨true, [counter]⟩ :: scopes) ++ next.declarations scopes

/-- The scope of the parameters, in which the statements of the kernel stand as well. -/
def Kernel.scope (k : Kernel) : Scope := ⟨false, (k.parameters.map Parameter.name).reverse⟩

def Kernel.uses (k : Kernel) : List Place := k.body.uses [k.scope]

def Kernel.declarations (k : Kernel) : List Place := k.body.declarations [k.scope]

namespace Place

variable (place : Place)

/-- The scopes from the innermost one on that declares the name, outwards. -/
def resolve : List Scope := place.scopes.dropWhile fun scope => !scope.names.contains place.name

/-- The name is declared before the place, in a scope around it. -/
def Declared : Prop := ∃ scope ∈ place.scopes, place.name ∈ scope.names

/-- The innermost scope has no other declaration of the name. -/
def Fresh : Prop := ∀ scope ∈ place.scopes.head?, place.name ∉ scope.names

/-- The name is the counter of a loop around the place. -/
def InLoop : Prop := ∃ scope ∈ place.scopes, scope.ofLoop = true ∧ place.name ∈ scope.names

/-- The name refers to the counter of a loop: the innermost declaration of it is that one. -/
def RefersToLoop : Prop := ∃ outer, place.resolve = ⟨true, [place.name]⟩ :: outer

/-- The name refers to a declaration in the block of the kernel. -/
def RefersToKernel : Prop := ∃ scope, place.resolve = [scope]

end Place

/-! ## Resolving names -/

namespace Place

variable {name : List Char} {scopes outer : List Scope}

theorem resolve_cons (name : List Char) (scope : Scope) (outer : List Scope) :
    resolve ⟨name, scope :: outer⟩ =
      if name ∈ scope.names then scope :: outer else resolve ⟨name, outer⟩ := by
  simp only [resolve]
  by_cases h : name ∈ scope.names
  · rw [if_pos h, List.dropWhile_cons_of_neg (by simpa using h)]
  · rw [if_neg h, List.dropWhile_cons_of_pos (by simpa using h)]

/-- No scope that declares the name is passed over. -/
theorem mem_resolve {scope : Scope} (hscope : scope ∈ scopes) (hname : name ∈ scope.names) :
    scope ∈ resolve ⟨name, scopes⟩ := by
  induction scopes with
  | nil => cases hscope
  | cons head outer ih =>
    rw [resolve_cons]
    split
    · exact hscope
    · next hhead =>
      rcases List.mem_cons.mp hscope with rfl | hscope
      · exact absurd hname hhead
      · exact ih hscope

theorem declared_of_resolve (h : resolve ⟨name, scopes⟩ ≠ []) : Declared ⟨name, scopes⟩ := by
  induction scopes with
  | nil => exact absurd rfl h
  | cons head outer ih =>
    rw [resolve_cons] at h
    split at h
    · next hhead => exact ⟨head, List.mem_cons_self, hhead⟩
    · obtain ⟨scope, hscope, hname⟩ := ih h
      exact ⟨scope, List.mem_cons_of_mem head hscope, hname⟩

/-- What refers to a loop stands in it. -/
theorem RefersToLoop.inLoop {place : Place} (h : place.RefersToLoop) : place.InLoop := by
  obtain ⟨outer, hresolve⟩ := h
  have hsuffix : place.resolve <:+ place.scopes := List.dropWhile_suffix _
  have hmem : ⟨true, [place.name]⟩ ∈ place.scopes := hsuffix.subset (hresolve ▸ List.mem_cons_self)
  exact ⟨_, hmem, rfl, List.mem_singleton.mpr rfl⟩

/-- What refers to the kernel's block is no counter of a loop. -/
theorem not_inLoop_of_resolve {names : List (List Char)}
    (h : resolve ⟨name, scopes⟩ = [⟨false, names⟩]) : ¬InLoop ⟨name, scopes⟩ := by
  rintro ⟨scope, hscope, hloop, hname⟩
  have hmem := mem_resolve hscope hname
  rw [h, List.mem_singleton] at hmem
  rw [hmem] at hloop
  cases hloop

end Place

end ArrayKernels.OpenCL
