import ArrayKernels.Proofs.CoreCalls
import ArrayKernels.Proofs.BindingFaults
import ArrayKernels.Proofs.SignatureSpelling
import Mathlib.Data.List.Nodup
import Mathlib.Logic.Equiv.Basic

/-!
# Renaming dimensions

A core function and its signature speak of dimensions by name, and nothing that is computed depends
on which names these are. An injective map on names is applied to both of them here. Reading compares
names, dimensions are collected in the order in which they appear, and lowering looks their slots up;
each of these is shown to go along with the map, so the lowered kernel has the same tree and the same
tables except for the names in its table of dimensions. What is left of names behind that are the
texts of errors.

## Layers

- **Renamed things**: expressions, signatures, kernels and errors under a map on names.
- **Signatures**: the renamed signature can be read, too.
- **Lowering**: slots do not change, and an error names the renamed dimension.
- **Binding**: the names that binding quotes are those of slots.

## Main results

- `CoreFunction.lower_rename`: lowering goes along with renaming.
- `CoreUfunc.call_rename`: so do the calls of what has been built.
- `renaming_changes_names_only`: both, for a signature that has been read.
-/

namespace ArrayKernels

open SignatureGrammar

/-! ## Renamed things -/

section Renamed

variable (r : String → String)

/-- The expression with its dimensions renamed. -/
def Expr.rename : Expr → Expr
  | const v => const v
  | arg i => arg i
  | unary op a => unary op a.rename
  | binary op a b => binary op a.rename b.rename
  | select c t o => select c.rename t.rename o.rename
  | element k names => element k (names.map r)
  | sum dim body => sum (r dim) body.rename

def CoreFunction.rename (f : CoreFunction) : CoreFunction := ⟨f.name, f.body.rename r⟩

def Signature.rename (s : Signature) : Signature := ⟨s.inputs.map (·.map r), s.output.map r⟩

def CoreVectorizer.rename (v : CoreVectorizer) : CoreVectorizer :=
  ⟨v.recipe, v.function.rename r, v.signature.rename r⟩

/-- Of a lowered kernel only the table of dimension names changes. -/
def Program.rename (p : Program) : Program := { p with dims := p.dims.map r }

def CoreUfunc.rename (u : CoreUfunc) : CoreUfunc :=
  { u with signature := u.signature.rename r, program := u.program.rename r }

def KernelError.rename : KernelError → KernelError
  | unknownDimension name => unknownDimension (r name)
  | unboundDimension name => unboundDimension (r name)
  | fault => fault

def CallError.rename : CallError → CallError
  | dimensionMismatch dim first second => dimensionMismatch (r dim) first second
  | accessOutOfBounds operand axis dim extent bound =>
    accessOutOfBounds operand axis (r dim) extent bound
  | fault => fault

/-- The error with the dimension in it renamed. Building and calling give errors of two kinds
only. -/
def Error.rename : Error → Error
  | kernel cause => kernel (cause.rename r)
  | call cause => call (cause.rename r)
  | fault => fault

end Renamed

variable {r : String → String}

/-- A fault of the first part or else of the second one is renamed where it arises. -/
theorem mapError_bind {ε ε' α β : Type} (g : ε → ε') (x : Except ε α) (f : α → Except ε β) :
    (x >>= f).mapError g = x.mapError g >>= fun a => (f a).mapError g := by
  cases x <;> rfl

/-! ## Signatures -/

section Signatures

/-- A letter, a digit or an underscore is no white space. -/
theorem isNameChar_of_isBlank {c : Char} (h : Text.isBlank c = true) : isNameChar c = false := by
  rw [Bool.eq_false_iff]
  intro hname
  simp only [Text.isBlank, Text.inRanges, Text.blankRanges, List.any_cons, List.any_nil,
    Bool.or_false, Bool.or_eq_true, Bool.and_eq_true, decide_eq_true_eq] at h
  rcases isNameChar_iff.mp hname with (⟨hlow, hhigh⟩ | ⟨hlow, hhigh⟩ | rfl) | ⟨hlow, hhigh⟩
  · have hlow : 65 ≤ c.toNat := hlow
    have hhigh : c.toNat ≤ 90 := hhigh
    omega
  · have hlow : 97 ≤ c.toNat := hlow
    have hhigh : c.toNat ≤ 122 := hhigh
    omega
  · revert h
    decide
  · have hlow : 48 ≤ c.toNat := hlow
    have hhigh : c.toNat ≤ 57 := hhigh
    omega

/-- Names have no white space in them. -/
theorem SignatureGrammar.Names.isBlank_eq_false {cs : List Char} {names : List String}
    (h : Names cs names) {c : Char} (hc : c ∈ cs) : Text.isBlank c = false := by
  rw [Bool.eq_false_iff]
  intro hblank
  by_cases hcomma : c = ','
  · subst hcomma
    revert hblank
    decide
  · exact h.not_mem (isNameChar_of_isBlank hblank) hcomma hc

/-- The text of a list of groups has no white space in it. -/
theorem SignatureGrammar.Group.isBlank_eq_false {cs : List Char} {group : List String}
    (h : Group cs group) : ∀ c ∈ cs, Text.isBlank c = false := by
  cases h with
  | empty =>
    intro c hc
    rcases List.mem_pair.mp hc with rfl | rfl <;> decide
  | named hnames =>
    intro c hc
    rcases List.mem_append.mp hc with hc | hc
    · rcases List.mem_cons.mp hc with rfl | hc
      · decide
      · exact hnames.isBlank_eq_false hc
    · rw [List.mem_singleton.mp hc]
      decide

theorem SignatureGrammar.Groups.isBlank_eq_false {cs : List Char} {groups : List (List String)}
    (h : Groups cs groups) : ∀ c ∈ cs, Text.isBlank c = false := by
  induction h with
  | one hgroup => exact hgroup.isBlank_eq_false
  | more hgroup _ ih =>
    intro c hc
    rcases List.mem_append.mp hc with hc | hc
    · exact hgroup.isBlank_eq_false c hc
    · rcases List.mem_cons.mp hc with rfl | hc
      · decide
      · exact ih c hc

variable (hnames : ∀ name : String, Identifier name.toList → Identifier (r name).toList)

include hnames

/-- The written forms of renamed groups are texts of the grammar again. -/
theorem SignatureGrammar.Names.rename {cs : List Char} {names : List String} (h : Names cs names) :
    Names (Signature.spellNames (names.map r)) (names.map r) := by
  have one : ∀ cs, Identifier cs → Names (r (String.ofList cs)).toList [r (String.ofList cs)] := by
    intro cs hid
    have hname := hnames (String.ofList cs) (by rwa [String.toList_ofList])
    simpa only [String.ofList_toList] using Names.one hname
  induction h with
  | one hid => exact one _ hid
  | @more cs rest names hid hrest ih =>
    have hne : names.map r ≠ [] := by simpa using hrest.names_ne_nil
    have hname := hnames (String.ofList cs) (by rwa [String.toList_ofList])
    rw [List.map_cons, Signature.spellNames_cons _ hne]
    simpa only [String.ofList_toList] using Names.more hname ih

theorem SignatureGrammar.Group.rename {cs : List Char} {group : List String} (h : Group cs group) :
    Group (Signature.spellGroup (group.map r)) (group.map r) := by
  cases h with
  | empty => exact .empty
  | named h => exact .named (h.rename hnames)

theorem SignatureGrammar.Groups.rename {cs : List Char} {groups : List (List String)}
    (h : Groups cs groups) :
    Groups (Signature.spellGroups (groups.map (·.map r))) (groups.map (·.map r)) := by
  induction h with
  | one hgroup => exact .one (hgroup.rename hnames)
  | more hgroup hrest ih =>
    rw [List.map_cons, Signature.spellGroups_cons _ (by simpa using hrest.ne_nil.2)]
    exact .more (hgroup.rename hnames) ih

/-- **The renamed signature can be read**: reading compares the names of the output with those of
the inputs and with one another, and an injective map keeps both comparisons. -/
theorem Signature.parse_rename (hr : Function.Injective r) {text : String} {s : Signature}
    (h : parse text = .ok s) : parse (s.rename r).render = .ok (s.rename r) := by
  obtain ⟨left, right, -, hleft, hright, hallowed⟩ := parse_eq_ok_iff.mp h
  have hinputs := hleft.rename hnames
  have houtput := hright.rename hnames
  refine parse_eq_ok_iff.mpr ⟨_, _, ?_, hinputs, houtput, ?_⟩
  · rw [render, String.toList_ofList, Text.compact]
    refine List.filter_eq_self.mpr fun c hc => ?_
    have hblank : Text.isBlank c = false := by
      rcases List.mem_append.mp hc with hc | hc
      · exact hinputs.isBlank_eq_false c hc
      · rcases List.mem_cons.mp hc with rfl | hc
        · decide
        · rcases List.mem_cons.mp hc with rfl | hc
          · decide
          · exact houtput.isBlank_eq_false c hc
    rw [hblank]
    rfl
  · refine ⟨fun name hname => ?_, hallowed.nodup.map hr⟩
    obtain ⟨own, hown, rfl⟩ := List.mem_map.mp hname
    obtain ⟨group, hgroup, hmem⟩ := hallowed.declared own hown
    exact ⟨group.map r, List.mem_map_of_mem hgroup, List.mem_map_of_mem hmem⟩

end Signatures

/-! ## Lowering -/

section Lowering

variable (hr : Function.Injective r)

include hr

/-- The order of first appearance does not depend on the names. -/
theorem eraseDups_map (names : List String) : (names.map r).eraseDups = names.eraseDups.map r := by
  induction names using List.reverseRec with
  | nil => rfl
  | append_singleton names last ih =>
    rw [List.map_append, List.eraseDups_append, List.eraseDups_append, List.map_append, ih]
    congr 1
    by_cases hlast : last ∈ names
    · simp [List.removeAll, hlast, hr.eq_iff]
    · simp [List.removeAll, hlast, hr.eq_iff, List.eraseDups_cons]

theorem Signature.dimensions_rename (s : Signature) :
    (s.rename r).dimensions = s.dimensions.map r := by
  rw [dimensions, dimensions, ← eraseDups_map hr]
  simp only [occurrences, rename, List.map_append, List.map_flatten]

theorem slotOf_rename (dims : List String) (name : String) :
    slotOf (dims.map r) (r name) = (slotOf dims name).mapError (·.rename r) := by
  have hsame : (dims.map r).idxOf? (r name) = dims.idxOf? name := by
    simp only [List.idxOf?, List.findIdx?_map]
    congr 1
    funext other
    exact hr.beq_eq
  rw [slotOf, slotOf, hsame]
  cases dims.idxOf? name <;> rfl

theorem resolveIndex_rename (dims : List String) (bound : List Nat) (names : List String) :
    resolveIndex (dims.map r) bound (names.map r) =
      (resolveIndex dims bound names).mapError (·.rename r) := by
  induction names with
  | nil => rfl
  | cons name names ih =>
    rw [List.map_cons, resolveIndex, resolveIndex, slotOf_rename hr, ih, mapError_bind]
    congr 1
    funext slot
    by_cases hbound : slot ∈ bound
    · rw [if_pos hbound, if_pos hbound, mapError_bind]
      rfl
    · rw [if_neg hbound, if_neg hbound]
      rfl

/-- **The tree and its reads do not change**, whatever the scope is. -/
theorem Expr.lowerCore_rename (dims : List String) (inputSlots : List (List Nat)) (e : Expr)
    (bound : List Nat) :
    (e.rename r).lowerCore (dims.map r) inputSlots bound =
      (e.lowerCore dims inputSlots bound).mapError (·.rename r) := by
  -- the scope is a list of slots, so a sum extends it in the same way under either name
  induction e generalizing bound with
  | const v => rfl
  | arg i => rfl
  | unary op a ih =>
    simp only [rename, lowerCore, ih, mapError_bind]
    rfl
  | binary op a b iha ihb =>
    simp only [rename, lowerCore, iha, ihb, mapError_bind]
    rfl
  | select c t o ihc iht iho =>
    simp only [rename, lowerCore, ihc, iht, iho, mapError_bind]
    rfl
  | element k names =>
    simp only [rename, lowerCore, List.length_map]
    cases inputSlots[k]? with
    | none => rfl
    | some declared =>
      by_cases hrank : declared.length = names.length
      · simp only [if_pos hrank, resolveIndex_rename hr, mapError_bind]
        rfl
      · simp only [if_neg hrank]
        rfl
  | sum dim body ih =>
    simp only [rename, lowerCore, slotOf_rename hr, ih, mapError_bind]
    rfl

theorem mapM_slotOf_rename (dims names : List String) :
    (names.map r).mapM (slotOf (dims.map r)) =
      (names.mapM (slotOf dims)).mapError (·.rename r) := by
  induction names with
  | nil => rfl
  | cons name names ih =>
    simp only [List.map_cons, List.mapM_cons, slotOf_rename hr, ih, mapError_bind]
    rfl

theorem mapM_mapM_slotOf_rename (dims : List String) (groups : List (List String)) :
    (groups.map (·.map r)).mapM (fun group : List String => group.mapM (slotOf (dims.map r))) =
      (groups.mapM fun group : List String => group.mapM (slotOf dims)).mapError
        (·.rename r) := by
  induction groups with
  | nil => rfl
  | cons group groups ih =>
    simp only [List.map_cons, List.mapM_cons, mapM_slotOf_rename hr, ih, mapError_bind]
    rfl

/-- **Lowering goes along with renaming.** -/
theorem CoreFunction.lower_rename (f : CoreFunction) (s : Signature) :
    (f.rename r).lower (s.rename r) =
      ((f.lower s).map (Program.rename r)).mapError (·.rename r) := by
  simp only [lower, s.dimensions_rename hr]
  simp only [Signature.rename, rename, mapM_slotOf_rename hr, mapM_mapM_slotOf_rename hr,
    Expr.lowerCore_rename hr]
  cases s.inputs.mapM fun group => group.mapM (slotOf s.dimensions) with
  | error fault => rfl
  | ok inputSlots =>
    cases s.output.mapM (slotOf s.dimensions) with
    | error fault => rfl
    | ok outputSlots =>
      change ((f.body.lowerCore s.dimensions inputSlots outputSlots).mapError _ >>= _) =
        ((f.body.lowerCore s.dimensions inputSlots outputSlots >>= _).map _).mapError _
      cases f.body.lowerCore s.dimensions inputSlots outputSlots <;> rfl

end Lowering

/-! ## Binding -/

section Binding

variable {dims : List String}

/-- A slot of the table has the renamed name there. -/
theorem getD_map_of_lt {slot : Nat} (h : slot < dims.length) :
    (dims.map r).getD slot "" = r (dims.getD slot "") := by
  simp [List.getD_eq_getElem?_getD, h]

theorem bindAxes_rename {slots : List Nat} (hslots : ∀ slot ∈ slots, slot < dims.length)
    (shape : Shape) (extents : List (Option Nat)) :
    bindAxes (dims.map r) slots shape extents =
      (bindAxes dims slots shape extents).mapError (·.rename r) := by
  induction slots generalizing shape extents with
  | nil => rfl
  | cons slot slots ih =>
    obtain ⟨hslot, hslots⟩ := List.forall_mem_cons.mp hslots
    cases shape with
    | nil => rfl
    | cons extent shape =>
      rw [bindAxes, bindAxes]
      cases extents[slot]?.join with
      | none => exact ih hslots shape _
      | some first =>
        by_cases hsame : first = extent
        · simp only [if_pos hsame]
          exact ih hslots shape extents
        · simp only [if_neg hsame, getD_map_of_lt hslot]
          rfl

theorem bindLoops_mapError (index : Nat) (loops : Shape) (known : Option Shape) :
    (bindLoops index loops known).mapError (·.rename r) = bindLoops index loops known := by
  unfold bindLoops
  split
  · rfl
  · cases known with
    | none => rfl
    | some expected =>
      simp only
      split <;> rfl

theorem bindInput_rename {slots : List Nat} (hslots : ∀ slot ∈ slots, slot < dims.length)
    (index : Nat) (input : NdArray) (known : Known) :
    bindInput (dims.map r) index slots input known =
      (bindInput dims index slots input known).mapError (·.rename r) := by
  simp only [bindInput]
  split
  · rfl
  · rw [bindAxes_rename hslots, mapError_bind]
    congr 1
    funext extents
    rw [mapError_bind, bindLoops_mapError]
    rfl

theorem bindInputs_rename {inputSlots : List (List Nat)}
    (hslots : ∀ slots ∈ inputSlots, ∀ slot ∈ slots, slot < dims.length) (index : Nat)
    (inputs : List NdArray) (known : Known) :
    bindInputs (dims.map r) index inputSlots inputs known =
      (bindInputs dims index inputSlots inputs known).mapError (·.rename r) := by
  induction inputSlots generalizing index inputs known with
  | nil => cases inputs <;> rfl
  | cons slots inputSlots ih =>
    obtain ⟨hfirst, hrest⟩ := List.forall_mem_cons.mp hslots
    cases inputs with
    | nil => rfl
    | cons input inputs =>
      simp only [bindInputs, bindInput_rename hfirst, mapError_bind, ih hrest]

theorem axisFault?_rename (extents : List Nat) (operand axis : Nat) {slots : List Nat}
    (hslots : ∀ slot ∈ slots, slot < dims.length) (declared : List Nat) :
    axisFault? (dims.map r) extents operand axis slots declared =
      (axisFault? dims extents operand axis slots declared).map (·.rename r) := by
  induction slots generalizing axis declared with
  | nil => rfl
  | cons slot slots ih =>
    obtain ⟨hslot, hslots⟩ := List.forall_mem_cons.mp hslots
    cases declared with
    | nil => rfl
    | cons own declared =>
      simp only [axisFault?]
      split
      · rw [getD_map_of_lt hslot]
        rfl
      · exact ih (axis + 1) hslots declared

/-- The slots at which a lowered kernel reads are positions in its table of dimensions. -/
theorem Program.Lowers.access_slots_lt {p : Program} {f : CoreFunction} {s : Signature}
    (hp : p.Lowers f s) : ∀ access ∈ p.accesses, ∀ slot ∈ access.slots, slot < p.dims.length := by
  intro access haccess slot hslot
  obtain ⟨read, -, -, hnames⟩ := exists_of_mem_right (Expr.reads_of_lowerCore hp.root) haccess
  obtain ⟨name, -, hname⟩ := exists_of_mem_right hnames hslot
  exact slotOf_lt hname

theorem findSome?_congr {α β : Type} {f g : α → Option β} {xs : List α}
    (h : ∀ x ∈ xs, f x = g x) : xs.findSome? f = xs.findSome? g := by
  induction xs with
  | nil => rfl
  | cons x xs ih =>
    obtain ⟨hx, hxs⟩ := List.forall_mem_cons.mp h
    rw [List.findSome?_cons, List.findSome?_cons, hx, ih hxs]

/-- **Binding goes along with renaming**: it looks at slots, and only its errors have names. -/
theorem Program.Lowers.bind_rename {p : Program} {f : CoreFunction} {s : Signature}
    (hp : p.Lowers f s) (inputs : List NdArray) :
    (p.rename r).bind inputs = (p.bind inputs).mapError (·.rename r) := by
  have hfault : ∀ extents, accessFault? (p.rename r) extents =
      (accessFault? p extents).map (·.rename r) := by
    intro extents
    rw [accessFault?, accessFault?, List.map_findSome?]
    exact findSome?_congr fun access haccess =>
      axisFault?_rename extents _ 0 (hp.access_slots_lt access haccess) _
  have houtput : ∀ known, (p.rename r).bindOutput known =
      (p.bindOutput known).mapError (·.rename r) := by
    intro known
    simp only [bindOutput, hfault]
    cases accessFault? p (known.extents.map (·.getD 0)) with
    | some fault => rfl
    | none =>
      simp only [Option.map_none]
      change (if elementCount (_ ++ p.outputSlots.map _) = none then _ else _) = _
      split <;> rfl
  rw [bind, bind]
  change (if inputs.length = p.inputSlots.length then _ else _) = _
  by_cases hlength : inputs.length = p.inputSlots.length
  · rw [if_pos hlength, if_pos hlength, mapError_bind]
    simp only [rename, List.length_map, bindInputs_rename hp.inputSlots_lt]
    congr 1
    funext known
    exact houtput known
  · rw [if_neg hlength, if_neg hlength]
    rfl

end Binding

/-! ## Functions over arrays -/

/-- A kernel is compiled from the tree alone. -/
theorem Strategy.compile_rename (strategy : Strategy) (p : Program) :
    strategy.compile (p.rename r) = strategy.compile p := by
  cases strategy <;> rfl

theorem CoreVectorizer.ufunc_rename (hr : Function.Injective r) (v : CoreVectorizer) :
    (v.rename r).ufunc = (v.ufunc.map (·.rename r)).mapError (·.rename r) := by
  simp only [ufunc, rename, CoreFunction.lower_rename hr]
  cases v.function.lower v.signature with
  | error fault => rfl
  | ok p =>
    change Except.ok (CoreUfunc.mk _ _ _ _ (v.recipe.strategy.compile (p.rename r))) = _
    rw [Strategy.compile_rename]
    rfl

/-- **Building goes along with renaming.** -/
theorem CoreVectorizer.value_build_rename (hr : Function.Injective r) (v : CoreVectorizer) :
    (v.rename r).build.value = (v.build.value.map (·.rename r)).mapError (·.rename r) := by
  simp only [build, ufunc_rename hr]
  cases v.ufunc <;> rfl

theorem CoreUfunc.runBound_mapError (u : CoreUfunc) (call : BoundCall) (shape : Shape)
    (inputs : List NdArray) :
    (u.runBound call shape inputs).mapError (·.rename r) = u.runBound call shape inputs := by
  unfold runBound
  split
  · split
    · unfold NdArray.ofShape
      split <;> rfl
    · rfl
  · rfl

/-- **Calling goes along with renaming**: the same arrays and the same events, and the same errors
with the dimension in them renamed. -/
theorem CoreUfunc.call_rename {u : CoreUfunc} {f : CoreFunction} {s : Signature}
    (hp : u.program.Lowers f s) (inputs : List NdArray) :
    (u.rename r).call inputs =
      ⟨(u.call inputs).value.mapError (·.rename r), (u.call inputs).events⟩ := by
  have hbind : (u.rename r).program.bind inputs =
      (u.program.bind inputs).mapError (·.rename r) := hp.bind_rename inputs
  simp only [call, hbind]
  cases u.program.bind inputs with
  | error fault => rfl
  | ok result =>
    obtain ⟨call, shape⟩ := result
    -- behind binding there are no names any more
    change Logged.mk ((u.runBound call shape inputs).mapError Error.call) _ = _
    have hrun := u.runBound_mapError (r := r) call shape inputs
    cases hresult : u.runBound call shape inputs with
    | error fault =>
      rw [hresult] at hrun
      have hfault : fault.rename r = fault := Except.error.inj hrun
      simp only [Except.mapError, Error.rename, hresult, hfault]
      rfl
    | ok out =>
      simp only [Except.mapError, hresult]
      rfl

/-- **Renaming dimensions changes names only.** For a signature that has been read and an injective
map that takes identifiers to identifiers, the renamed signature can be read, too. The renamed
function is lowered to the same kernel except for the names in its table of dimensions, or else
fails with the same error about the renamed dimension. What is built from it, with any recipe, gives
the same array for the same inputs, or else the same error about the renamed dimension. -/
theorem renaming_changes_names_only {text : String} {s : Signature}
    (hs : Signature.parse text = .ok s) {r : String → String} (hr : Function.Injective r)
    (hnames : ∀ name : String, Identifier name.toList → Identifier (r name).toList)
    (recipe : CoreRecipe) (f : CoreFunction) :
    Signature.parse (s.rename r).render = .ok (s.rename r) ∧
    (∀ p, f.lower s = .ok p →
      (f.rename r).lower (s.rename r) = .ok { p with dims := p.dims.map r }) ∧
    (∀ fault, f.lower s = .error fault →
      (f.rename r).lower (s.rename r) = .error (fault.rename r)) ∧
    (∀ fault, (CoreVectorizer.build ⟨recipe, f, s⟩).value = .error fault →
      (CoreVectorizer.build ⟨recipe, f.rename r, s.rename r⟩).value = .error (fault.rename r)) ∧
    ∀ u, (CoreVectorizer.build ⟨recipe, f, s⟩).value = .ok u →
      ∃ u', (CoreVectorizer.build ⟨recipe, f.rename r, s.rename r⟩).value = .ok u' ∧
        ∀ inputs, (u'.call inputs).value = (u.call inputs).value.mapError (·.rename r) := by
  have hlower := f.lower_rename hr s
  have hbuild := CoreVectorizer.value_build_rename hr ⟨recipe, f, s⟩
  refine ⟨Signature.parse_rename hnames hr hs, fun p hp => ?_, fun fault hfault => ?_,
    fun fault hfault => ?_, fun u hu => ⟨u.rename r, ?_, fun inputs => ?_⟩⟩
  · rw [hlower, hp]
    rfl
  · rw [hlower, hfault]
    rfl
  · rw [hfault] at hbuild
    exact hbuild
  · rw [hu] at hbuild
    exact hbuild
  · obtain ⟨p, hp, rfl, -⟩ := CoreVectorizer.build_ok hu
    rw [CoreUfunc.call_rename (CoreFunction.lowers_of_lower hp)]

/-- The names of two dimensions change places. The body reads its operand transposed, which a block
that is wider than high does not allow; the error names the other dimension then. -/
theorem renaming_changes_names_only_of_exchanged :
    ∃ s u u', Signature.parse "(m,n)->(m)" = .ok s ∧
      s.rename (Equiv.swap "m" "n") = ⟨[["n", "m"]], ["n"]⟩ ∧
      (CoreVectorizer.build ⟨⟨.coreStackCode, .stackCode⟩,
        ⟨"f", .sum "n" (.element 0 ["n", "m"])⟩, s⟩).value = .ok u ∧
      (CoreVectorizer.build ⟨⟨.coreStackCode, .stackCode⟩,
        ⟨"f", .sum "m" (.element 0 ["m", "n"])⟩, ⟨[["n", "m"]], ["n"]⟩⟩).value = .ok u' ∧
      (u.call [⟨[1, 2], #[1.0, 2.0], by decide⟩]).value =
        .error (.call (.accessOutOfBounds 0 0 "n" 2 1)) ∧
      (u'.call [⟨[1, 2], #[1.0, 2.0], by decide⟩]).value =
        .error (.call (.accessOutOfBounds 0 0 "m" 2 1)) := by
  have hs : Signature.parse "(m,n)->(m)" = .ok ⟨[["m", "n"]], ["m"]⟩ := by cbv
  have hnames : ∀ name : String, Identifier name.toList →
      Identifier (Equiv.swap "m" "n" name).toList := by
    intro name hname
    rw [Equiv.swap_apply_def]
    split
    · exact isName_iff.mp (by decide)
    · split
      · exact isName_iff.mp (by decide)
      · exact hname
  obtain ⟨-, -, -, -, hcalls⟩ := renaming_changes_names_only hs (Equiv.swap "m" "n").injective
    hnames ⟨.coreStackCode, .stackCode⟩ ⟨"f", .sum "n" (.element 0 ["n", "m"])⟩
  obtain ⟨u', hu', hcall⟩ := hcalls _ rfl
  have hrenamed : CoreFunction.rename (Equiv.swap "m" "n") ⟨"f", .sum "n" (.element 0 ["n", "m"])⟩ =
      ⟨"f", .sum "m" (.element 0 ["m", "n"])⟩ := by
    simp [CoreFunction.rename, Expr.rename]
  have hsignature : Signature.rename (Equiv.swap "m" "n") ⟨[["m", "n"]], ["m"]⟩ =
      ⟨[["n", "m"]], ["n"]⟩ := by
    simp [Signature.rename]
  rw [hrenamed, hsignature] at hu'
  refine ⟨_, _, u', hs, hsignature, rfl, hu', rfl, ?_⟩
  rw [hcall]
  change Except.error (Error.call (.accessOutOfBounds 0 0 (Equiv.swap "m" "n" "n") 2 1)) = _
  rw [Equiv.swap_apply_right]

end ArrayKernels
