import ArrayKernels.Proofs.CoreCalls
import ArrayKernels.Proofs.ElementwiseCalls

/-!
# Elementwise functions as core functions

A scalar function is a core function whose core blocks are single numbers. Its arguments become
elements at the empty multi-index, and a column becomes an array with one axis, or without axes if
it is a single number. The two families of functions then answer alike: with the same numbers, or by
blaming the same argument for the same two lengths.

## Layers

- **Functions**: the core function of a scalar function, its signature, and that it can be lowered.
- **Columns**: the arrays that stand for columns, and their core blocks.
- **Binding**: counting rows and binding arrays go through the arguments alike.

## Main results

- `bindInputs_slices`: what binding knows of the loop shape is what counting knows of the rows.
- `scalar_core_calls_agree`: the standard entries of both families.
-/

namespace ArrayKernels

/-! ## Functions -/

/-- The expression with an element of a block without dimensions for each argument. -/
def Expr.toCore : Expr → Expr
  | const v => const v
  | arg i => element i []
  | unary op a => unary op a.toCore
  | binary op a b => binary op a.toCore b.toCore
  | select c t o => select c.toCore t.toCore o.toCore
  | element k names => element k names
  | sum dim body => sum dim body.toCore

/-- The core function of a scalar function. -/
def ScalarFunction.toCore (f : ScalarFunction) : CoreFunction := ⟨f.name, f.body.toCore⟩

/-- The signature of functions from as many numbers to one number. -/
def Signature.scalars (count : Nat) : Signature := ⟨List.replicate count [], []⟩

namespace Signature

open SignatureGrammar in
theorem groups_scalars (count : Nat) :
    Groups (spellGroups (List.replicate (count + 1) [])) (List.replicate (count + 1) []) := by
  induction count with
  | zero => exact .one .empty
  | succ count ih => exact .more .empty ih

/-- No written form of such a signature has white space. -/
theorem compact_spell_scalars (count : Nat) :
    Text.compact (scalars count).spell = (scalars count).spell := by
  have hgroup : ∀ c ∈ spellGroup [], Text.isBlank c = false :=
    List.forall_iff_forall_mem.mp (by decide)
  have hgroups : ∀ c ∈ spellGroups (List.replicate count []), Text.isBlank c = false := by
    induction count with
    | zero => exact fun c hc => absurd hc List.not_mem_nil
    | succ count ih =>
      cases count with
      | zero => exact hgroup
      | succ count =>
        exact List.forall_mem_append.mpr ⟨hgroup, List.forall_mem_cons.mpr ⟨by decide, ih⟩⟩
  refine List.filter_eq_self.mpr fun c hc => ?_
  rcases List.mem_append.mp hc with hinput | harrow
  · rw [hgroups c hinput]
    rfl
  · have harrow_fine : ∀ c ∈ '-' :: '>' :: spellGroup [], (!Text.isBlank c) = true :=
      List.forall_iff_forall_mem.mp (by decide)
    exact harrow_fine c harrow

theorem wellFormed_scalars (count : Nat) : (scalars count).WellFormed :=
  ⟨fun _ hname => absurd hname List.not_mem_nil, List.nodup_nil⟩

/-- The written form of such a signature reads as the signature. -/
theorem parse_scalars {count : Nat} (h : 0 < count) :
    parse (scalars count).render = .ok (scalars count) := by
  obtain ⟨count, rfl⟩ := Nat.exists_eq_add_of_le' h
  refine parse_eq_ok_iff.mpr ⟨_, ['(', ')'], ?_, groups_scalars count, .empty, ?_⟩
  · rw [render, String.toList_ofList, compact_spell_scalars]
    rfl
  · exact ⟨fun _ hname => absurd hname List.not_mem_nil, List.nodup_nil⟩

end Signature

/-- The core expression of a scalar expression without faults can be lowered. -/
theorem Expr.exists_lowerCore_toCore {arity : Nat} {e : Expr}
    (h : ∀ part ∈ e.nodes, part.scalarFault? arity = none) :
    ∃ n accesses, e.toCore.lowerCore [] (List.replicate arity []) [] = .ok (n, accesses) := by
  induction e with
  | const v => exact ⟨.const v, [], rfl⟩
  | arg i =>
    have hlt : i < arity := by
      have hfault := h (.arg i) (List.mem_singleton.mpr rfl)
      by_contra hge
      simp [scalarFault?, hge] at hfault
    refine ⟨.load i [], [⟨i, []⟩], ?_⟩
    simp only [toCore, lowerCore, List.getElem?_replicate_of_lt hlt]
    rfl
  | unary op a ih =>
    obtain ⟨a', as, ha⟩ := ih (List.forall_mem_cons.mp h).2
    exact ⟨.unary op a', as, by simp only [toCore, lowerCore, ha]; rfl⟩
  | binary op a b iha ihb =>
    obtain ⟨hparts_a, hparts_b⟩ := List.forall_mem_append.mp (List.forall_mem_cons.mp h).2
    obtain ⟨a', as, ha⟩ := iha hparts_a
    obtain ⟨b', bs, hb⟩ := ihb hparts_b
    exact ⟨.binary op a' b', as ++ bs, by simp only [toCore, lowerCore, ha, hb]; rfl⟩
  | select c t o ihc iht iho =>
    obtain ⟨hparts, hparts_o⟩ := List.forall_mem_append.mp (List.forall_mem_cons.mp h).2
    obtain ⟨hparts_c, hparts_t⟩ := List.forall_mem_append.mp hparts
    obtain ⟨c', cs, hc⟩ := ihc hparts_c
    obtain ⟨t', ts, ht⟩ := iht hparts_t
    obtain ⟨o', os, ho⟩ := iho hparts_o
    exact ⟨.select c' t' o', cs ++ ts ++ os, by simp only [toCore, lowerCore, hc, ht, ho]; rfl⟩
  | element k names =>
    have hfault := h (.element k names) (List.mem_singleton.mpr rfl)
    cases hfault
  | sum dim body ih =>
    have hfault := h (.sum dim body) List.mem_cons_self
    cases hfault

/-- A program without dimensions: every operand and the output are single numbers. -/
structure Program.Pointwise (p : Program) (arity : Nat) : Prop where
  inputSlots : p.inputSlots = List.replicate arity []
  outputSlots : p.outputSlots = []
  accesses : ∀ access ∈ p.accesses, access.slots = []

/-- **The core function of a scalar function can be lowered**, and its program has no dimensions. -/
theorem ScalarFunction.exists_lower_toCore (f : ScalarFunction) :
    ∃ p, f.toCore.lower (.scalars f.arity) = .ok p ∧ p.Pointwise f.arity := by
  obtain ⟨root, accesses, hroot⟩ :=
    Expr.exists_lowerCore_toCore (List.findSome?_eq_none_iff.mp f.faultless)
  have hdims : (Signature.scalars f.arity).dimensions = [] := by
    simp [Signature.dimensions, Signature.occurrences, Signature.scalars]
  have hinputs : ∀ count, (List.replicate count []).mapM (·.mapM (slotOf [])) =
      .ok (List.replicate count []) := by
    intro count
    induction count with
    | zero => rfl
    | succ count ih =>
      rw [List.replicate_succ, List.mapM_cons, ih]
      rfl
  have hlower : f.toCore.lower (.scalars f.arity) =
      .ok ⟨root, 0, [], List.replicate f.arity [], [], accesses⟩ := by
    unfold CoreFunction.lower
    rw [hdims]
    simp only [Signature.scalars, hinputs, toCore]
    change (f.body.toCore.lowerCore [] (List.replicate f.arity []) []).bind _ = _
    rw [hroot]
    rfl
  refine ⟨_, hlower, rfl, rfl, fun access hmem => ?_⟩
  -- an access has as many slots as the signature gives its operand
  obtain ⟨declared, hdeclared, hlength⟩ :=
    (CoreFunction.lowers_of_lower hlower).accesses_declared access hmem
  rw [List.eq_of_mem_replicate (List.mem_of_getElem? hdeclared)] at hlength
  exact List.length_eq_zero_iff.mp hlength.symm

/-- The core expression has the value of the scalar one, where the blocks are the arguments. -/
theorem Expr.coreValueAt_toCore {arity : Nat} {e : Expr}
    (h : ∀ part ∈ e.nodes, part.scalarFault? arity = none) (row : List Float)
    (extents values : NameValues) :
    e.toCore.coreValueAt (row.map fun x => ⟨[], #[x]⟩) extents values = e.valueAt row := by
  induction e with
  | const v => rfl
  | arg i =>
    simp only [toCore, coreValueAt, valueAt, List.getElem?_map]
    cases row[i]? <;> rfl
  | unary op a ih =>
    simp only [toCore, coreValueAt, valueAt, ih (List.forall_mem_cons.mp h).2]
  | binary op a b iha ihb =>
    obtain ⟨hparts_a, hparts_b⟩ := List.forall_mem_append.mp (List.forall_mem_cons.mp h).2
    simp only [toCore, coreValueAt, valueAt, iha hparts_a, ihb hparts_b]
  | select c t o ihc iht iho =>
    obtain ⟨hparts, hparts_o⟩ := List.forall_mem_append.mp (List.forall_mem_cons.mp h).2
    obtain ⟨hparts_c, hparts_t⟩ := List.forall_mem_append.mp hparts
    simp only [toCore, coreValueAt, valueAt, ihc hparts_c, iht hparts_t, iho hparts_o]
  | element k names =>
    have hfault := h (.element k names) (List.mem_singleton.mpr rfl)
    cases hfault
  | sum dim body ih =>
    have hfault := h (.sum dim body) List.mem_cons_self
    cases hfault

/-! ## Columns -/

/-- A column that has a place in memory. -/
structure Slice where
  column : Column
  addressable : 8 * column.size ≤ addressableBytes

namespace Slice

theorem size_lt (s : Slice) : s.column.size < wordBound := by
  have hbytes : addressableBytes < wordBound := by decide
  have haddressable := s.addressable
  omega

/-- The array of the numbers: without axes if there is a single one, and else with one axis. -/
def toArray (s : Slice) : NdArray :=
  if h : s.column.size = 1 then .scalar s.column[0] else .ofRow s.column s.size_lt

theorem shape_of_single {s : Slice} (h : s.column.size = 1) : s.toArray.shape = [] := by
  rw [toArray, dif_pos h]
  rfl

theorem shape_of_ne {s : Slice} (h : s.column.size ≠ 1) : s.toArray.shape = [s.column.size] := by
  rw [toArray, dif_neg h]
  rfl

/-- **The core block of a row** is the number that the column has in it. -/
theorem coreBlock_eq {s : Slice} {row : Nat} {x : Float} (h : s.column.at? row = some x) :
    s.toArray.coreBlock 0 row = ⟨[], #[x]⟩ := by
  by_cases hsingle : s.column.size = 1
  · rw [Column.at?, if_pos hsingle] at h
    obtain ⟨hlt, rfl⟩ := Array.getElem?_eq_some_iff.mp h
    rw [toArray, dif_pos hsingle]
    rfl
  · rw [Column.at?, if_neg hsingle] at h
    obtain ⟨hlt, rfl⟩ := Array.getElem?_eq_some_iff.mp h
    rw [toArray, dif_neg hsingle]
    -- the block is the slice that has the row in it
    have hslice : s.column.extract row (row + 1) = #[s.column[row]] := by
      apply Array.ext
      · simp only [Array.size_extract, List.size_toArray, List.length_singleton]
        omega
      · intro i hi hi'
        obtain rfl : i = 0 := by simpa using hi'
        simp
    simp [NdArray.coreBlock, NdArray.ofRow, NdArray.coreShape, NdArray.loopShape, NdArray.rank,
      hslice]

end Slice

/-- The core blocks of a row are the numbers that the columns have in it. -/
theorem coreBlocks_slices {slices : List Slice} {row : Nat} {xs : List Float}
    (h : rowAt? (slices.map Slice.column) row = some xs) :
    coreBlocks (List.replicate slices.length 0) (slices.map Slice.toArray) row =
      xs.map fun x => ⟨[], #[x]⟩ := by
  have hrow := mapM_eq_some_iff.mp h
  rw [List.forall₂_map_left_iff] at hrow
  clear h
  unfold coreBlocks
  induction hrow with
  | nil => rfl
  | cons hx _ ih =>
    rw [List.length_cons, List.replicate_succ, List.map_cons, List.zipWith_cons_cons, ih,
      Slice.coreBlock_eq hx, List.map_cons]

/-! ## Binding -/

/-- An input without core dimensions is bound by its loop shape alone. -/
theorem bindInput_nil (dims : List String) (index : Nat) (a : NdArray) (known : Known) :
    bindInput dims index [] a known = (bindLoops index a.shape known.loopShape).map fun loopShape =>
      ⟨known.extents, loopShape, known.layouts ++ [.ofInput 0 a]⟩ := by
  have hloops : a.shape.take a.rank = a.shape := List.take_length
  simp only [bindInput, List.length_nil, if_neg (Nat.not_lt_zero a.rank), Nat.sub_zero,
    CoreLayout.ofInput, NdArray.loopShape, NdArray.coreShape, hloops]
  cases bindLoops index a.shape known.loopShape <;> rfl

/-- **Binding the arrays of columns is counting their rows.** Either both succeed, and the length
that is known in the end is the loop shape that is known then, or both blame the same argument. -/
theorem bindInputs_slices (dims : List String) (slices : List Slice) (index : Nat)
    (found : Option Nat) (extents : List (Option Nat)) (layouts : List CoreLayout) :
    (∃ (found' : Option Nat) (layouts' : List CoreLayout),
      rowCountFrom index found (slices.map Slice.column) = .ok (found'.getD 1) ∧
      bindInputs dims index (List.replicate slices.length []) (slices.map Slice.toArray)
        ⟨extents, found.map ([·]), layouts⟩ = .ok ⟨extents, found'.map ([·]), layouts'⟩) ∨
    ∃ blamed len expected,
      rowCountFrom index found (slices.map Slice.column) =
        .error (.lengthMismatch blamed len expected) ∧
      bindInputs dims index (List.replicate slices.length []) (slices.map Slice.toArray)
        ⟨extents, found.map ([·]), layouts⟩ =
          .error (.loopShapeMismatch blamed [expected] [len]) := by
  induction slices generalizing index found layouts with
  | nil => exact .inl ⟨found, layouts, rfl, rfl⟩
  | cons s slices ih =>
    simp only [List.map_cons, List.length_cons, List.replicate_succ, bindInputs, bindInput_nil]
    by_cases hsingle : s.column.size = 1
    · -- a single number has no loop dimensions
      rw [rowCountFrom_of_single hsingle, Slice.shape_of_single hsingle]
      exact ih (index + 1) found _
    · rw [rowCountFrom_of_ne hsingle, Slice.shape_of_ne hsingle]
      cases found with
      | none =>
        rw [Option.getD_none, if_pos rfl]
        exact ih (index + 1) (some s.column.size) _
      | some expected =>
        rw [Option.getD_some]
        by_cases hsame : expected = s.column.size
        · rw [if_pos hsame, ← hsame]
          have hloops : bindLoops index [expected] (some [expected]) = .ok (some [expected]) := by
            simp [bindLoops]
          simp only [Option.map_some, hloops]
          exact ih (index + 1) (some expected) _
        · -- both lengths are blamed
          rw [if_neg hsame]
          have hloops : bindLoops index [s.column.size] (some [expected]) =
              .error (.loopShapeMismatch index [expected] [s.column.size]) := by
            simp [bindLoops, hsame]
          simp only [Option.map_some, hloops]
          exact .inr ⟨index, s.column.size, expected, rfl, rfl⟩

/-- The rows of a call have a place in memory if its columns have. -/
theorem Slice.rows_addressable {slices : List Slice} {len : Nat}
    (h : rowCount (slices.map Slice.column) = .ok len) : 8 * len ≤ addressableBytes := by
  rcases rowCount_spec (slices.map Slice.column) with ⟨n, hcount, hn, -⟩ | ⟨_, _, _, hcount, -⟩
  · cases hcount.symm.trans h
    cases hfirst : firstLength (slices.map Slice.column) with
    | none =>
      rw [hfirst] at hn
      subst hn
      decide
    | some first =>
      -- the length is that of a column
      obtain ⟨column, hcolumn, hsize⟩ := List.mem_map.mp (List.mem_of_find?_eq_some hfirst)
      obtain ⟨s, -, rfl⟩ := List.mem_map.mp hcolumn
      rw [hfirst, Option.getD_some] at hn
      rw [hn, ← hsize]
      exact s.addressable
  · rw [hcount] at h
    cases h

namespace Program.Pointwise

variable {p : Program} {slices : List Slice}

theorem bind_eq (hp : p.Pointwise slices.length) :
    p.bind (slices.map Slice.toArray) =
      bindInputs p.dims 0 (List.replicate slices.length []) (slices.map Slice.toArray)
        ⟨List.replicate p.dims.length none, none, []⟩ >>= p.bindOutput := by
  have hlength : (slices.map Slice.toArray).length = p.inputSlots.length := by
    rw [hp.inputSlots, List.length_map, List.length_replicate]
  rw [bind, if_pos hlength, hp.inputSlots]

/-- With a loop shape that can be counted, there is an output of that shape. -/
theorem bindOutput_eq (hp : p.Pointwise slices.length) (known : Known) {len : Nat}
    (hcount : elementCount (known.loopShape.getD []) = some len) :
    ∃ call, p.bindOutput known = .ok (call, known.loopShape.getD []) ∧ call.loopCount = len ∧
      call.outputCoreSize = 1 := by
  have haccess : accessFault? p (known.extents.map (·.getD 0)) = none := by
    rw [accessFault?, List.findSome?_eq_none_iff]
    intro access hmem
    rw [hp.accesses access hmem]
    rfl
  have hcore : elementCount [] = some 1 := by decide
  refine ⟨⟨known.extents.map (·.getD 0), len, 1, known.layouts⟩, ?_, rfl, rfl⟩
  simp only [bindOutput, haccess, hp.outputSlots, List.map_nil, List.append_nil, hcount, hcore,
    Option.getD_some, reduceCtorEq, if_false]

/-- **A call with rows is bound**, with one iteration for each of them. -/
theorem bind_of_rows (hp : p.Pointwise slices.length) {len : Nat}
    (h : rowCount (slices.map Slice.column) = .ok len) :
    ∃ call shape, p.bind (slices.map Slice.toArray) = .ok (call, shape) ∧
      call.loopCount = len ∧ call.outputCoreSize = 1 ∧ elementCount shape = some len := by
  rcases bindInputs_slices p.dims slices 0 none (List.replicate p.dims.length none) [] with
    ⟨found, layouts, hrows, hinputs⟩ | ⟨_, _, _, hrows, -⟩
  · obtain rfl : found.getD 1 = len := Except.ok.inj (hrows.symm.trans h)
    have hcount : elementCount ((found.map ([·])).getD []) = some (found.getD 1) := by
      have haddressable := Slice.rows_addressable h
      have hword : addressableBytes < wordBound := by decide
      cases found with
      | none => decide
      | some len =>
        rw [Option.getD_some] at haddressable
        exact NdArray.elementCount_singleton (by omega)
    obtain ⟨call, houtput, hloops, hcore⟩ := hp.bindOutput_eq
      ⟨List.replicate p.dims.length none, found.map ([·]), layouts⟩ hcount
    refine ⟨call, _, ?_, hloops, hcore, hcount⟩
    rw [hp.bind_eq]
    exact bind_eq_ok_iff.mpr ⟨_, hinputs, houtput⟩
  · cases hrows.symm.trans h

/-- **A call without rows is refused**, for the same lengths. -/
theorem bind_of_mismatch (hp : p.Pointwise slices.length) {index len expected : Nat}
    (h : rowCount (slices.map Slice.column) = .error (.lengthMismatch index len expected)) :
    p.bind (slices.map Slice.toArray) = .error (.loopShapeMismatch index [expected] [len]) := by
  rcases bindInputs_slices p.dims slices 0 none (List.replicate p.dims.length none) [] with
    ⟨_, _, hrows, -⟩ | ⟨_, _, _, hrows, hinputs⟩
  · cases hrows.symm.trans h
  · cases hrows.symm.trans h
    rw [hp.bind_eq]
    exact bind_eq_error_iff.mpr (.inl hinputs)

end Program.Pointwise

/-! ## Calls -/

namespace ScalarFunction

variable {f : ScalarFunction} {u : CoreUfunc} {slices : List Slice}

/-- The core function has in every iteration the value that the scalar function has in the row. -/
theorem elementAt_toCore (hlength : slices.length = f.arity) {row : Nat} {xs : List Float}
    (hrow : rowAt? (slices.map Slice.column) row = some xs) :
    (Signature.scalars f.arity).elementAt f.toCore.body (slices.map Slice.toArray) row [] =
      f.body.valueAt xs := by
  have hranks : (Signature.scalars f.arity).coreRanks = List.replicate slices.length 0 := by
    rw [Signature.coreRanks, Signature.scalars, List.map_replicate, hlength]
    rfl
  rw [Signature.elementAt, hranks, coreBlocks_slices hrow]
  exact Expr.coreValueAt_toCore (List.findSome?_eq_none_iff.mp f.faultless) xs _ _

/-- **Where there are rows, the core function computes the scalar function in them.** -/
theorem core_call_of_rows (hlower : f.toCore.lower (.scalars f.arity) = .ok u.program)
    (hp : u.program.Pointwise f.arity) {strategy : Strategy}
    (hkernel : u.kernel = strategy.compile u.program) (hlength : slices.length = f.arity)
    {len : Nat} (hrows : rowCount (slices.map Slice.column) = .ok len) :
    ∃ a, (u.call (slices.map Slice.toArray)).value = .ok a ∧
      a.data = ((List.range len).map (f.valueInRow (slices.map Slice.column))).toArray := by
  obtain ⟨call, shape, hbind, rfl, hcore, hcount⟩ := (hlength ▸ hp).bind_of_rows hrows
  have hlowers := CoreFunction.lowers_of_lower hlower
  have hbinds := hlowers.binds_of_bind hbind
  obtain ⟨value, hvalue, hrun⟩ :=
    hbinds.run_eq hlowers (Signature.wellFormed_scalars f.arity) strategy
  have hrow : ∀ l < call.loopCount, value l 0 = f.valueInRow (slices.map Slice.column) l := by
    intro l hl
    have hagree : ∀ column ∈ slices.map Slice.column,
        Array.size column = 1 ∨ Array.size column = call.loopCount := by
      rcases rowCount_spec (slices.map Slice.column) with ⟨n, hn, -, hagree⟩ | ⟨_, _, _, hn, -⟩
      · cases hn.symm.trans hrows
        exact hagree
      · cases hn.symm.trans hrows
    obtain ⟨xs, hxs, -⟩ := exists_rowAt? hagree hl
    have helement := hvalue l hl 0 (by omega)
    rw [Program.outputShape, hp.outputSlots] at helement
    have hsame := (elementAt_toCore hlength hxs).symm.trans helement
    rw [valueInRow, hxs, Option.bind_some, hsame, Option.getD_some]
  have hdata : ((List.range call.loopCount).map fun l =>
      (List.range call.outputCoreSize).map (value l)).flatten =
        (List.range call.loopCount).map (f.valueInRow (slices.map Slice.column)) := by
    rw [hcore, ← List.flatMap_def, List.map_eq_flatMap]
    refine List.flatMap_congr fun l hl => ?_
    rw [← hrow l (List.mem_range.mp hl)]
    rfl
  rw [hdata] at hrun
  have hcall := CoreUfunc.value_call_of_run hbind (hkernel ▸ hrun) (by simpa using hcount)
  refine ⟨_, hcall.trans (if_pos ?_), rfl⟩
  rw [BoundCall.outputBytes, BoundCall.outputCount, hcore, Nat.mul_one]
  exact Slice.rows_addressable hrows

theorem core_call_of_mismatch (hp : u.program.Pointwise f.arity) (hlength : slices.length = f.arity)
    {index len expected : Nat}
    (hrows : rowCount (slices.map Slice.column) = .error (.lengthMismatch index len expected)) :
    (u.call (slices.map Slice.toArray)).value =
      .error (.call (.loopShapeMismatch index [expected] [len])) := by
  simp only [CoreUfunc.call, (hlength ▸ hp).bind_of_mismatch hrows]
  rfl

end ScalarFunction

/-- A scalar function can be built in every form, and what comes out gives the common outcome. -/
theorem Vectorizer.exists_build (v : Vectorizer) :
    ∃ u, v.build.value = .ok u ∧
      ∀ columns, (u.call columns).value = v.function.outcome columns := by
  obtain ⟨p, hp, hvalue⟩ := v.function.exists_lower
  have hufunc : v.ufunc = .ok ⟨v.function.name, v.function.arity, v.recipe.kind,
      v.recipe.strategy.compile p, v.recipe.schedule⟩ := by
    simp only [ufunc, hp]
    rfl
  refine ⟨_, build_of_ufunc hufunc, ScalarFunction.call_eq_outcome rfl fun row hrow => ?_⟩
  obtain ⟨x, hx, hkernel⟩ := hvalue row hrow
  exact ⟨x, hx, hkernel v.recipe.strategy⟩

/-- The core function of a scalar function can be built in every form, too. -/
theorem ScalarFunction.exists_build_toCore (f : ScalarFunction) (recipe : CoreRecipe) :
    ∃ u, (CoreVectorizer.mk recipe f.toCore (.scalars f.arity)).build.value = .ok u ∧
      f.toCore.lower (.scalars f.arity) = .ok u.program ∧ u.program.Pointwise f.arity ∧
      u.kernel = recipe.strategy.compile u.program := by
  obtain ⟨p, hp, hpointwise⟩ := f.exists_lower_toCore
  refine ⟨⟨f.name, .scalars f.arity, recipe.kind, p, recipe.strategy.compile p⟩, ?_, hp,
    hpointwise, rfl⟩
  simp only [CoreVectorizer.build, CoreVectorizer.ufunc, hp]
  rfl

/-- **Elementwise functions are core functions of single numbers.** Replace every argument of a
scalar function by an element of an input without core dimensions: the core function can be lowered
against the signature of as many such inputs. Under every key of either family of the standard
registry without a device, both functions can be built, and for all columns they answer alike. One
call gives numbers exactly if the other one does, and the same numbers; and one blames a column for
its length exactly if the other one blames the array of this column for its loop shape. -/
theorem scalar_core_calls_agree (workers : Nat) (settings : Settings) (reason : GpuError)
    (f : ScalarFunction) (hpos : 0 < f.arity) :
    Signature.parse (Signature.scalars f.arity).render = .ok (.scalars f.arity) ∧
    (∃ p, f.toCore.lower (.scalars f.arity) = .ok p) ∧
    ∀ strategy target coreStrategy coreTarget,
      (strategy, target) ∈ (Registry.withoutDevice workers settings reason).elementwise.keys →
      (coreStrategy, coreTarget) ∈ (Registry.withoutDevice workers settings reason).core.keys →
      ∃ made coreMade u coreU,
        ((Registry.withoutDevice workers settings reason).vectorize f
          (.key strategy target)).value = .ok made ∧
        ((Registry.withoutDevice workers settings reason).vectorizeCore f.toCore
          (.scalars f.arity) (.key coreStrategy coreTarget)).value = .ok coreMade ∧
        made.build.value = .ok u ∧ coreMade.build.value = .ok coreU ∧
        ∀ slices : List Slice, slices.length = f.arity →
          (∀ out, (u.call (slices.map Slice.column)).value = .ok out ↔
            ∃ a, (coreU.call (slices.map Slice.toArray)).value = .ok a ∧ a.data = out) ∧
          ∀ index len expected,
            (u.call (slices.map Slice.column)).value =
                .error (.call (.lengthMismatch index len expected)) ↔
              (coreU.call (slices.map Slice.toArray)).value =
                .error (.call (.loopShapeMismatch index [expected] [len])) := by
  refine ⟨Signature.parse_scalars hpos, ?_, ?_⟩
  · obtain ⟨p, hp, -⟩ := f.exists_lower_toCore
    exact ⟨p, hp⟩
  intro strategy target coreStrategy coreTarget hkey hcoreKey
  obtain ⟨recipe, hmade, -⟩ := Registry.withoutDevice_vectorize workers settings reason hkey f
  obtain ⟨coreRecipe, hcoreMade, -⟩ :=
    Registry.withoutDevice_vectorizeCore workers settings reason hcoreKey f.toCore (.scalars f.arity)
  obtain ⟨u, hbuild, hcall⟩ := Vectorizer.exists_build ⟨recipe, f⟩
  obtain ⟨coreU, hcoreBuild, hlower, hpointwise, hkernel⟩ := f.exists_build_toCore coreRecipe
  refine ⟨⟨recipe, f⟩, ⟨coreRecipe, f.toCore, _⟩, u, coreU, hmade, hcoreMade, hbuild, hcoreBuild, ?_⟩
  intro slices hlength
  have hcolumns : (slices.map Slice.column).length = f.arity := by rw [List.length_map, hlength]
  rw [hcall, ScalarFunction.outcome, if_pos hcolumns]
  rcases rowCount_spec (slices.map Slice.column) with
    ⟨len, hrows, -⟩ | ⟨blamed, len, expected, hrows, -⟩
  · -- both calls give the same numbers, and no error
    obtain ⟨a, ha, hdata⟩ :=
      ScalarFunction.core_call_of_rows hlower hpointwise hkernel hlength hrows
    rw [hrows, ha]
    refine ⟨fun out => ⟨?_, ?_⟩, fun _ _ _ => ⟨by rintro ⟨⟩, by rintro ⟨⟩⟩⟩
    · rintro ⟨⟩
      exact ⟨a, rfl, hdata⟩
    · rintro ⟨_, ⟨⟩, rfl⟩
      rw [hdata]
  · -- both calls give the same error, and no numbers
    rw [hrows, ScalarFunction.core_call_of_mismatch hpointwise hlength hrows]
    refine ⟨fun out => ⟨by rintro ⟨⟩, by rintro ⟨_, ⟨⟩, -⟩⟩, fun _ _ _ => ⟨?_, ?_⟩⟩
    · rintro ⟨⟩
      rfl
    · rintro ⟨⟩
      rfl

/-- A single number and a column of two; and then a column without numbers before one of two. -/
theorem scalar_core_calls_agree_with_single_number :
    ∃ u : Ufunc, ∃ coreU : CoreUfunc, ∃ out : NdArray,
      (u.call [#[2.0], #[5.0, 1.0]]).value = .ok out.data ∧
      (coreU.call [.scalar 2.0, .ofRow #[5.0, 1.0] (by decide)]).value = .ok out ∧
      out.data.size = 2 ∧
      (u.call [#[], #[5.0, 1.0]]).value = .error (.call (.lengthMismatch 1 2 0)) ∧
      (coreU.call [.ofRow #[] (by decide), .ofRow #[5.0, 1.0] (by decide)]).value =
        .error (.call (.loopShapeMismatch 1 [0] [2])) := by
  obtain ⟨-, -, hentries⟩ := scalar_core_calls_agree 1 ⟨0, 0, false, 0⟩ .disabled
    ⟨"f", 2, .binary .sub (.arg 1) (.arg 0), rfl⟩ (by decide)
  obtain ⟨made, coreMade, u, coreU, hmade, hcoreMade, hbuild, hcoreBuild, hcalls⟩ :=
    hentries .treeWalk .parallel .closure .gpu (by decide) (by decide)
  have hnumbers : ∃ out, (u.call [#[2.0], #[5.0, 1.0]]).value = .ok out ∧ out.size = 2 := by
    cases hmade
    cases hbuild
    exact ⟨_, rfl, rfl⟩
  have hrefused : (u.call [#[], #[5.0, 1.0]]).value = .error (.call (.lengthMismatch 1 2 0)) := by
    cases hmade
    cases hbuild
    rfl
  obtain ⟨hok, -⟩ := hcalls [⟨#[2.0], by decide⟩, ⟨#[5.0, 1.0], by decide⟩] rfl
  obtain ⟨-, herror⟩ := hcalls [⟨#[], by decide⟩, ⟨#[5.0, 1.0], by decide⟩] rfl
  obtain ⟨_, hcall, hsize⟩ := hnumbers
  obtain ⟨out, hout, rfl⟩ := (hok _).mp hcall
  exact ⟨u, coreU, out, hcall, hout, hsize, hrefused, (herror 1 2 0).mp hrefused⟩

end ArrayKernels
