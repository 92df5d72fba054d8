import ArrayKernels.Device.Emission
import ArrayKernels.Proofs.OpenCL.PrintedKernels
import ArrayKernels.Proofs.RowMajor

/-!
# Written kernels

What holds of everything that is written for an expression, whatever it means: running totals are
numbered upwards, and the numbers in positions and loops are words, if the extents and strides of the
call are. So the kernel that is written for a call can be read back from its text.

## Main results

- `next_le_write`: the numbers of totals grow.
- `read?_coreSource`: the kernel of a call can be read.
-/

namespace ArrayKernels

/-- The numbers of the call are words. -/
structure BoundCall.Fits (call : BoundCall) : Prop where
  extents : ∀ extent ∈ call.extents, extent < wordBound
  outputCoreSize : call.outputCoreSize < wordBound
  sizes : ∀ layout ∈ call.layouts, layout.size < wordBound
  strides : ∀ layout ∈ call.layouts, ∀ stride ∈ layout.strides, stride < wordBound

namespace Device

open OpenCL

/-! ## Blocks -/

theorem Block.append_assoc (a b c : Block) : (a.append b).append c = a.append (b.append c) := by
  induction a with
  | done => rfl
  | loop index bound body next _ ih => exact congrArg (loop index bound body) ih
  | declareWord constant name value next ih => exact congrArg (declareWord constant name value) ih
  | stopUnlessBelow name bound next ih => exact congrArg (stopUnlessBelow name bound) ih
  | divide name divisor next ih => exact congrArg (divide name divisor) ih
  | declareValue name value next ih => exact congrArg (declareValue name value) ih
  | declareTotal name next ih => exact congrArg (declareTotal name) ih
  | addTo name value next ih => exact congrArg (addTo name value) ih
  | store array position value next ih => exact congrArg (store array position value) ih

theorem Block.Fits.append {a b : Block} (ha : a.Fits) (hb : b.Fits) : (a.append b).Fits := by
  induction a with
  | done => exact hb
  | declareWord constant name value next ih => exact ⟨ha.1, ih ha.2⟩
  | stopUnlessBelow name bound next ih => exact ih ha
  | divide name divisor next ih => exact ⟨ha.1, ih ha.2⟩
  | declareValue name value next ih => exact ⟨ha.1, ih ha.2⟩
  | declareTotal name next ih => exact ih ha
  | addTo name value next ih => exact ⟨ha.1, ih ha.2⟩
  | loop index bound body next _ ih => exact ⟨ha.1, ha.2.1, ih ha.2.2⟩
  | store array position value next ih => exact ⟨ha.1, ha.2.1, ih ha.2.2⟩

/-! ## Expressions -/

theorem next_le_write (layout : Layout) (n : Node) (next : Nat) :
    next ≤ (write layout n next).next := by
  induction n generalizing next with
  | const v | arg i | load k slots => exact Nat.le_refl next
  | unary op a ih => exact ih next
  | binary op a b iha ihb => exact Nat.le_trans (iha next) (ihb _)
  | select c t o ihc iht iho => exact Nat.le_trans (ihc next) (Nat.le_trans (iht _) (iho _))
  | sum slot body ih => exact Nat.le_trans (Nat.le_succ next) (ih _)

/-- The extents and strides are words. -/
structure Layout.Fits (layout : Layout) : Prop where
  extents : ∀ extent ∈ layout.extents, extent < wordBound
  strides : ∀ strides ∈ layout.strides, ∀ stride ∈ strides, stride < wordBound

theorem getD_lt {l : List Nat} (h : ∀ n ∈ l, n < wordBound) (i : Nat) : l.getD i 0 < wordBound := by
  rw [List.getD_eq_getElem?_getD]
  cases hi : l[i]? with
  | none => exact wordBound_pos
  | some n => exact h n (List.mem_of_getElem? hi)

/-- The numbers in what is written for an expression are words. -/
theorem write_fits {layout : Layout} (h : layout.Fits) (n : Node) (next : Nat) :
    (write layout n next).before.Fits ∧ (write layout n next).value.Fits := by
  induction n generalizing next with
  | const v | arg i => exact ⟨trivial, trivial⟩
  | unary op a ih => exact ih next
  | binary op a b iha ihb =>
    have ha := iha next
    have hb := ihb (write layout a next).next
    exact ⟨ha.1.append hb.1, ha.2, hb.2⟩
  | select c t o ihc iht iho =>
    have hc := ihc next
    have ht := iht (write layout c next).next
    have ho := iho (write layout t (write layout c next).next).next
    exact ⟨(hc.1.append ht.1).append ho.1, hc.2, ht.2, ho.2⟩
  | load k slots =>
    refine ⟨trivial, fun term hterm => ?_⟩
    have hstride := (List.of_mem_zip hterm).2
    rw [List.getD_eq_getElem?_getD] at hstride
    cases hk : layout.strides[k]? with
    | none =>
      rw [hk] at hstride
      cases hstride
    | some strides =>
      rw [hk] at hstride
      exact h.strides strides (List.mem_of_getElem? hk) _ hstride
  | sum slot body ih =>
    have hbody := ih (next + 1)
    exact ⟨⟨getD_lt h.extents slot, hbody.1.append ⟨hbody.2, trivial⟩, trivial⟩, trivial⟩

/-! ## Kernels -/

theorem splitPosition_fits {extents : List Nat} (h : ∀ extent ∈ extents, extent < wordBound)
    {next : Block} (hnext : next.Fits) (slots : List Nat) :
    (splitPosition extents next slots).Fits := by
  induction slots with
  | nil => exact hnext
  | cons slot slots ih => exact ⟨getD_lt h slot, getD_lt h slot, ih⟩

theorem findBlocks_fits {layouts : List CoreLayout} (h : ∀ layout ∈ layouts, layout.size < wordBound)
    {next : Block} (hnext : next.Fits) (k : Nat) : (findBlocks next k layouts).Fits := by
  induction layouts generalizing k with
  | nil => exact hnext
  | cons layout layouts ih =>
    obtain ⟨hlayout, hlayouts⟩ := List.forall_mem_cons.mp h
    refine ⟨?_, ih hlayouts (k + 1)⟩
    split
    · trivial
    · exact hlayout

/-- **The kernel of a call can be read.** -/
theorem read?_coreSource (name : String) (p : Program) {call : BoundCall} (h : call.Fits) :
    OpenCL.read? (coreSource (kernelName name) p call).text =
      some (coreSource (kernelName name) p call).kernel := by
  refine Source.read?_text _ (isWord_kernelName name) ?_
  have hlayout : (⟨call.extents, call.layouts.map (·.strides)⟩ : Layout).Fits := by
    refine ⟨h.extents, fun strides hstrides => ?_⟩
    obtain ⟨layout, hmem, rfl⟩ := List.mem_map.mp hstrides
    exact h.strides layout hmem
  have hcore : Nat.max call.outputCoreSize 1 < wordBound :=
    Nat.max_lt.mpr ⟨h.outputCoreSize, by decide⟩
  have hroot := write_fits hlayout p.root 0
  have hfinish : (finish ⟨call.extents, call.layouts.map (·.strides)⟩ p.root).Fits :=
    hroot.1.append ⟨trivial, hroot.2, trivial⟩
  have hsizes : ∀ layout ∈ call.layouts.take p.inputSlots.length, layout.size < wordBound :=
    fun layout hmem => h.sizes layout (List.mem_of_mem_take hmem)
  exact ⟨trivial, hcore, hcore, splitPosition_fits h.extents (findBlocks_fits hsizes hfinish 0) _⟩

end Device

end ArrayKernels
