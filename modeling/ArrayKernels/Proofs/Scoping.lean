import ArrayKernels.Kernel.Lowering
import ArrayKernels.Proofs.SignatureReading
import ArrayKernels.Proofs.Traversal
import Mathlib.Data.List.Induction

/-!
# Scoping

What holds of a core kernel once it has been lowered. Names have become slots one to one. Every
slot that a read uses is bound by the output or by a sum around the read, and the list of accesses,
which binding checks, has every read of the kernel in it. The output of a signature that has been
read names dimensions of its inputs, each of them once.

## Main results

- `pairwise_eraseDups`: dimensions are numbered in the order of their first appearance.
- `Expr.scoped_of_lowerCore`: lowered trees are well scoped, and their accesses are complete.
- `Signature.wellFormed_of_parse`: what reading guarantees about the output.
-/

namespace ArrayKernels

/-! ## Names in the order of their first appearance -/

/-- The names come in the order in which they first appear, and none of them twice. -/
theorem pairwise_eraseDups (names : List String) :
    names.eraseDups.Pairwise fun a b => names.idxOf a < names.idxOf b := by
  -- from the last name on: it comes behind the others, if it has not appeared before
  induction names using List.reverseRec with
  | nil => exact List.Pairwise.nil
  | append_singleton names last ih =>
    rw [List.eraseDups_append, List.pairwise_append]
    refine ⟨ih.imp_of_mem fun {a b} ha hb hlt => ?_, ?_, fun a ha b hb => ?_⟩
    · rw [List.idxOf_append_of_mem (List.mem_eraseDups.mp ha),
        List.idxOf_append_of_mem (List.mem_eraseDups.mp hb)]
      exact hlt
    · by_cases hlast : last ∈ names
      · simp [List.removeAll, hlast]
      · simp [List.removeAll, hlast, List.eraseDups_cons]
    · have hmem : a ∈ names := List.mem_eraseDups.mp ha
      obtain ⟨rfl, hnew⟩ : b = last ∧ last ∉ names := by
        have hb := List.mem_eraseDups.mp hb
        simp [List.removeAll] at hb
        exact ⟨hb.1, hb.1 ▸ hb.2⟩
      rw [List.idxOf_append_of_mem hmem, List.idxOf_append_of_notMem hnew]
      exact Nat.lt_add_right _ (List.idxOf_lt_length_of_mem hmem)

theorem nodup_eraseDups (names : List String) : names.eraseDups.Nodup :=
  (pairwise_eraseDups names).imp fun {_ _} hlt heq =>
    absurd (congrArg names.idxOf heq) (Nat.ne_of_lt hlt)

/-! ## Names and slots -/

theorem slotOf_eq_ok_iff {dims : List String} {name : String} {slot : Nat} :
    slotOf dims name = .ok slot ↔ dims.idxOf? name = some slot := by
  unfold slotOf
  split
  · next h => simp [h]
  · next h => simp [h]

/-- The slot of a name is the place where the name stands. -/
theorem getElem?_of_slotOf {dims : List String} {name : String} {slot : Nat}
    (h : slotOf dims name = .ok slot) : dims[slot]? = some name := by
  obtain ⟨hslot, hname, -⟩ := List.idxOf?_eq_some_iff.mp (slotOf_eq_ok_iff.mp h)
  rw [List.getElem?_eq_getElem hslot, hname]

theorem slotOf_lt {dims : List String} {name : String} {slot : Nat}
    (h : slotOf dims name = .ok slot) : slot < dims.length :=
  (List.getElem?_eq_some_iff.mp (getElem?_of_slotOf h)).1

theorem slotOf_injective {dims : List String} {a b : String} {slot : Nat}
    (ha : slotOf dims a = .ok slot) (hb : slotOf dims b = .ok slot) : a = b :=
  Option.some.inj ((getElem?_of_slotOf ha).symm.trans (getElem?_of_slotOf hb))

/-- The slots of an index are those of its names, and all of them are bound. -/
theorem forall₂_of_resolveIndex {dims : List String} {bound : List Nat} {names : List String}
    {slots : List Nat} (h : resolveIndex dims bound names = .ok slots) :
    List.Forall₂ (fun name slot => slotOf dims name = .ok slot ∧ slot ∈ bound) names slots := by
  induction names generalizing slots with
  | nil =>
    cases h
    exact .nil
  | cons name names ih =>
    obtain ⟨slot, hslot, hrest⟩ := bind_eq_ok_iff.mp h
    split at hrest
    · next hbound =>
      obtain ⟨rest, htail, heq⟩ := bind_eq_ok_iff.mp hrest
      cases heq
      exact .cons ⟨hslot, hbound⟩ (ih htail)
    · cases hrest

/-! ## Well-scoped trees -/

/-- The tree has no arguments, its sums are over slots, and it reads at slots that have a value:
those in `bound` and those of the sums around the read. -/
def Node.Scoped (slotCount : Nat) : (bound : List Nat) → Node → Prop
  | _, const _ => True
  | _, arg _ => False
  | bound, unary _ a => a.Scoped slotCount bound
  | bound, binary _ a b => a.Scoped slotCount bound ∧ b.Scoped slotCount bound
  | bound, select c t o =>
    c.Scoped slotCount bound ∧ t.Scoped slotCount bound ∧ o.Scoped slotCount bound
  | bound, load _ slots => ∀ slot ∈ slots, slot ∈ bound
  | bound, sum slot body => slot < slotCount ∧ body.Scoped slotCount (slot :: bound)

/-- The access has as many slots as its operand has core dimensions. -/
def Access.Declared (inputSlots : List (List Nat)) (access : Access) : Prop :=
  ∃ declared, inputSlots[access.operand]? = some declared ∧ declared.length = access.slots.length

/-- **Lowering checks scopes, and its list of accesses is complete.** -/
theorem Expr.scoped_of_lowerCore {dims : List String} {inputSlots : List (List Nat)}
    {bound : List Nat} {e : Expr} {n : Node} {accesses : List Access}
    (h : e.lowerCore dims inputSlots bound = .ok (n, accesses)) :
    n.Scoped dims.length bound ∧ n.loads = accesses ∧
      ∀ access ∈ accesses, access.Declared inputSlots := by
  -- the slots in scope change at sums only
  induction e generalizing bound n accesses with
  | const v =>
    cases h
    exact ⟨trivial, rfl, by simp⟩
  | arg i => cases h
  | unary op a ih =>
    obtain ⟨⟨a', as⟩, ha, heq⟩ := bind_eq_ok_iff.mp h
    cases heq
    obtain ⟨hscope, hloads, hdecl⟩ := ih ha
    exact ⟨hscope, hloads, hdecl⟩
  | binary op a b iha ihb =>
    obtain ⟨⟨a', as⟩, ha, h⟩ := bind_eq_ok_iff.mp h
    obtain ⟨⟨b', bs⟩, hb, heq⟩ := bind_eq_ok_iff.mp h
    cases heq
    obtain ⟨hscope_a, rfl, hdecl_a⟩ := iha ha
    obtain ⟨hscope_b, rfl, hdecl_b⟩ := ihb hb
    refine ⟨⟨hscope_a, hscope_b⟩, rfl, fun access hmem => ?_⟩
    rcases List.mem_append.mp hmem with hmem | hmem
    · exact hdecl_a access hmem
    · exact hdecl_b access hmem
  | select c t o ihc iht iho =>
    obtain ⟨⟨c', cs⟩, hc, h⟩ := bind_eq_ok_iff.mp h
    obtain ⟨⟨t', ts⟩, ht, h⟩ := bind_eq_ok_iff.mp h
    obtain ⟨⟨o', os⟩, ho, heq⟩ := bind_eq_ok_iff.mp h
    cases heq
    obtain ⟨hscope_c, rfl, hdecl_c⟩ := ihc hc
    obtain ⟨hscope_t, rfl, hdecl_t⟩ := iht ht
    obtain ⟨hscope_o, rfl, hdecl_o⟩ := iho ho
    refine ⟨⟨hscope_c, hscope_t, hscope_o⟩, rfl, fun access hmem => ?_⟩
    rcases List.mem_append.mp hmem with hmem | hmem
    · rcases List.mem_append.mp hmem with hmem | hmem
      · exact hdecl_c access hmem
      · exact hdecl_t access hmem
    · exact hdecl_o access hmem
  | element k names =>
    simp only [lowerCore] at h
    split at h
    · cases h
    · next declared hdeclared =>
      split at h
      · next hrank =>
        obtain ⟨slots, hslots, heq⟩ := bind_eq_ok_iff.mp h
        cases heq
        -- resolving has found every slot among those in scope
        have hnames := forall₂_of_resolveIndex hslots
        refine ⟨fun slot hmem => ?_, rfl, fun access hmem => ?_⟩
        · obtain ⟨name, -, -, hbound⟩ := exists_of_mem_right hnames hmem
          exact hbound
        · rw [List.mem_singleton.mp hmem]
          exact ⟨declared, hdeclared, hrank.trans hnames.length_eq⟩
      · cases h
  | sum dim body ih =>
    obtain ⟨slot, hslot, h⟩ := bind_eq_ok_iff.mp h
    obtain ⟨⟨body', reads⟩, hbody, heq⟩ := bind_eq_ok_iff.mp h
    cases heq
    obtain ⟨hscope, hloads, hdecl⟩ := ih hbody
    exact ⟨⟨slotOf_lt hslot, hscope⟩, hloads, hdecl⟩

/-! ## Signatures that have been read -/

/-- The output names dimensions of the inputs, each of them once. -/
structure Signature.WellFormed (s : Signature) : Prop where
  declared : ∀ name ∈ s.output, name ∈ s.inputs.flatten
  nodup : s.output.Nodup

/-- **Reading a signature checks its output.** -/
theorem Signature.wellFormed_of_parse {text : String} {s : Signature} (h : parse text = .ok s) :
    s.WellFormed := by
  obtain ⟨_, _, -, -, -, hallowed⟩ := parse_eq_ok_iff.mp h
  exact ⟨fun name hname => List.mem_flatten.mpr (hallowed.declared name hname), hallowed.nodup⟩

/-- The output adds no dimensions to those of the inputs. -/
theorem Signature.WellFormed.dimensions_eq {s : Signature} (h : s.WellFormed) :
    s.dimensions = s.inputs.flatten.eraseDups := by
  have hnone : s.output.removeAll s.inputs.flatten = [] := by
    refine List.filter_eq_nil_iff.mpr fun name hname => ?_
    simp [h.declared name hname]
  rw [dimensions, occurrences, List.eraseDups_append, hnone, List.eraseDups_nil, List.append_nil]

/-- Every dimension of the signature is a dimension of an input. -/
theorem Signature.WellFormed.mem_inputs {s : Signature} (h : s.WellFormed) {name : String}
    (hname : name ∈ s.dimensions) : name ∈ s.inputs.flatten := by
  rw [h.dimensions_eq] at hname
  exact List.mem_eraseDups.mp hname

/-! ## Lowered core functions -/

/-- The program is what a core function of that signature is lowered to. -/
structure Program.Lowers (p : Program) (f : CoreFunction) (s : Signature) : Prop where
  dims : p.dims = s.dimensions
  inputs :
    List.Forall₂ (List.Forall₂ fun name slot => slotOf p.dims name = .ok slot) s.inputs p.inputSlots
  output : List.Forall₂ (fun name slot => slotOf p.dims name = .ok slot) s.output p.outputSlots
  root : f.body.lowerCore p.dims p.inputSlots p.outputSlots = .ok (p.root, p.accesses)

theorem CoreFunction.lowers_of_lower {f : CoreFunction} {s : Signature} {p : Program}
    (h : f.lower s = .ok p) : p.Lowers f s := by
  obtain ⟨inputSlots, hinputs, h⟩ := bind_eq_ok_iff.mp h
  obtain ⟨outputSlots, houtput, h⟩ := bind_eq_ok_iff.mp h
  obtain ⟨⟨root, accesses⟩, hroot, heq⟩ := bind_eq_ok_iff.mp h
  cases heq
  exact
    { dims := rfl
      inputs := (mapM_eq_ok_iff.mp hinputs).imp fun _ _ hgroup => mapM_eq_ok_iff.mp hgroup
      output := mapM_eq_ok_iff.mp houtput
      root := hroot }

namespace Program.Lowers

variable {p : Program} {f : CoreFunction} {s : Signature}

/-- The slots of inputs are positions in the table of dimensions. -/
theorem inputSlots_lt (h : p.Lowers f s) :
    ∀ slots ∈ p.inputSlots, ∀ slot ∈ slots, slot < p.dims.length := by
  intro slots hslots slot hslot
  obtain ⟨group, -, hgroup⟩ := exists_of_mem_right h.inputs hslots
  obtain ⟨name, -, hname⟩ := exists_of_mem_right hgroup hslot
  exact slotOf_lt hname

theorem outputSlots_lt (h : p.Lowers f s) : ∀ slot ∈ p.outputSlots, slot < p.dims.length := by
  intro slot hslot
  obtain ⟨name, -, hname⟩ := exists_of_mem_right h.output hslot
  exact slotOf_lt hname

/-- No slot occurs twice in the output. -/
theorem outputSlots_nodup (h : p.Lowers f s) (hs : s.WellFormed) : p.outputSlots.Nodup := by
  have hnodup := hs.nodup
  have houtput := h.output
  generalize s.output = names at hnodup houtput
  generalize p.outputSlots = slots at houtput
  induction houtput with
  | nil => exact List.nodup_nil
  | @cons name slot names slots hname hrest ih =>
    obtain ⟨hfresh, hnames⟩ := List.nodup_cons.mp hnodup
    -- a slot that occurred again would belong to a name that occurs again
    refine List.nodup_cons.mpr ⟨fun hmem => ?_, ih hnames⟩
    obtain ⟨other, hother, hslot⟩ := exists_of_mem_right hrest hmem
    exact hfresh (slotOf_injective hname hslot ▸ hother)

theorem root_scoped (h : p.Lowers f s) : p.root.Scoped p.dims.length p.outputSlots :=
  (Expr.scoped_of_lowerCore h.root).1

/-- The list of accesses has every read of the kernel in it, and nothing else. -/
theorem loads_eq_accesses (h : p.Lowers f s) : p.root.loads = p.accesses :=
  (Expr.scoped_of_lowerCore h.root).2.1

theorem accesses_declared (h : p.Lowers f s) :
    ∀ access ∈ p.accesses, access.Declared p.inputSlots :=
  (Expr.scoped_of_lowerCore h.root).2.2

end Program.Lowers

end ArrayKernels
