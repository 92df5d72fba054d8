import ArrayKernels.Proofs.Parts

/-!
# What lowering guarantees

A call trusts a lowered kernel completely: its checks go through the list of accesses and not
through the tree, and an index table has a place for each dimension and no others. Here is what the
tables of a lowered kernel are in terms of the signature, what can stand in its tree, and that its
list of accesses is what the tree reads.

## Main results

- `Program.Lowers.represents`, `CoreFunction.lower_represents`: the kernel of a core function
  represents the signature that it was lowered for.
-/

namespace ArrayKernels

/-- The tables of the kernel are those of the signature, and its tree keeps to them. -/
structure Program.Represents (p : Program) (s : Signature) : Prop where
  /-- No dimension has two slots. -/
  dims_nodup : p.dims.Nodup
  /-- The dimensions are those of the inputs. -/
  dims_mem : ∀ name, name ∈ p.dims ↔ ∃ group ∈ s.inputs, name ∈ group
  /-- They come in the order in which the inputs first name them. -/
  dims_order : p.dims.Pairwise fun a b => s.inputs.flatten.idxOf a < s.inputs.flatten.idxOf b
  /-- The slots of an input stand for its names. -/
  inputs : p.inputSlots.map (·.map (p.dims[·]?)) = s.inputs.map (·.map some)
  /-- The slots of the output stand for its names. -/
  output : p.outputSlots.map (p.dims[·]?) = s.output.map some
  output_nodup : p.outputSlots.Nodup
  /-- The tree has no scalar arguments. -/
  arguments : ∀ part ∈ p.root.parts, ∀ i, part.node ≠ .arg i
  /-- Its sums are over dimensions. -/
  sums : ∀ part ∈ p.root.parts, ∀ slot body, part.node = .sum slot body → slot < p.dims.length
  /-- It reads inputs, and these at as many slots as they have core dimensions. -/
  operands : ∀ part ∈ p.root.parts, ∀ k slots, part.node = .load k slots →
    ∃ group, s.inputs[k]? = some group ∧ slots.length = group.length
  /-- It reads at the slots of the output and of the sums around the read only. -/
  scopes : ∀ part ∈ p.root.parts, ∀ k slots, part.node = .load k slots →
    ∀ slot ∈ slots, slot ∈ p.outputSlots ∨ slot ∈ part.sums
  /-- The accesses are the reads of the tree, in its order. -/
  accesses : p.accesses = p.root.parts.filterMap fun part => part.node.access?

/-! ## Tables -/

/-- The slots of names stand for these names. -/
theorem map_getElem?_of_slots {dims names : List String} {slots : List Nat}
    (h : List.Forall₂ (fun name slot => slotOf dims name = .ok slot) names slots) :
    slots.map (dims[·]?) = names.map some := by
  induction h with
  | nil => rfl
  | cons hname _ ih => rw [List.map_cons, List.map_cons, getElem?_of_slotOf hname, ih]

theorem map_map_getElem?_of_slots {dims : List String} {groups : List (List String)}
    {slots : List (List Nat)}
    (h : List.Forall₂ (List.Forall₂ fun name slot => slotOf dims name = .ok slot) groups slots) :
    slots.map (·.map (dims[·]?)) = groups.map (·.map some) := by
  induction h with
  | nil => rfl
  | cons hgroup _ ih => rw [List.map_cons, List.map_cons, map_getElem?_of_slots hgroup, ih]

/-! ## Trees -/

namespace Program.Lowers

variable {p : Program} {f : CoreFunction} {s : Signature}

theorem placed (h : p.Lowers f s) :
    ∀ part ∈ p.root.parts, part.Placed p.dims.length p.outputSlots :=
  Node.scoped_iff.mp h.root_scoped

/-- A read of the tree is one of the accesses. -/
theorem mem_accesses (h : p.Lowers f s) {part : Part Nat Node} (hpart : part ∈ p.root.parts)
    {k : Nat} {slots : List Nat} (hload : part.node = .load k slots) : ⟨k, slots⟩ ∈ p.accesses := by
  rw [← h.loads_eq_accesses, Node.loads_eq_filterMap p.root []]
  refine List.mem_filterMap.mpr ⟨part, hpart, ?_⟩
  rw [hload, Node.access?]

/-- **The kernel of a core function represents its signature.** -/
theorem represents (h : p.Lowers f s) (hs : s.WellFormed) : p.Represents s := by
  have hdims : p.dims = s.inputs.flatten.eraseDups := h.dims.trans hs.dimensions_eq
  exact
    { dims_nodup := hdims ▸ nodup_eraseDups _
      dims_mem := fun name => by rw [hdims, List.mem_eraseDups, List.mem_flatten]
      dims_order := hdims ▸ pairwise_eraseDups _
      inputs := map_map_getElem?_of_slots h.inputs
      output := map_getElem?_of_slots h.output
      output_nodup := h.outputSlots_nodup hs
      arguments := fun part hpart i harg => by
        have hplaced := h.placed part hpart
        rw [Part.Placed, harg] at hplaced
        exact hplaced
      sums := fun part hpart slot body hsum => by
        have hplaced := h.placed part hpart
        rw [Part.Placed, hsum] at hplaced
        exact hplaced
      operands := fun part hpart k slots hload => by
        -- lowering has compared the index with the operand when it noted the access
        obtain ⟨declared, hdeclared, hlength⟩ := h.accesses_declared _ (h.mem_accesses hpart hload)
        obtain ⟨group, hgroup, hslots⟩ := forall₂_getElem? h.inputs.flip hdeclared
        exact ⟨group, hgroup, hlength.symm.trans hslots.length_eq.symm⟩
      scopes := fun part hpart k slots hload slot hslot => by
        have hplaced := h.placed part hpart
        rw [Part.Placed, hload] at hplaced
        rcases List.mem_append.mp (hplaced slot hslot) with hsum | houtput
        · exact .inr hsum
        · exact .inl houtput
      accesses := by rw [← h.loads_eq_accesses, Node.loads_eq_filterMap p.root [], Node.parts] }

end Program.Lowers

/-- **Lowering for a signature that has been read gives a kernel that represents it.** -/
theorem CoreFunction.lower_represents {text : String} {s : Signature}
    (hs : Signature.parse text = .ok s) {f : CoreFunction} {p : Program} (hp : f.lower s = .ok p) :
    p.Represents s :=
  (CoreFunction.lowers_of_lower hp).represents (Signature.wellFormed_of_parse hs)

/-- A dimension that two inputs share, one that an input has twice, a sum over an output dimension
inside of a sum over the same one, and a read behind it. -/
theorem CoreFunction.lower_represents_shadowed_sum :
    ∃ s p, Signature.parse "(m,n),(n,p,n)->(p,m)" = .ok s ∧
      CoreFunction.lower ⟨"f", .sum "m" (.select (.sum "m" (.element 0 ["m", "p"]))
        (.element 1 ["p", "m", "m"]) (.const 0))⟩ s = .ok p ∧
      p.dims = ["m", "n", "p"] ∧ p.outputSlots = [2, 0] ∧
      p.accesses = [⟨0, [0, 2]⟩, ⟨1, [2, 0, 0]⟩] ∧ p.Represents s := by
  have hs : Signature.parse "(m,n),(n,p,n)->(p,m)" =
      .ok ⟨[["m", "n"], ["n", "p", "n"]], ["p", "m"]⟩ := by cbv
  have hp : CoreFunction.lower ⟨"f", .sum "m" (.select (.sum "m" (.element 0 ["m", "p"]))
      (.element 1 ["p", "m", "m"]) (.const 0))⟩ ⟨[["m", "n"], ["n", "p", "n"]], ["p", "m"]⟩ =
      .ok ⟨.sum 0 (.select (.sum 0 (.load 0 [0, 2])) (.load 1 [2, 0, 0]) (.const 0)), 0,
        ["m", "n", "p"], [[0, 1], [1, 2, 1]], [2, 0], [⟨0, [0, 2]⟩, ⟨1, [2, 0, 0]⟩]⟩ := rfl
  exact ⟨_, _, hs, hp, rfl, rfl, rfl, lower_represents hs hp⟩

end ArrayKernels
