import ArrayKernels.Proofs.OpenCL.WrittenValues
import ArrayKernels.Proofs.ReadSafety

/-!
# Statements of a kernel's block

What the statements do that stand in front of the expression in the block of a kernel. There is one
frame, and it is described by what it gives to names. A statement leads from a block and a
description to the block that follows it and another description.

## Main results

- `reaches_splitPosition`: the indices of the output get the multi-index of the position.
- `reaches_findBlocks`: every input gets the start of its core block.
- `reaches_expression`: both of these, after the words with which every kernel starts.
- `exec_finish`: the value of the expression is stored in the result.
- `Source.run_eq`: what a work item makes of its arguments.
-/

namespace ArrayKernels.Device

open OpenCL

/-! ## Descriptions of a frame -/

/-- What names mean. -/
abbrev Store := Name → Option Variable

/-- The frame has those variables. -/
def Holds (frame : Frame) (store : Store) : Prop := ∀ name : Name, frame.lookup name.spell = store name

namespace Holds

variable {frame : Frame} {store : Store} {name : Name}

theorem nil : Holds [] fun _ => none := fun _ => rfl

theorem declare (h : Holds frame store) (name : Name) (v : Variable) :
    Holds ((name.spell, v) :: frame) (Function.update store name (some v)) := by
  intro other
  rw [Name.lookup_cons, h other, Function.update_apply]

theorem assign {old : Content} (h : Holds frame store) (hold : store name = some ⟨false, old⟩)
    (content : Content) :
    Holds (frame.set name.spell content) (Function.update store name (some ⟨false, content⟩)) := by
  intro other
  rw [Function.update_apply]
  by_cases hname : other = name
  · rw [if_pos hname, hname, Frame.lookup_set_self ((h name).trans hold)]
  · have hspell : other.spell ≠ name.spell := fun heq => hname (Name.spell_injective heq)
    rw [if_neg hname, Frame.lookup_set_ne hspell, h other]

theorem find?_eq (h : Holds frame store) (name : Name) : find? [frame] name.spell = store name := by
  rw [find?_cons, h name]
  exact Option.or_none

end Holds

/-! ## Positions -/

section Steps

variable {number : List Char → Option Float} {gid : Nat} {store : Store} {frame : Frame}
  {name : Name} {next : Block}

/-- The value of a position for a store: what a variable of that value is given. -/
def WordValue (number : List Char → Option Float) (gid : Nat) (store : Store) (value : Word)
    (n : Nat) : Prop :=
  ∀ frame, Holds frame store →
    (eval? number gid [frame] value.term).bind Kind.ulong.convert? = some (.word n)

namespace WordValue

theorem globalId : WordValue number gid store .globalId gid := fun _ _ => rfl

theorem zero : WordValue number gid store .zero 0 := fun _ _ => rfl

theorem quotient {constant : Bool} {n divisor : Nat} (hname : store name = some ⟨constant, .word n⟩)
    (hdivisor : divisor ≠ 0) : WordValue number gid store (.quotient name divisor) (n / divisor) := by
  intro frame hframe
  simp only [Word.term, eval?, hframe.find?_eq, hname, Content.scalar?, combine?, if_neg hdivisor,
    Option.bind_eq_bind, Option.bind_some]
  rfl

theorem remainder {constant : Bool} {n divisor : Nat} (hname : store name = some ⟨constant, .word n⟩)
    (hdivisor : divisor ≠ 0) :
    WordValue number gid store (.remainder name divisor) (n % divisor) := by
  intro frame hframe
  simp only [Word.term, eval?, hframe.find?_eq, hname, Content.scalar?, combine?, if_neg hdivisor,
    Option.bind_eq_bind, Option.bind_some]
  rfl

theorem times {constant : Bool} {n factor : Nat} (hname : store name = some ⟨constant, .word n⟩)
    (hword : n * factor < wordBound) :
    WordValue number gid store (.times name factor) (n * factor) := by
  intro frame hframe
  simp only [Word.term, eval?, hframe.find?_eq, hname, Content.scalar?, combine?,
    Nat.mod_eq_of_lt hword, Option.bind_eq_bind, Option.bind_some]
  rfl

end WordValue

/-! ## Statements -/

/-- Whatever the frame is that has the variables of the first store, the statements of the first
block lead to those of the second one and to a frame with the variables of the second store. -/
def Reaches (number : List Char → Option Float) (gid : Nat) (block : Block) (store : Store)
    (block' : Block) (store' : Store) : Prop :=
  ∀ frame, Holds frame store → ∃ frame', Holds frame' store' ∧
    exec number gid block.code [frame] = exec number gid block'.code [frame']

namespace Reaches

variable {block block' block'' : Block} {store' store'' : Store}

theorem refl (block : Block) (store : Store) : Reaches number gid block store block store :=
  fun frame hframe => ⟨frame, hframe, rfl⟩

theorem trans (h : Reaches number gid block store block' store')
    (h' : Reaches number gid block' store' block'' store'') :
    Reaches number gid block store block'' store'' := by
  intro frame hframe
  obtain ⟨frame', hframe', hexec⟩ := h frame hframe
  obtain ⟨frame'', hframe'', hexec'⟩ := h' frame' hframe'
  exact ⟨frame'', hframe'', hexec.trans hexec'⟩

theorem declareWord {constant : Bool} {value : Word} {n : Nat} (hnew : store name = none)
    (hvalue : WordValue number gid store value n) :
    Reaches number gid (.declareWord constant name value next) store next
      (Function.update store name (some ⟨constant, .word n⟩)) := by
  intro frame hframe
  refine ⟨_, hframe.declare name ⟨constant, .word n⟩, ?_⟩
  obtain ⟨scalar, hscalar, hconvert⟩ := Option.bind_eq_some_iff.mp (hvalue frame hframe)
  rw [Block.code, exec]
  simp only [hscalar, hconvert, declare?_eq ((hframe name).trans hnew), Option.bind_eq_bind,
    Option.bind_some]

theorem divide {n divisor : Nat} (hname : store name = some ⟨false, .word n⟩)
    (hdivisor : divisor ≠ 0) :
    Reaches number gid (.divide name divisor next) store next
      (Function.update store name (some ⟨false, .word (n / divisor)⟩)) := by
  intro frame hframe
  refine ⟨_, hframe.assign hname (.word (n / divisor)), ?_⟩
  rw [Block.code, exec]
  simp only [hframe.find?_eq, hname, eval?, Content.scalar?, combine?, if_neg hdivisor,
    Content.kind?, Kind.convert?, assign?_head ((hframe name).trans hname), Option.bind_eq_bind,
    Option.bind_some]

/-- A work item inside the bound goes on. -/
theorem stopUnlessBelow {bound : Name} {constant constant' : Bool} {n m : Nat}
    (hname : store name = some ⟨constant, .word n⟩)
    (hbound : store bound = some ⟨constant', .word m⟩) (hlt : n < m) :
    Reaches number gid (.stopUnlessBelow name bound next) store next store := by
  intro frame hframe
  refine ⟨frame, hframe, ?_⟩
  have hcond : (comparison (decide (m ≤ n))).holds? = some false := by
    rw [comparison_holds?, decide_eq_false (Nat.not_le.mpr hlt)]
  rw [Block.code, exec]
  simp only [eval?, hframe.find?_eq, hname, hbound, Content.scalar?, combine?, hcond,
    Option.bind_eq_bind, Option.bind_some, Bool.false_eq_true, if_false]

end Reaches

/-! ## The indices of the output -/

/-- The last index is the remainder, and the others are those of the quotient. -/
theorem unrank_concat (shape : Shape) (extent position : Nat) :
    unrank (shape ++ [extent]) position = unrank shape (position / extent) ++ [position % extent] := by
  induction shape with
  | nil => simp [unrank]
  | cons first inner ih =>
    have hquotient : position / (inner ++ [extent]).prod = position / extent / inner.prod := by
      rw [List.prod_append, List.prod_singleton, Nat.div_div_eq_div_mul, Nat.mul_comm]
    rw [List.cons_append, unrank, unrank, ih, hquotient]
    rfl

variable (number gid next) in
/-- **Splitting the position gives the slots its multi-index**, and no other variable changes but
the one that holds what is left. -/
theorem reaches_splitPosition {extents slots : List Nat} {position : Nat}
    (hrest : store .rest = some ⟨false, .word position⟩) (hnodup : slots.Nodup)
    (hnew : ∀ slot ∈ slots, store (.index slot) = none)
    (hpos : ∀ slot ∈ slots, extents.getD slot 0 ≠ 0) :
    ∃ store', Reaches number gid (splitPosition extents next slots) store next store' ∧
      (∀ name, name ≠ .rest → (∀ slot ∈ slots, name ≠ .index slot) → store' name = store name) ∧
        List.Forall₂ (fun slot i => store' (.index slot) = some ⟨true, .word i⟩) slots.reverse
          (unrank (slots.reverse.map (extents.getD · 0)) position) := by
  induction slots generalizing store position with
  | nil => exact ⟨store, .refl _ _, fun _ _ _ => rfl, .nil⟩
  | cons slot slots ih =>
    obtain ⟨hslot, hnodup⟩ := List.nodup_cons.mp hnodup
    obtain ⟨hslotNew, hnew⟩ := List.forall_mem_cons.mp hnew
    obtain ⟨hextent, hpos⟩ := List.forall_mem_cons.mp hpos
    let extent := extents.getD slot 0
    let declared := Function.update store (.index slot) (some ⟨true, .word (position % extent)⟩)
    let divided := Function.update declared .rest (some ⟨false, .word (position / extent)⟩)
    have hrest' : declared .rest = some ⟨false, .word position⟩ := by
      rw [← hrest]
      exact Function.update_of_ne (by intro h; cases h) _ _
    -- the slots that are still to come have another name than this one
    have hnew' : ∀ other ∈ slots, divided (.index other) = none := by
      intro other hother
      have hne : Name.index other ≠ .index slot := by
        intro heq
        cases heq
        exact hslot hother
      rw [← hnew other hother]
      exact (Function.update_of_ne (by intro h; cases h) _ _).trans (Function.update_of_ne hne _ _)
    have hleft : divided .rest = some ⟨false, .word (position / extent)⟩ := Function.update_self ..
    -- the last slot of the multi-index gets the remainder, the others those of the quotient
    obtain ⟨store', hreaches, hother, hindices⟩ := ih hleft hnodup hnew' hpos
    refine ⟨store', ?_, fun name hname hindex => ?_, ?_⟩
    · exact (Reaches.declareWord hslotNew (.remainder hrest hextent)).trans
        ((Reaches.divide hrest' hextent).trans hreaches)
    · obtain ⟨hne, hindex⟩ := List.forall_mem_cons.mp hindex
      rw [hother name hname hindex]
      exact (Function.update_of_ne hname _ _).trans (Function.update_of_ne hne _ _)
    · rw [List.reverse_cons, List.map_append, List.map_singleton, unrank_concat]
      refine List.rel_append hindices (.cons ?_ .nil)
      rw [hother _ (by intro h; cases h) (fun other hmem heq => by cases heq; exact hslot hmem)]
      exact (Function.update_of_ne (by intro h; cases h) _ _).trans (Function.update_self ..)

/-! ## The core blocks -/

variable (number gid next) in
/-- **Finding the blocks gives every input the start of its core block**, and no other variable
changes. -/
theorem reaches_findBlocks {layouts : List CoreLayout} {k iteration : Nat}
    (hiteration : store .iteration = some ⟨true, .word iteration⟩)
    (hnew : ∀ j, k ≤ j → store (.base j) = none)
    (hword : ∀ layout ∈ layouts, layout.start iteration < wordBound) :
    ∃ store', Reaches number gid (findBlocks next k layouts) store next store' ∧
      (∀ name, (∀ j, k ≤ j → name ≠ .base j) → store' name = store name) ∧
        ∀ i layout, layouts[i]? = some layout →
          store' (.base (k + i)) = some ⟨true, .word (layout.start iteration)⟩ := by
  induction layouts generalizing store k with
  | nil => exact ⟨store, .refl _ _, fun _ _ => rfl, fun i layout h => by cases h⟩
  | cons layout layouts ih =>
    obtain ⟨hstart, hword⟩ := List.forall_mem_cons.mp hword
    have hvalue : WordValue number gid store
        (if layout.shared then .zero else .times .iteration layout.size) (layout.start iteration) := by
      rw [CoreLayout.start] at hstart ⊢
      split
      · exact .zero
      · next hshared =>
        rw [if_neg hshared] at hstart
        exact .times hiteration hstart
    let declared := Function.update store (.base k)
      (some (⟨true, .word (layout.start iteration)⟩ : Variable))
    have hother' : ∀ name, name ≠ .base k → declared name = store name :=
      fun name hname => Function.update_of_ne hname _ _
    have hnew' : ∀ j, k + 1 ≤ j → declared (.base j) = none := by
      intro j hj
      rw [hother' _ (by intro h; cases h; omega)]
      exact hnew j (by omega)
    have hiteration' : declared .iteration = some ⟨true, .word iteration⟩ :=
      (hother' _ (by intro h; cases h)).trans hiteration
    obtain ⟨store', hreaches, hother, hstarts⟩ := ih hiteration' hnew' hword
    refine ⟨store', (Reaches.declareWord (hnew k (Nat.le_refl k)) hvalue).trans hreaches,
      fun name hname => ?_, fun i other hi => ?_⟩
    · rw [hother name fun j hj => hname j (by omega), hother' name (hname k (Nat.le_refl k))]
    · cases i with
      | zero =>
        obtain rfl : layout = other := Option.some.inj hi
        rw [Nat.add_zero, hother _ fun j hj heq => by cases heq; omega]
        exact Function.update_self ..
      | succ i =>
        rw [← Nat.add_assoc, Nat.add_right_comm]
        exact hstarts i other hi

/-- The names that are declared in front of the expression. -/
def Name.OfPosition : Name → Prop
  | .gid | .iteration | .rest | .base _ | .index _ => True
  | .count | .out | .column _ | .scalar _ | .input _ | .total _ => False

variable (number gid) in
/-- Every kernel of a core program starts with the number of the work item, the iteration that it
belongs to, and its position in the core block. -/
theorem reaches_start {core count : Nat} (hcount : store .count = some ⟨true, .word count⟩)
    (hgid : gid < count) (hcore : core ≠ 0)
    (hnew : ∀ name : Name, name.OfPosition → store name = none) :
    ∃ store', (∀ next, Reaches number gid
        (start (.declareWord true .iteration (.quotient .gid core)
          (.declareWord false .rest (.remainder .gid core) next))) store next store') ∧
      store' .gid = some ⟨true, .word gid⟩ ∧
      store' .iteration = some ⟨true, .word (gid / core)⟩ ∧
      store' .rest = some ⟨false, .word (gid % core)⟩ ∧
      ∀ name : Name, name ≠ .gid → name ≠ .iteration → name ≠ .rest → store' name = store name := by
  let numbered := Function.update store .gid (some ⟨true, .word gid⟩)
  let iterated := Function.update numbered .iteration (some ⟨true, .word (gid / core)⟩)
  let started := Function.update iterated .rest (some ⟨false, .word (gid % core)⟩)
  have hnumbered : numbered .gid = some ⟨true, .word gid⟩ := Function.update_self ..
  have hiterated : iterated .gid = some ⟨true, .word gid⟩ := by simp [iterated, hnumbered]
  have hbound : numbered .count = some ⟨true, .word count⟩ := by simp [numbered, hcount]
  have hiteration : numbered .iteration = none := by simp [numbered, hnew .iteration trivial]
  have hrest : iterated .rest = none := by simp [iterated, numbered, hnew .rest trivial]
  refine ⟨started, fun next => ?_, ?_, ?_, Function.update_self .., fun name hname hname' hname'' => ?_⟩
  · apply (Reaches.declareWord (hnew .gid trivial) .globalId).trans
    apply (Reaches.stopUnlessBelow hnumbered hbound hgid).trans
    apply (Reaches.declareWord hiteration (.quotient hnumbered hcore)).trans
    exact .declareWord hrest (.remainder hiterated hcore)
  · simp [started, hiterated]
  · simp [started, iterated]
  · simp [started, iterated, numbered, hname, hname', hname'']

variable (number gid next) in
/-- **The statements in front of the expression** find the iteration and the multi-index of the work
item, and the core blocks of the iteration. -/
theorem reaches_expression {extents slots : List Nat} {layouts : List CoreLayout} {core count : Nat}
    (hcount : store .count = some ⟨true, .word count⟩) (hgid : gid < count) (hcore : core ≠ 0)
    (hnew : ∀ name : Name, name.OfPosition → store name = none) (hnodup : slots.Nodup)
    (hpos : ∀ slot ∈ slots, extents.getD slot 0 ≠ 0)
    (hword : ∀ layout ∈ layouts, layout.start (gid / core) < wordBound) :
    ∃ store', Reaches number gid
        (start (.declareWord true .iteration (.quotient .gid core)
          (.declareWord false .rest (.remainder .gid core)
            (splitPosition extents (findBlocks next 0 layouts) slots.reverse)))) store next store' ∧
      (∀ name : Name, ¬name.OfPosition → store' name = store name) ∧
      store' .gid = some ⟨true, .word gid⟩ ∧
      List.Forall₂ (fun slot i => store' (.index slot) = some ⟨true, .word i⟩) slots
        (unrank (slots.map (extents.getD · 0)) (gid % core)) ∧
      ∀ k layout, layouts[k]? = some layout →
        store' (.base k) = some ⟨true, .word (layout.start (gid / core))⟩ := by
  obtain ⟨started, hstart, hnumber, hiteration, hrest, hstarted⟩ :=
    reaches_start number gid hcount hgid hcore hnew
  have hnewIndex : ∀ slot ∈ slots.reverse, started (.index slot) = none := by
    intro slot _
    rw [hstarted (.index slot) (by simp) (by simp) (by simp)]
    exact hnew (.index slot) trivial
  -- the indices come next, and then the blocks
  obtain ⟨split, hsplit, hkept, hindices⟩ := reaches_splitPosition number gid
    (findBlocks next 0 layouts) hrest (List.nodup_reverse.mpr hnodup) hnewIndex
    (fun slot hslot => hpos slot (List.mem_reverse.mp hslot))
  rw [List.reverse_reverse] at hindices
  have hiteration' : split .iteration = some ⟨true, .word (gid / core)⟩ := by
    rw [hkept .iteration (by simp) (by simp), hiteration]
  have hnewBase : ∀ k, 0 ≤ k → split (.base k) = none := by
    intro k _
    rw [hkept (.base k) (by simp) (by simp), hstarted (.base k) (by simp) (by simp) (by simp)]
    exact hnew (.base k) trivial
  obtain ⟨store', hfind, hkept', hblocks⟩ :=
    reaches_findBlocks number gid next hiteration' hnewBase hword
  refine ⟨store', (hstart _).trans (hsplit.trans hfind), fun name hname => ?_, ?_, ?_,
    fun k layout hlayout => ?_⟩
  · rw [hkept' name (by rintro k - rfl; exact hname trivial),
      hkept name (by rintro rfl; exact hname trivial) (by rintro slot - rfl; exact hname trivial)]
    exact hstarted name (by rintro rfl; exact hname trivial) (by rintro rfl; exact hname trivial)
      (by rintro rfl; exact hname trivial)
  · rw [hkept' .gid (by simp), hkept .gid (by simp) (by simp), hnumber]
  · refine hindices.imp fun slot i hindex => ?_
    rw [hkept' (.index slot) (by simp), hindex]
  · rw [← hblocks k layout hlayout, Nat.zero_add]

/-! ## The expression -/

/-- What an expression may use, from what names mean. -/
theorem Holds.view {arrays : List (Array Float)} {starts bound : List Nat} {index : IndexTable}
    (h : Holds frame store)
    (harray : ∀ k data, arrays[k]? = some data → store (.input k) = some ⟨true, .array data⟩)
    (hstart : ∀ k first, starts[k]? = some first → store (.base k) = some ⟨true, .word first⟩)
    (hindex : ∀ slot ∈ bound, ∃ i, index[slot]? = some i ∧
      store (.index slot) = some ⟨true, .word i⟩) :
    View arrays starts bound index [frame] where
  array k data hdata := ⟨true, (h.find?_eq (.input k)).trans (harray k data hdata)⟩
  start k first hfirst := ⟨true, (h.find?_eq (.base k)).trans (hstart k first hfirst)⟩
  index slot hslot := by
    obtain ⟨i, hi, hname⟩ := hindex slot hslot
    exact ⟨true, i, hi, (h.find?_eq (.index slot)).trans hname⟩

/-- **The end of a kernel** stores the value of the expression in the result, and changes no other
variable. -/
theorem exec_finish {env : Env} {strides : List (List Nat)} {arrays : List (Array Float)}
    {starts bound : List Nat} {index : IndexTable} {n : Node} (hnumber : Denotes number n)
    (hextents : ∀ extent ∈ env.extents, extent < wordBound)
    (hscoped : n.Scoped env.extents.length bound)
    (hsafe : n.Safe (Supplied arrays starts strides env) env index) (hframe : Holds frame store)
    (hview : View arrays starts bound index [frame]) (htotal : ∀ k, store (.total k) = none)
    (hgid : store .gid = some ⟨true, .word gid⟩) {out : Array Float}
    (hout : store .out = some ⟨false, .array out⟩) (hlt : gid < out.size) :
    ∃ frame', exec number gid (finish ⟨env.extents, strides⟩ n).code [frame] =
        some ([frame'], false) ∧
      frame'.lookup Name.out.spell =
        some ⟨false, .array (out.setIfInBounds gid (n.denote env index))⟩ ∧
      ∀ name : Name, name ≠ .out → (∀ k, name ≠ .total k) → frame'.lookup name.spell = store name := by
  have hfresh : ∀ k, 0 ≤ k → frame.lookup (Name.total k).spell = none := fun k _ =>
    (hframe (.total k)).trans (htotal k)
  obtain ⟨totals, hruns, hvalue⟩ := exec_write gid hnumber.zero hnumber.one hextents
    hnumber.literal hscoped hsafe hview hfresh
  have hx := hvalue _ (Nat.le_refl _) [] .nil
  rw [List.nil_append] at hx
  -- running totals hide no other variable
  have hlookup : ∀ name : Name, (∀ k, name ≠ .total k) →
      (totals ++ frame).lookup name.spell = store name := by
    intro name hname
    have hnone := hruns.declares.lookup_eq_none fun k _ _ => hname k
    rw [List.lookup_append, hnone, Option.none_or]
    exact hframe name
  have hfind : ∀ name : Name, (∀ k, name ≠ .total k) →
      find? [totals ++ frame] name.spell = store name := by
    intro name hname
    rw [find?_cons, hlookup name hname]
    exact Option.or_none
  have hlookupOut := (hlookup .out (by simp)).trans hout
  -- the store is the last statement, and it hits the result
  refine ⟨_, ?_, Frame.lookup_set_self hlookupOut _, fun name hname htotals => ?_⟩
  · rw [finish, hruns.exec_eq, Block.code, exec]
    simp only [hfind .out (by simp), hout, Content.array?, Word.term, eval?, hfind .gid (by simp),
      hgid, Content.scalar?, Scalar.position?, hx, Kind.convert?, hlt, if_true,
      assign?_head hlookupOut, Option.bind_eq_bind, Option.bind_some]
    rfl
  · have hspell : name.spell ≠ Name.out.spell := fun heq => hname (Name.spell_injective heq)
    rw [Frame.lookup_set_ne hspell, hlookup name htotals]

end Steps

/-! ## Parameters -/

/-- Arrays that are only read become variables one after the other. -/
theorem bindArguments_sources {names : List Name} {arrays : List (Array Float)}
    (hlength : names.length = arrays.length) (hnodup : names.Nodup) {frame : Frame} {store : Store}
    (hframe : Holds frame store) (hnew : ∀ name ∈ names, store name = none)
    (parameters : List Parameter) (arguments : List Content) :
    ∃ frame' store', Holds frame' store' ∧
      bindArguments (names.map (fun name => ⟨.source, name.spell⟩) ++ parameters)
          (arrays.map Content.array ++ arguments) [frame] =
        bindArguments parameters arguments [frame'] ∧
      (∀ (i : Nat) (name : Name) (data : Array Float), names[i]? = some name → arrays[i]? = some data →
        store' name = some ⟨true, .array data⟩) ∧
      ∀ name, name ∉ names → store' name = store name := by
  induction names generalizing arrays frame store with
  | nil =>
    obtain rfl : arrays = [] := List.length_eq_zero_iff.mp hlength.symm
    exact ⟨frame, store, hframe, rfl, fun _ _ _ h _ => (by cases h), fun _ _ => rfl⟩
  | cons name names ih =>
    cases arrays with
    | nil => cases hlength
    | cons data arrays =>
      obtain ⟨hname, hnodup⟩ := List.nodup_cons.mp hnodup
      obtain ⟨hnameNew, hnew⟩ := List.forall_mem_cons.mp hnew
      have hne : ∀ other ∈ names, other ≠ name := by
        rintro other hother rfl
        exact hname hother
      obtain ⟨frame', store', hframe', hbind, hvalues, hothers⟩ :=
        ih (Nat.succ.inj hlength) hnodup (hframe.declare name ⟨true, .array data⟩)
          (fun other hother =>
            (Function.update_of_ne (hne other hother) _ _).trans (hnew other hother))
      refine ⟨frame', store', hframe', ?_, fun i other block hi hblock => ?_, fun other hother => ?_⟩
      · rw [← hbind]
        simp only [List.map_cons, List.cons_append, bindArguments, Parameter.variable?,
          declare?_eq ((hframe name).trans hnameNew), Option.bind_eq_bind, Option.bind_some]
      · cases i with
        | zero =>
          obtain rfl : name = other := Option.some.inj hi
          obtain rfl : data = block := Option.some.inj hblock
          rw [hothers name hname]
          exact Function.update_self ..
        | succ i => exact hvalues i other block hi hblock
      · rw [List.mem_cons, not_or] at hother
        rw [hothers other hother.2]
        exact Function.update_of_ne hother.1 _ _

/-- What the variables are when a kernel starts: the arrays, the result and the number of elements.
No other name has a variable. -/
structure Source.Enters (s : Source) (arrays : List (Array Float)) (out : Array Float) (count : Nat)
    (store : Store) : Prop where
  array : ∀ (i : Nat) (name : Name) (data : Array Float), s.arrays[i]? = some name →
    arrays[i]? = some data → store name = some ⟨true, .array data⟩
  out : store .out = some ⟨false, .array out⟩
  count : store .count = some ⟨true, .word count⟩
  other : ∀ name, name ∉ s.arrays → name ≠ .out → name ≠ .count → store name = none

/-- **The parameters become variables**, each under its own name. -/
theorem bindArguments_parameters {s : Source} {arrays : List (Array Float)}
    (hlength : s.arrays.length = arrays.length) (hnodup : (s.arrays ++ [Name.out, Name.count]).Nodup)
    (out : Array Float) (count : Nat) :
    ∃ frame store, Holds frame store ∧ s.Enters arrays out count store ∧
      bindArguments s.parameters (arrays.map Content.array ++ [.array out, .word count]) [[]] =
        some [frame] := by
  obtain ⟨harrays, -, hapart⟩ := List.nodup_append.mp hnodup
  have hout : Name.out ∉ s.arrays := fun h => hapart _ h Name.out (by simp) rfl
  have hcount : Name.count ∉ s.arrays := fun h => hapart _ h Name.count (by simp) rfl
  obtain ⟨frame, store, hframe, hbind, hvalues, hothers⟩ := bindArguments_sources hlength harrays
    .nil (fun _ _ => rfl) [⟨.target, Name.out.spell⟩, ⟨.word, Name.count.spell⟩]
    [.array out, .word count]
  have hframe' := (hframe.declare .out ⟨false, .array out⟩).declare .count ⟨true, .word count⟩
  refine ⟨_, _, hframe', ⟨fun i name data hi hdata => ?_, ?_, ?_, fun name hname hne hne' => ?_⟩, ?_⟩
  · have hmem := List.mem_of_getElem? hi
    have hne : name ≠ .count := fun heq => hcount (heq ▸ hmem)
    have hne' : name ≠ .out := fun heq => hout (heq ▸ hmem)
    rw [Function.update_of_ne hne, Function.update_of_ne hne']
    exact hvalues i name data hi hdata
  · rw [Function.update_of_ne (by simp), Function.update_self]
  · rw [Function.update_self]
  · rw [Function.update_of_ne hne', Function.update_of_ne hne, hothers name hname]
  · have hnew : frame.lookup Name.out.spell = none := (hframe .out).trans (hothers .out hout)
    have hnew' : List.lookup Name.count.spell
        ((Name.out.spell, ⟨false, Content.array out⟩) :: frame) = (none : Option Variable) := by
      rw [Name.lookup_cons, if_neg (by simp)]
      exact (hframe .count).trans (hothers .count hcount)
    rw [Source.parameters, hbind]
    simp only [bindArguments, Parameter.variable?, if_true, declare?_eq hnew, declare?_eq hnew',
      Option.bind_eq_bind, Option.bind_some]

/-- **What a work item makes of its arguments**, from what its statements make of the variables: it
leaves the arrays and the number of elements as they are. -/
theorem Source.run_eq {number : List Char → Option Float} {gid : Nat} {s : Source}
    {arrays : List (Array Float)} (hlength : s.arrays.length = arrays.length)
    (hnodup : (s.arrays ++ [Name.out, Name.count]).Nodup) {out result : Array Float} {count : Nat}
    (hbody : ∀ frame store, Holds frame store → s.Enters arrays out count store →
      ∃ frame', exec number gid s.body.code [frame] = some ([frame'], false) ∧
        frame'.lookup Name.out.spell = some ⟨false, .array result⟩ ∧
        ∀ name ∈ s.arrays ++ [.count], frame'.lookup name.spell = store name) :
    s.kernel.run number gid (arrays.map Content.array ++ [.array out, .word count]) =
      some (arrays.map Content.array ++ [.array result, .word count]) := by
  obtain ⟨frame, store, hframe, henters, hbind⟩ :=
    bindArguments_parameters hlength hnodup out count
  obtain ⟨frame', hexec, hresult, hkept⟩ := hbody frame store hframe henters
  have hfind : ∀ name : Name, find? [frame'] name.spell = frame'.lookup name.spell := by
    intro name
    rw [find?_cons]
    exact Option.or_none
  have hparameters : s.kernel.parameters = s.parameters := rfl
  have hcode : s.kernel.body = s.body.code := rfl
  rw [Kernel.run, hparameters, hcode, hbind]
  simp only [Option.bind_eq_bind, Option.bind_some, hexec]
  -- the parameters are read off the last frame, in their order
  rw [mapM_eq_some_iff, Source.parameters]
  refine List.rel_append ?_ (.cons ?_ (.cons ?_ .nil))
  · rw [List.forall₂_map_left_iff, List.forall₂_map_right_iff, List.forall₂_iff_get]
    refine ⟨hlength, fun i hi hi' => ?_⟩
    have hname := henters.array i _ _ (List.getElem?_eq_getElem hi) (List.getElem?_eq_getElem hi')
    have hmem : s.arrays[i] ∈ s.arrays ++ [Name.count] :=
      List.mem_append_left _ (List.getElem_mem hi)
    simp only [List.get_eq_getElem, hfind, hkept _ hmem, hname, Option.map_some]
  · rw [hfind, hresult, Option.map_some]
  · rw [hfind, hkept .count (by simp), henters.count, Option.map_some]

end ArrayKernels.Device
