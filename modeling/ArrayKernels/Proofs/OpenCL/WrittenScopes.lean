import ArrayKernels.Proofs.OpenCL.Scopes
import ArrayKernels.Proofs.OpenCL.Written
import ArrayKernels.Proofs.Scoping
import Mathlib.Data.List.Nodup

/-!
# Scopes in written kernels

Every name that a written kernel uses is declared before, in a block around the place, and no block
declares a name twice. An index refers to the innermost loop over its slot. Where no such loop is
around it, it refers to an index of the output, which stands in the block of the kernel.

An expression is written into the innermost block. It declares running totals there, with numbers of
their own, and everything else that it needs has been declared outside.

## Main results

- `inOrder_write`: the statements that are written for an expression, and its value.
- `inOrder_coreSource`: the kernel of a core program.
-/

namespace ArrayKernels

/-- The place of a use is in order: the name has been declared, and if it is an index, it refers to
the innermost loop around the place that counts with it, or else to an output index in the block of
the kernel. -/
structure OpenCL.Place.InOrder (outputSlots : List Nat) (place : OpenCL.Place) : Prop where
  declared : place.Declared
  index : ∀ slot, place.name = (Device.Name.index slot).spell →
    (place.InLoop → place.RefersToLoop) ∧
      (¬place.InLoop → slot ∈ outputSlots ∧ place.RefersToKernel)

namespace Device

open OpenCL

/-! ## Names in terms -/

section TermNames

variable {a b c : Term}

theorem names_literalTerm (x : Float) : (literalTerm x).names = [] := by
  have hnumeral : ∀ text, (numeralTerm text).names = [] := by
    intro text
    rw [numeralTerm.eq_def]
    split
    · rfl
    · rfl
  rw [literalTerm]
  split
  · rfl
  split
  · rfl
  split
  · rfl
  · exact hnumeral _

theorem names_unaryTerm (op : UnaryOp) : (unaryTerm op a).names = a.names := by
  cases op <;> rfl

theorem names_binaryTerm (op : BinaryOp) : (binaryTerm op a b).names = a.names ++ b.names := by
  cases op
  all_goals simp only [binaryTerm, comparisonTerm, Term.names, List.append_nil]

theorem names_selectTerm : (selectTerm c a b).names = c.names ++ a.names ++ b.names := by
  simp only [selectTerm, Term.names, List.append_nil]

theorem names_addTerms (terms : List (Name × Nat)) :
    (terms.foldl Word.addTerm a).names = a.names ++ terms.map fun term => term.1.spell := by
  induction terms generalizing a with
  | nil => exact (List.append_nil _).symm
  | cons term terms ih =>
    rw [List.foldl_cons, ih, List.map_cons]
    simp only [Word.addTerm, Term.names, List.append_nil, List.append_assoc, List.cons_append,
      List.nil_append]

end TermNames

/-! ## What names refer to -/

/-- The name can be used where those scopes are in force. -/
structure Visible (outputSlots : List Nat) (scopes : List Scope) (name : Name) : Prop where
  resolves : Place.resolve ⟨name.spell, scopes⟩ ≠ []
  index : ∀ slot, name = .index slot →
    Place.RefersToLoop ⟨name.spell, scopes⟩ ∨
      (slot ∈ outputSlots ∧ ∃ names, Place.resolve ⟨name.spell, scopes⟩ = [⟨false, names⟩])

/-- The scope of a block with those declarations. -/
def blockScope (names : List Name) : Scope := ⟨false, names.map Name.spell⟩

theorem spell_mem_blockScope {name : Name} {names : List Name} :
    name.spell ∈ (blockScope names).names ↔ name ∈ names :=
  List.mem_map_of_injective fun _ _ => Name.spell_injective

namespace Visible

variable {outputSlots : List Nat} {scopes outer : List Scope} {name : Name} {names : List Name}

theorem inOrder (h : Visible outputSlots scopes name) :
    Place.InOrder outputSlots ⟨name.spell, scopes⟩ where
  declared := Place.declared_of_resolve h.resolves
  index slot hslot := by
    rcases h.index slot (Name.spell_injective hslot) with hloop | ⟨hmem, names, hresolve⟩
    · exact ⟨fun _ => hloop, fun hnone => absurd hloop.inLoop hnone⟩
    · have hnone := Place.not_inLoop_of_resolve hresolve
      exact ⟨fun hloop => absurd hloop hnone, fun _ => ⟨hmem, _, hresolve⟩⟩

/-- In the block of the kernel, what has been declared can be used. -/
theorem of_mem (hname : name ∈ names) (hindex : ∀ slot, name = .index slot → slot ∈ outputSlots) :
    Visible outputSlots [blockScope names] name := by
  have hresolve : Place.resolve ⟨name.spell, [blockScope names]⟩ = [blockScope names] := by
    rw [Place.resolve_cons, if_pos (spell_mem_blockScope.mpr hname)]
  refine ⟨?_, fun slot hslot => .inr ⟨hindex slot hslot, _, hresolve⟩⟩
  rw [hresolve]
  exact List.cons_ne_nil _ _

/-- A running total hides nothing but totals. -/
theorem declareTotal (h : Visible outputSlots (blockScope names :: outer) name) (k : Nat) :
    Visible outputSlots (blockScope (.total k :: names) :: outer) name := by
  by_cases hmem : name ∈ Name.total k :: names
  · have hresolve : Place.resolve ⟨name.spell, blockScope (.total k :: names) :: outer⟩ =
        blockScope (.total k :: names) :: outer := by
      rw [Place.resolve_cons, if_pos (spell_mem_blockScope.mpr hmem)]
    refine ⟨by rw [hresolve]; exact List.cons_ne_nil _ _, fun slot hslot => ?_⟩
    -- an index stood in the block before, and so the block is that of the kernel
    have hbefore : name ∈ names := by
      refine (List.mem_cons.mp hmem).resolve_left fun htotal => ?_
      rw [hslot] at htotal
      cases htotal
    have hold := h.index slot hslot
    simp only [Place.RefersToLoop, Place.resolve_cons,
      if_pos (spell_mem_blockScope.mpr hbefore)] at hold
    rcases hold with ⟨_, hloop⟩ | ⟨hslot, _, hkernel⟩
    · cases hloop
    · obtain ⟨-, rfl⟩ := List.cons.inj hkernel
      exact .inr ⟨hslot, _, hresolve⟩
  · have hbefore : name ∉ names := fun hname => hmem (List.mem_cons_of_mem _ hname)
    have hsame : Place.resolve ⟨name.spell, blockScope (.total k :: names) :: outer⟩ =
        Place.resolve ⟨name.spell, blockScope names :: outer⟩ := by
      rw [Place.resolve_cons, if_neg (mt spell_mem_blockScope.mp hmem), Place.resolve_cons,
        if_neg (mt spell_mem_blockScope.mp hbefore)]
    have hresolves := h.resolves
    have hindex := h.index
    simp only [Place.RefersToLoop, ← hsame] at hresolves hindex
    exact ⟨hresolves, hindex⟩

theorem declareTotals {totals : List Name} (htotals : ∀ total ∈ totals, ∃ k, total = .total k)
    (h : Visible outputSlots (blockScope names :: outer) name) :
    Visible outputSlots (blockScope (totals ++ names) :: outer) name := by
  induction totals with
  | nil => exact h
  | cons total totals ih =>
    obtain ⟨⟨k, rfl⟩, hrest⟩ := List.forall_mem_cons.mp htotals
    exact (ih hrest).declareTotal k

/-- The block has just declared the name. -/
theorem head_total (k : Nat) :
    Visible outputSlots (blockScope (.total k :: names) :: outer) (.total k) := by
  refine ⟨?_, fun slot hslot => by cases hslot⟩
  rw [Place.resolve_cons, if_pos (spell_mem_blockScope.mpr List.mem_cons_self)]
  exact List.cons_ne_nil _ _

/-- The counter of the loop. -/
theorem counter (slot : Nat) :
    Visible outputSlots (⟨true, [(Name.index slot).spell]⟩ :: scopes) (.index slot) := by
  have hresolve : Place.resolve
      ⟨(Name.index slot).spell, ⟨true, [(Name.index slot).spell]⟩ :: scopes⟩ =
        ⟨true, [(Name.index slot).spell]⟩ :: scopes := by
    rw [Place.resolve_cons, if_pos (List.mem_singleton.mpr rfl)]
  refine ⟨?_, fun _ _ => .inl ⟨_, hresolve⟩⟩
  rw [hresolve]
  exact List.cons_ne_nil _ _

/-- A loop hides the index outside that its counter has the name of. -/
theorem enterLoop (h : Visible outputSlots scopes name) (slot : Nat) :
    Visible outputSlots (⟨true, [(Name.index slot).spell]⟩ :: scopes) name := by
  by_cases hname : name = .index slot
  · rw [hname]
    exact counter slot
  · have hspell : name.spell ∉ [(Name.index slot).spell] := fun hmem =>
      hname (Name.spell_injective (List.mem_singleton.mp hmem))
    have hsame : Place.resolve ⟨name.spell, ⟨true, [(Name.index slot).spell]⟩ :: scopes⟩ =
        Place.resolve ⟨name.spell, scopes⟩ := by
      rw [Place.resolve_cons, if_neg hspell]
    have hresolves := h.resolves
    have hindex := h.index
    simp only [Place.RefersToLoop, ← hsame] at hresolves hindex
    exact ⟨hresolves, hindex⟩

/-- A new block hides nothing. -/
theorem enterBlock (h : Visible outputSlots scopes name) :
    Visible outputSlots (blockScope [] :: scopes) name := by
  have hsame : Place.resolve ⟨name.spell, blockScope [] :: scopes⟩ =
      Place.resolve ⟨name.spell, scopes⟩ := by
    rw [Place.resolve_cons, if_neg (mt spell_mem_blockScope.mp List.not_mem_nil)]
  have hresolves := h.resolves
  have hindex := h.index
  simp only [Place.RefersToLoop, ← hsame] at hresolves hindex
  exact ⟨hresolves, hindex⟩

end Visible

/-- Every name of the term can be used. -/
def TermVisible (outputSlots : List Nat) (scopes : List Scope) (term : Term) : Prop :=
  ∀ text ∈ term.names, ∃ name : Name, name.spell = text ∧ Visible outputSlots scopes name

namespace TermVisible

variable {outputSlots : List Nat} {scopes outer : List Scope} {names totals : List Name}
  {term a b c : Term}

theorem inOrder (h : TermVisible outputSlots scopes term) :
    ∀ place ∈ places scopes term.names, place.InOrder outputSlots := by
  intro place hplace
  obtain ⟨text, htext, rfl⟩ := List.mem_map.mp hplace
  obtain ⟨name, rfl, hname⟩ := h text htext
  exact hname.inOrder

theorem declareTotals (htotals : ∀ total ∈ totals, ∃ k, total = .total k)
    (h : TermVisible outputSlots (blockScope names :: outer) term) :
    TermVisible outputSlots (blockScope (totals ++ names) :: outer) term := by
  intro text htext
  obtain ⟨name, hname, hvisible⟩ := h text htext
  exact ⟨name, hname, hvisible.declareTotals htotals⟩

theorem literal (x : Float) : TermVisible outputSlots scopes (literalTerm x) := by
  intro text htext
  rw [names_literalTerm] at htext
  cases htext

theorem unary (op : UnaryOp) (ha : TermVisible outputSlots scopes a) :
    TermVisible outputSlots scopes (unaryTerm op a) := by
  intro text htext
  rw [names_unaryTerm] at htext
  exact ha text htext

theorem binary (op : BinaryOp) (ha : TermVisible outputSlots scopes a)
    (hb : TermVisible outputSlots scopes b) : TermVisible outputSlots scopes (binaryTerm op a b) := by
  intro text htext
  rw [names_binaryTerm] at htext
  exact (List.mem_append.mp htext).elim (ha text) (hb text)

theorem select (hc : TermVisible outputSlots scopes c) (ha : TermVisible outputSlots scopes a)
    (hb : TermVisible outputSlots scopes b) : TermVisible outputSlots scopes (selectTerm c a b) := by
  intro text htext
  rw [names_selectTerm] at htext
  rcases List.mem_append.mp htext with htext | htext
  · exact (List.mem_append.mp htext).elim (hc text) (ha text)
  · exact hb text htext

end TermVisible

/-! ## Expressions -/

/-- What an expression may use: the inputs, the starts of their core blocks, and the indices of the
slots that have one. -/
structure Scene (outputSlots : List Nat) (inputCount : Nat) (bound : List Nat)
    (scopes : List Scope) : Prop where
  array : ∀ k < inputCount, Visible outputSlots scopes (.input k)
  start : ∀ k < inputCount, Visible outputSlots scopes (.base k)
  index : ∀ slot ∈ bound, Visible outputSlots scopes (.index slot)

/-- The statements use and declare names in order. They declare totals in their block, with numbers
from `first` on, and nothing else that what follows them could see. -/
structure Declares (outputSlots : List Nat) (before : Block) (first last : Nat) (names : List Name)
    (outer : List Scope) (totals : List Name) : Prop where
  numbered : ∀ total ∈ totals, ∃ k, first ≤ k ∧ k < last ∧ total = .total k
  uses : ∀ c : Block, ∀ place ∈ (before.append c).code.uses (blockScope names :: outer),
    place.InOrder outputSlots ∨ place ∈ c.code.uses (blockScope (totals ++ names) :: outer)
  declarations : ∀ c : Block,
    ∀ place ∈ (before.append c).code.declarations (blockScope names :: outer),
      place.Fresh ∨ place ∈ c.code.declarations (blockScope (totals ++ names) :: outer)

section Write

variable {outputSlots bound : List Nat} {inputCount slotCount : Nat} {scopes outer : List Scope}
  {names totals more : List Name} {first middle last : Nat} {a b : Block}

namespace Scene

theorem declareTotals (h : Scene outputSlots inputCount bound (blockScope names :: outer))
    (htotals : ∀ total ∈ totals, ∃ k, total = .total k) :
    Scene outputSlots inputCount bound (blockScope (totals ++ names) :: outer) where
  array k hk := (h.array k hk).declareTotals htotals
  start k hk := (h.start k hk).declareTotals htotals
  index slot hslot := (h.index slot hslot).declareTotals htotals

/-- In the body of a sum its slot has an index. -/
theorem enter (h : Scene outputSlots inputCount bound scopes) (slot : Nat) :
    Scene outputSlots inputCount (slot :: bound)
      (blockScope [] :: ⟨true, [(Name.index slot).spell]⟩ :: scopes) where
  array k hk := ((h.array k hk).enterLoop slot).enterBlock
  start k hk := ((h.start k hk).enterLoop slot).enterBlock
  index other hother := by
    rcases List.mem_cons.mp hother with rfl | hother
    · exact (Visible.counter other).enterBlock
    · exact ((h.index other hother).enterLoop slot).enterBlock

/-- The element of an input at the position that its slots make up. -/
theorem element (h : Scene outputSlots inputCount bound scopes) {k : Nat} (hk : k < inputCount)
    {slots : List Nat} (hslots : ∀ slot ∈ slots, slot ∈ bound) (strides : List Nat) :
    TermVisible outputSlots scopes
      (Value.element (.input k) (.offset (.base k) ((slots.map Name.index).zip strides))).term := by
  intro text htext
  change text ∈ (Name.input k).spell :: (List.foldl Word.addTerm _ _).names at htext
  rw [names_addTerms] at htext
  rcases List.mem_cons.mp htext with rfl | htext
  · exact ⟨_, rfl, h.array k hk⟩
  rcases List.mem_cons.mp htext with rfl | htext
  · exact ⟨_, rfl, h.start k hk⟩
  · obtain ⟨⟨name, stride⟩, hmem, rfl⟩ := List.mem_map.mp htext
    obtain ⟨slot, hslot, rfl⟩ := List.mem_map.mp (List.of_mem_zip hmem).1
    exact ⟨_, rfl, h.index slot (hslots slot hslot)⟩

end Scene

namespace Declares

theorem done : Declares outputSlots .done first last names outer [] where
  numbered total htotal := by cases htotal
  uses _ _ hplace := .inr hplace
  declarations _ _ hplace := .inr hplace

theorem append (ha : Declares outputSlots a first middle names outer totals)
    (hb : Declares outputSlots b middle last (totals ++ names) outer more) (hfirst : first ≤ middle)
    (hlast : middle ≤ last) :
    Declares outputSlots (a.append b) first last names outer (more ++ totals) where
  numbered total htotal := by
    rcases List.mem_append.mp htotal with htotal | htotal
    · obtain ⟨k, hk, hk', rfl⟩ := hb.numbered total htotal
      exact ⟨k, by omega, hk', rfl⟩
    · obtain ⟨k, hk, hk', rfl⟩ := ha.numbered total htotal
      exact ⟨k, hk, by omega, rfl⟩
  uses c place hplace := by
    rw [Block.append_assoc] at hplace
    rw [List.append_assoc]
    rcases ha.uses _ place hplace with horder | hplace
    · exact .inl horder
    · exact hb.uses c place hplace
  declarations c place hplace := by
    rw [Block.append_assoc] at hplace
    rw [List.append_assoc]
    rcases ha.declarations _ place hplace with hfresh | hplace
    · exact .inl hfresh
    · exact hb.declarations c place hplace

theorem exists_total (h : Declares outputSlots a first last names outer totals) :
    ∀ total ∈ totals, ∃ k, total = .total k := by
  intro total htotal
  obtain ⟨k, -, -, rfl⟩ := h.numbered total htotal
  exact ⟨k, rfl⟩

/-- Later totals are still to be declared. -/
theorem fresh_append (h : Declares outputSlots a first last names outer totals) (hle : first ≤ last)
    (hfresh : ∀ k, first ≤ k → Name.total k ∉ names) :
    ∀ k, last ≤ k → Name.total k ∉ totals ++ names := by
  intro k hk hmem
  rcases List.mem_append.mp hmem with hmem | hmem
  · obtain ⟨j, -, hj, heq⟩ := h.numbered _ hmem
    cases heq
    omega
  · exact hfresh k (Nat.le_trans hle hk) hmem

/-- A sum declares its total, and then everything else in the two scopes of its loop. -/
theorem loop {slot next extent : Nat} {value : Value} (hlast : next < last)
    (hnew : Name.total next ∉ names)
    (hbody : Declares outputSlots a (next + 1) last []
      (⟨true, [(Name.index slot).spell]⟩ :: blockScope (.total next :: names) :: outer) totals)
    (hvalue : TermVisible outputSlots (blockScope totals ::
      ⟨true, [(Name.index slot).spell]⟩ :: blockScope (.total next :: names) :: outer) value.term) :
    Declares outputSlots
      (.declareTotal (.total next)
        (.loop (.index slot) extent (a.append (.addTo (.total next) value .done)) .done))
      next last names outer [.total next] := by
  let inside : List Scope :=
    ⟨true, [(Name.index slot).spell]⟩ :: blockScope (.total next :: names) :: outer
  have hcounter : (⟨(Name.index slot).spell, inside⟩ : Place).InOrder outputSlots :=
    (Visible.counter slot).inOrder
  have htotal : (⟨(Name.total next).spell, blockScope totals :: inside⟩ : Place).InOrder
      outputSlots := by
    have hdeclared : Visible outputSlots (blockScope [] :: inside) (.total next) :=
      ((Visible.head_total next).enterLoop slot).enterBlock
    have hlater := Visible.declareTotals hbody.exists_total hdeclared
    rw [List.append_nil] at hlater
    exact hlater.inOrder
  constructor
  · intro total hmem
    rw [List.mem_singleton.mp hmem]
    exact ⟨next, Nat.le_refl next, hlast, rfl⟩
  · intro c place hplace
    -- the counter is used in the head of the loop, the total at the end of its body
    change place ∈ [⟨(Name.index slot).spell, inside⟩, ⟨(Name.index slot).spell, inside⟩] ++
      (a.append (.addTo (.total next) value .done)).code.uses (blockScope [] :: inside) ++
        c.code.uses _ at hplace
    rcases List.mem_append.mp hplace with hplace | hplace
    · refine .inl ?_
      rcases List.mem_append.mp hplace with hhead | hplace
      · simp only [List.mem_cons, List.not_mem_nil, or_false, or_self] at hhead
        rw [hhead]
        exact hcounter
      rcases hbody.uses _ place hplace with horder | hadd
      · exact horder
      rw [List.append_nil] at hadd
      rcases List.mem_append.mp hadd with hadd | hdone
      · rcases List.mem_cons.mp hadd with rfl | hadd
        · exact htotal
        · exact hvalue.inOrder place hadd
      · cases hdone
    · exact .inr hplace
  · intro c place hplace
    change place ∈ ⟨(Name.total next).spell, blockScope names :: outer⟩ ::
      ⟨(Name.index slot).spell, ⟨true, []⟩ :: blockScope (.total next :: names) :: outer⟩ ::
      ((a.append (.addTo (.total next) value .done)).code.declarations (blockScope [] :: inside) ++
        c.code.declarations _) at hplace
    rcases List.mem_cons.mp hplace with rfl | hplace
    · refine .inl fun scope hscope => ?_
      rw [← Option.some.inj hscope]
      exact fun hmem => hnew (spell_mem_blockScope.mp hmem)
    rcases List.mem_cons.mp hplace with rfl | hplace
    · refine .inl fun scope hscope => ?_
      rw [← Option.some.inj hscope]
      exact List.not_mem_nil
    rcases List.mem_append.mp hplace with hplace | hplace
    · rcases hbody.declarations _ place hplace with hfresh | hdone
      · exact .inl hfresh
      · cases hdone
    · exact .inr hplace

end Declares

/-- **What is written for an expression is in order.** -/
theorem inOrder_write (layout : Layout) {n : Node} (hscoped : n.Scoped slotCount bound)
    (hloads : ∀ access ∈ n.loads, access.operand < inputCount) {next : Nat}
    (hscene : Scene outputSlots inputCount bound (blockScope names :: outer))
    (hfresh : ∀ k, next ≤ k → Name.total k ∉ names) :
    let written := write layout n next
    ∃ totals, Declares outputSlots written.before next written.next names outer totals ∧
      TermVisible outputSlots (blockScope (totals ++ names) :: outer) written.value.term := by
  induction n generalizing bound next names outer with
  | const v => exact ⟨[], .done, .literal v⟩
  | arg i => exact hscoped.elim
  | load k slots =>
    have hk := hloads ⟨k, slots⟩ (List.mem_singleton.mpr rfl)
    exact ⟨[], .done, hscene.element hk hscoped _⟩
  | unary op a ih =>
    obtain ⟨totals, hdeclares, hvalue⟩ := ih hscoped hloads hscene hfresh
    exact ⟨totals, hdeclares, hvalue.unary op⟩
  | binary op a b iha ihb =>
    obtain ⟨hloadsa, hloadsb⟩ := List.forall_mem_append.mp hloads
    have hlea := next_le_write layout a next
    obtain ⟨ta, hdeclaresa, hvaluea⟩ := iha hscoped.1 hloadsa hscene hfresh
    have hleb := next_le_write layout b (write layout a next).next
    obtain ⟨tb, hdeclaresb, hvalueb⟩ := ihb hscoped.2 hloadsb
      (hscene.declareTotals hdeclaresa.exists_total) (hdeclaresa.fresh_append hlea hfresh)
    -- the first operand stays visible behind the totals of the second one
    have hvaluea := hvaluea.declareTotals hdeclaresb.exists_total
    refine ⟨tb ++ ta, hdeclaresa.append hdeclaresb hlea hleb, ?_⟩
    rw [List.append_assoc]
    exact hvaluea.binary op hvalueb
  | select c t o ihc iht iho =>
    obtain ⟨hloadsct, hloadso⟩ := List.forall_mem_append.mp hloads
    obtain ⟨hloadsc, hloadst⟩ := List.forall_mem_append.mp hloadsct
    have hlec := next_le_write layout c next
    obtain ⟨tc, hdeclaresc, hvaluec⟩ := ihc hscoped.1 hloadsc hscene hfresh
    have hscenet := hscene.declareTotals hdeclaresc.exists_total
    have hfresht := hdeclaresc.fresh_append hlec hfresh
    have hlet := next_le_write layout t (write layout c next).next
    obtain ⟨tt, hdeclarest, hvaluet⟩ := iht hscoped.2.1 hloadst hscenet hfresht
    have hleo := next_le_write layout o (write layout t (write layout c next).next).next
    obtain ⟨us, hdeclareso, hvalueo⟩ := iho hscoped.2.2 hloadso
      (hscenet.declareTotals hdeclarest.exists_total) (hdeclarest.fresh_append hlet hfresht)
    have hvaluec := (hvaluec.declareTotals hdeclarest.exists_total).declareTotals
      hdeclareso.exists_total
    have hvaluet := hvaluet.declareTotals hdeclareso.exists_total
    refine ⟨us ++ (tt ++ tc), (hdeclaresc.append hdeclarest hlec hlet).append ?_
      (Nat.le_trans hlec hlet) hleo, ?_⟩
    · rw [List.append_assoc]
      exact hdeclareso
    · rw [List.append_assoc, List.append_assoc]
      exact hvaluec.select hvaluet hvalueo
  | sum slot body ih =>
    -- the total is declared first, then the loop opens two scopes
    have htotal : ∀ total ∈ [Name.total next], ∃ k, total = .total k := by
      intro total hmem
      exact ⟨next, List.mem_singleton.mp hmem⟩
    have hnone : ∀ k, next + 1 ≤ k → Name.total k ∉ [] := fun _ _ => List.not_mem_nil
    obtain ⟨totals, hdeclares, hvalue⟩ := ih hscoped.2 hloads
      ((hscene.declareTotals htotal).enter slot) hnone
    rw [List.append_nil] at hvalue
    refine ⟨[.total next], hdeclares.loop (next_le_write layout body (next + 1))
      (hfresh next (Nat.le_refl next)) hvalue, fun text htext => ?_⟩
    obtain rfl : text = (Name.total next).spell := List.mem_singleton.mp htext
    exact ⟨_, rfl, Visible.head_total next⟩

end Write

/-! ## Kernels -/

/-- The statements use and declare names in order, in the block of the kernel with those
declarations. -/
structure BlockInOrder (outputSlots : List Nat) (block : Block) (names : List Name) : Prop where
  uses : ∀ place ∈ block.code.uses [blockScope names], place.InOrder outputSlots
  declarations : ∀ place ∈ block.code.declarations [blockScope names], place.Fresh

section Kernel

variable {outputSlots : List Nat} {names : List Name} {next : Block}

/-- Places of declared names that are no indices are in order. -/
theorem inOrder_of_mem {name : Name} (hname : name ∈ names) (hindex : ∀ slot, name ≠ .index slot) :
    Place.InOrder outputSlots ⟨name.spell, [blockScope names]⟩ :=
  (Visible.of_mem hname fun slot hslot => absurd hslot (hindex slot)).inOrder

namespace BlockInOrder

/-- A declaration of a position that is computed from variables. -/
theorem declareWord {constant : Bool} {name : Name} {value : Word} (used : List Name)
    (hvalue : value.term.names = used.map Name.spell) (hused : ∀ name ∈ used, name ∈ names)
    (hindex : ∀ name ∈ used, ∀ slot, name ≠ .index slot) (hfresh : name ∉ names)
    (h : BlockInOrder outputSlots next (name :: names)) :
    BlockInOrder outputSlots (.declareWord constant name value next) names where
  uses place hplace := by
    rcases List.mem_append.mp hplace with hplace | hplace
    · rw [hvalue] at hplace
      obtain ⟨text, htext, rfl⟩ := List.mem_map.mp hplace
      obtain ⟨other, hother, rfl⟩ := List.mem_map.mp htext
      exact inOrder_of_mem (hused other hother) (hindex other hother)
    · exact h.uses place hplace
  declarations place hplace := by
    rcases List.mem_cons.mp hplace with rfl | hplace
    · intro scope hscope
      rw [← Option.some.inj hscope]
      intro hmem
      exact hfresh (spell_mem_blockScope.mp hmem)
    · exact h.declarations place hplace

theorem divide {name : Name} {divisor : Nat} (hname : name ∈ names)
    (hindex : ∀ slot, name ≠ .index slot) (h : BlockInOrder outputSlots next names) :
    BlockInOrder outputSlots (.divide name divisor next) names where
  uses place hplace := by
    rcases List.mem_append.mp hplace with hplace | hplace
    · rw [List.mem_singleton.mp hplace]
      exact inOrder_of_mem hname hindex
    · exact h.uses place hplace
  declarations := h.declarations

theorem stopUnlessBelow {name bound : Name} (hname : name ∈ names) (hbound : bound ∈ names)
    (hindex : ∀ slot, name ≠ .index slot) (hindex' : ∀ slot, bound ≠ .index slot)
    (h : BlockInOrder outputSlots next names) :
    BlockInOrder outputSlots (.stopUnlessBelow name bound next) names where
  uses place hplace := by
    rcases List.mem_append.mp hplace with hplace | hplace
    · rcases List.mem_cons.mp hplace with rfl | hplace
      · exact inOrder_of_mem hname hindex
      · rw [List.mem_singleton.mp hplace]
        exact inOrder_of_mem hbound hindex'
    · exact h.uses place hplace
  declarations := h.declarations

end BlockInOrder

theorem inOrder_splitPosition (extents : List Nat) {slots : List Nat} (hrest : .rest ∈ names)
    (hnodup : slots.Nodup) (hfresh : ∀ slot ∈ slots, Name.index slot ∉ names)
    (h : BlockInOrder outputSlots next ((slots.map Name.index).reverse ++ names)) :
    BlockInOrder outputSlots (splitPosition extents next slots) names := by
  induction slots generalizing names with
  | nil => exact h
  | cons slot slots ih =>
    obtain ⟨hslot, hnodup⟩ := List.nodup_cons.mp hnodup
    obtain ⟨hslotFresh, hfresh⟩ := List.forall_mem_cons.mp hfresh
    have hrest' : Name.rest ∈ Name.index slot :: names := List.mem_cons_of_mem _ hrest
    refine .declareWord [.rest] rfl ?_ ?_ hslotFresh (.divide hrest' ?_ (ih hrest' hnodup ?_ ?_))
    · intro name hname
      rw [List.mem_singleton.mp hname]
      exact hrest
    · intro name hname slot heq
      rw [List.mem_singleton.mp hname] at heq
      cases heq
    · intro slot heq
      cases heq
    · intro other hother hmem
      rcases List.mem_cons.mp hmem with heq | hmem
      · cases heq
        exact hslot hother
      · exact hfresh other hother hmem
    · rwa [List.map_cons, List.reverse_cons, List.append_assoc, List.singleton_append] at h

theorem inOrder_findBlocks {layouts : List CoreLayout} {k : Nat} (hiteration : .iteration ∈ names)
    (hfresh : ∀ j, k ≤ j → Name.base j ∉ names)
    (h : BlockInOrder outputSlots next
      (((List.range' k layouts.length).map Name.base).reverse ++ names)) :
    BlockInOrder outputSlots (findBlocks next k layouts) names := by
  induction layouts generalizing k names with
  | nil => exact h
  | cons layout layouts ih =>
    have hnext : BlockInOrder outputSlots (findBlocks next (k + 1) layouts) (.base k :: names) := by
      refine ih (List.mem_cons_of_mem _ hiteration) (fun j hj hmem => ?_) ?_
      · rcases List.mem_cons.mp hmem with heq | hmem
        · cases heq
          omega
        · exact hfresh j (by omega) hmem
      · rwa [List.length_cons, List.range'_succ, List.map_cons, List.reverse_cons,
          List.append_assoc, List.singleton_append] at h
    rw [findBlocks]
    split
    · refine .declareWord [] rfl ?_ ?_ (hfresh k (Nat.le_refl k)) hnext
      · intro name hname
        cases hname
      · intro name hname
        cases hname
    · refine .declareWord [.iteration] rfl ?_ ?_ (hfresh k (Nat.le_refl k)) hnext
      · intro name hname
        rw [List.mem_singleton.mp hname]
        exact hiteration
      · intro name hname slot heq
        rw [List.mem_singleton.mp hname] at heq
        cases heq

/-- Writing an expression and the store of its value. -/
theorem inOrder_finish (layout : Layout) {root : Node} {slotCount inputCount : Nat}
    (hscoped : root.Scoped slotCount outputSlots)
    (hloads : ∀ access ∈ root.loads, access.operand < inputCount)
    (hgid : .gid ∈ names) (hout : .out ∈ names)
    (harray : ∀ k < inputCount, Name.input k ∈ names)
    (hstart : ∀ k < inputCount, Name.base k ∈ names)
    (hindex : ∀ slot ∈ outputSlots, Name.index slot ∈ names)
    (hfresh : ∀ k, Name.total k ∉ names) :
    BlockInOrder outputSlots (finish layout root) names := by
  have hother : ∀ name ∈ names, (∀ slot, name ≠ .index slot) →
      Visible outputSlots [blockScope names] name := fun name hname hindex =>
    .of_mem hname fun slot hslot => absurd hslot (hindex slot)
  have hscene : Scene outputSlots inputCount outputSlots [blockScope names] := by
    refine ⟨fun k hk => ?_, fun k hk => ?_, fun slot hslot => ?_⟩
    · exact hother _ (harray k hk) (by intro slot h; cases h)
    · exact hother _ (hstart k hk) (by intro slot h; cases h)
    · refine .of_mem (hindex slot hslot) fun other heq => ?_
      cases heq
      exact hslot
  obtain ⟨totals, hdeclares, hvalue⟩ := inOrder_write layout hscoped hloads hscene
    (show ∀ k, 0 ≤ k → Name.total k ∉ names from fun k _ => hfresh k)
  have hlater : ∀ name ∈ names, (∀ slot, name ≠ .index slot) →
      Place.InOrder outputSlots ⟨name.spell, [blockScope (totals ++ names)]⟩ := fun name hname hindex =>
    ((hother name hname hindex).declareTotals hdeclares.exists_total).inOrder
  constructor
  · intro place hplace
    rcases hdeclares.uses _ place hplace with horder | hplace
    · exact horder
    · rcases List.mem_append.mp hplace with hplace | hdone
      · rcases List.mem_cons.mp hplace with rfl | hplace
        · exact hlater .out hout (by intro slot h; cases h)
        rcases List.mem_cons.mp hplace with rfl | hplace
        · exact hlater .gid hgid (by intro slot h; cases h)
        · exact hvalue.inOrder place hplace
      · cases hdone
  · intro place hplace
    rcases hdeclares.declarations _ place hplace with hfresh | hdone
    · exact hfresh
    · cases hdone

end Kernel

/-- The names of the parameters of a kernel, the last one first. -/
def Source.names (s : Source) : List Name := .count :: .out :: s.arrays.reverse

theorem Source.map_name_parameters (s : Source) :
    s.kernel.parameters.map Parameter.name =
      (s.arrays ++ [Name.out, Name.count]).map Name.spell := by
  simp only [kernel, parameters, List.map_append, List.map_map]
  rfl

theorem Source.scope_kernel (s : Source) : s.kernel.scope = blockScope s.names := by
  rw [Kernel.scope, map_name_parameters, ← List.map_reverse, List.reverse_append]
  rfl

theorem nodup_coreSource (name : List Char) (p : Program) (call : BoundCall) :
    ((coreSource name p call).arrays ++ [Name.out, Name.count]).Nodup := by
  have hinputs : ((List.range p.inputSlots.length).map Name.input).Nodup :=
    List.nodup_range.map fun _ _ heq => Name.input.inj heq
  refine List.nodup_append.mpr ⟨hinputs, by decide, fun a ha b hb heq => ?_⟩
  obtain ⟨k, -, rfl⟩ := List.mem_map.mp ha
  rw [← heq] at hb
  simp at hb

/-- **The kernel of a core program is in order**: it has its parameters under different names, uses
what is declared, lets indices refer to the loops around them or to the output, and declares nothing
twice in a block. -/
theorem inOrder_coreSource (name : List Char) {p : Program} {call : BoundCall} {slotCount : Nat}
    (hscoped : p.root.Scoped slotCount p.outputSlots) (hnodup : p.outputSlots.Nodup)
    (hloads : ∀ access ∈ p.root.loads, access.operand < p.inputSlots.length)
    (hlayouts : call.layouts.length = p.inputSlots.length) :
    ((coreSource name p call).kernel.parameters.map Parameter.name).Nodup ∧
      (∀ place ∈ (coreSource name p call).kernel.uses, place.InOrder p.outputSlots) ∧
      ∀ place ∈ (coreSource name p call).kernel.declarations, place.Fresh := by
  let parameters := (coreSource name p call).names
  have hparameters : parameters =
      .count :: .out :: ((List.range p.inputSlots.length).map Name.input).reverse := rfl
  have hcount : (call.layouts.take p.inputSlots.length).length = p.inputSlots.length := by
    rw [List.length_take, hlayouts, Nat.min_self]
  -- the block of the kernel grows from statement to statement
  let split := (p.outputSlots.reverse.map Name.index).reverse ++
    .rest :: .iteration :: .gid :: parameters
  let found := ((List.range' 0 (call.layouts.take p.inputSlots.length).length).map
    Name.base).reverse ++ split
  have hfinish : BlockInOrder p.outputSlots
      (finish ⟨call.extents, call.layouts.map (·.strides)⟩ p.root) found := by
    refine inOrder_finish _ hscoped hloads ?_ ?_ (fun k hk => ?_) (fun k hk => ?_)
      (fun slot hslot => ?_) (fun k => ?_)
    · simp [found, split]
    · simp [found, split, hparameters]
    · simp [found, split, hparameters, hk]
    · simp [found, hcount, hk]
    · simp [found, split, hslot]
    · simp [found, split, hparameters]
  have hfound : BlockInOrder p.outputSlots
      (findBlocks (finish ⟨call.extents, call.layouts.map (·.strides)⟩ p.root) 0
        (call.layouts.take p.inputSlots.length)) split := by
    refine inOrder_findBlocks ?_ (fun j _ => ?_) hfinish
    · simp [split]
    · simp [split, hparameters]
  have hsplit : BlockInOrder p.outputSlots
      (splitPosition call.extents (findBlocks (finish ⟨call.extents, call.layouts.map (·.strides)⟩
        p.root) 0 (call.layouts.take p.inputSlots.length)) p.outputSlots.reverse)
      (.rest :: .iteration :: .gid :: parameters) := by
    refine inOrder_splitPosition _ List.mem_cons_self (List.nodup_reverse.mpr hnodup)
      (fun slot _ => ?_) hfound
    simp [hparameters]
  have hblock : BlockInOrder p.outputSlots (coreSource name p call).body parameters := by
    refine .declareWord [] rfl ?_ ?_ ?_ (.stopUnlessBelow ?_ ?_ ?_ ?_
      (.declareWord [.gid] rfl ?_ ?_ ?_ (.declareWord [.gid] rfl ?_ ?_ ?_ hsplit)))
    all_goals simp [hparameters]
  refine ⟨?_, fun place hplace => hblock.uses place ?_, fun place hplace =>
    hblock.declarations place ?_⟩
  · rw [Source.map_name_parameters]
    exact (nodup_coreSource name p call).map fun _ _ => Name.spell_injective
  · rwa [Kernel.uses, Source.scope_kernel] at hplace
  · rwa [Kernel.declarations, Source.scope_kernel] at hplace

end Device

end ArrayKernels
