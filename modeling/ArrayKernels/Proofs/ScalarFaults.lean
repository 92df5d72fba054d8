import ArrayKernels.Proofs.ElementwiseCalls
import ArrayKernels.Proofs.FirstFault
import ArrayKernels.Proofs.Parts

/-!
# Faults of scalar bodies

The body of a scalar function is checked twice: when the function is made, by a walk that shows all
parts to a visitor, and when it is lowered, by a recursion that stops at the first fault. Here both
are compared with one description of the first fault. It speaks of places: a place is a way down
from the outermost construct, and the lexicographic order of places is pre-order.

## Layers

- **Places**: parts and where they stand, and first faults by their places.
- **Two checks**: the walk and the recursion.
- **Lowered bodies**: the tree is that of the body, so its arguments are those of the function.

## Main results

- `Expr.firstFault_nodes_iff`: the first fault in the list of nodes is the one with the first place.
- `Expr.walk_keepFirst`: a walk that goes on after the first fault ends with it.
- `Expr.lowerScalar_failsWith`: a recursion that stops at the first fault.
- `scalar_validators_agree`: both checks, and what the second one can rely on.
-/

namespace ArrayKernels

/-! ## Places -/

namespace Expr

/-- The parts directly below the outermost construct, from left to right. -/
def children : Expr → List Expr
  | const _ => []
  | arg _ => []
  | unary _ a => [a]
  | binary _ a b => [a, b]
  | select c t o => [c, t, o]
  | element _ _ => []
  | sum _ body => [body]

/-- The part at a place, which says which child to take at each construct on the way down. In the
lexicographic order of places, a part comes before its own parts, and these from left to right. -/
def part? : Expr → List Nat → Option Expr
  | e, [] => some e
  | e, i :: place => do (← e.children[i]?).part? place

/-- The part stands somewhere in the expression. -/
def Has (e part : Expr) : Prop := ∃ place, e.part? place = some part

/-- The fault of the part with the first place, among all parts with a fault. -/
def HasFirstFault (Faulty : Expr → KernelError → Prop) (e : Expr) (fault : KernelError) : Prop :=
  ∃ place part, e.part? place = some part ∧ Faulty part fault ∧
    ∀ earlier < place, ∀ other, e.part? earlier = some other → ∀ fault, ¬Faulty other fault

/-- What holds of an expression whenever it holds of its children. -/
theorem induction_on_children {P : Expr → Prop} (h : ∀ e, (∀ child ∈ e.children, P child) → P e)
    (e : Expr) : P e := by
  induction e with
  | const v => exact h _ (by simp [children])
  | arg i => exact h _ (by simp [children])
  | unary op a ih => exact h _ (by simp [children, ih])
  | binary op a b iha ihb => exact h _ (by simp [children, iha, ihb])
  | select c t o ihc iht iho => exact h _ (by simp [children, ihc, iht, iho])
  | element k names => exact h _ (by simp [children])
  | sum dim body ih => exact h _ (by simp [children, ih])

theorem nodes_eq (e : Expr) : e.nodes = e :: e.children.flatMap nodes := by
  cases e <;> simp [nodes, children]

section Places

variable {e part : Expr} {Faulty : Expr → KernelError → Prop} {fault : KernelError}

theorem part?_cons {i : Nat} {place : List Nat} :
    e.part? (i :: place) = some part ↔
      ∃ child, e.children[i]? = some child ∧ child.part? place = some part := by
  rw [part?]
  exact Option.bind_eq_some_iff

/-- A part is the expression itself or a part of a child. -/
theorem has_iff : e.Has part ↔ part = e ∨ ∃ child ∈ e.children, child.Has part := by
  constructor
  · rintro ⟨_ | ⟨i, place⟩, hpart⟩
    · exact .inl (Option.some.inj hpart).symm
    · obtain ⟨child, hchild, hpart⟩ := part?_cons.mp hpart
      exact .inr ⟨child, List.mem_of_getElem? hchild, place, hpart⟩
  · rintro (rfl | ⟨child, hchild, place, hpart⟩)
    · exact ⟨[], rfl⟩
    · obtain ⟨i, hi⟩ := List.mem_iff_getElem?.mp hchild
      exact ⟨i :: place, part?_cons.mpr ⟨child, hi, hpart⟩⟩

/-- The nodes are the parts. -/
theorem mem_nodes_iff : part ∈ e.nodes ↔ e.Has part := by
  induction e using induction_on_children with
  | h e ih =>
    rw [nodes_eq, List.mem_cons, List.mem_flatMap, has_iff]
    exact or_congr_right (exists_congr fun child => and_congr_right (ih child))

/-- The first fault is that of the expression itself, or of the first child that has one. -/
theorem hasFirstFault_iff :
    e.HasFirstFault Faulty fault ↔
      Faulty e fault ∨ (∀ fault, ¬Faulty e fault) ∧
        ∃ (i : Nat) (child : Expr), e.children[i]? = some child ∧ child.HasFirstFault Faulty fault ∧
          ∀ j < i, ∀ other, e.children[j]? = some other →
            ∀ part, other.Has part → ∀ fault, ¬Faulty part fault := by
  constructor
  · rintro ⟨_ | ⟨i, place⟩, part, hpart, hfaulty, hsound⟩
    · cases hpart
      exact .inl hfaulty
    · obtain ⟨child, hchild, hpart⟩ := part?_cons.mp hpart
      refine .inr ⟨hsound [] (List.nil_lt_cons i place) e rfl, i, child, hchild,
        ⟨place, part, hpart, hfaulty, fun earlier hlt other hother => ?_⟩,
        fun j hj other hother part ⟨inner, hinner⟩ => ?_⟩
      · exact hsound (i :: earlier) (List.cons_lt_cons_iff.mpr (.inr ⟨rfl, hlt⟩)) other
          (part?_cons.mpr ⟨child, hchild, hother⟩)
      · exact hsound (j :: inner) (List.cons_lt_cons_iff.mpr (.inl hj)) part
          (part?_cons.mpr ⟨other, hother, hinner⟩)
  · rintro (hfaulty | ⟨hself, i, child, hchild, ⟨place, part, hpart, hfaulty, hsound⟩, hleft⟩)
    · exact ⟨[], e, rfl, hfaulty, fun earlier hlt => absurd hlt (List.not_lt_nil earlier)⟩
    · refine ⟨i :: place, part, part?_cons.mpr ⟨child, hchild, hpart⟩, hfaulty, ?_⟩
      -- an earlier place is the top, or further to the left, or further up in the same child
      rintro (_ | ⟨j, earlier⟩) hlt other hother
      · cases hother
        exact hself
      · obtain ⟨sibling, hsibling, hother⟩ := part?_cons.mp hother
        rcases List.cons_lt_cons_iff.mp hlt with hj | ⟨rfl, hbefore⟩
        · exact hleft j hj sibling hsibling other ⟨earlier, hother⟩
        · cases hchild.symm.trans hsibling
          exact hsound earlier hbefore other hother

/-- **The first fault among the nodes** is the one with the first place. -/
theorem firstFault_nodes_iff :
    FirstFault (fun _ => Faulty) e.nodes fault ↔ e.HasFirstFault Faulty fault := by
  induction e using induction_on_children generalizing fault with
  | h e ih =>
    rw [nodes_eq, firstFault_cons_iff, firstFault_flatMap_iff, firstFault_iff_getElem?,
      hasFirstFault_iff]
    refine or_congr_right (and_congr_right fun _ => exists₂_congr fun i child => ?_)
    refine and_congr_right fun hchild => and_congr (ih child (List.mem_of_getElem? hchild)) ?_
    -- a child without a first fault has no fault at all
    simp only [not_firstFault_iff, mem_nodes_iff]

/-- Without a first fault there is none. -/
theorem not_hasFirstFault_iff :
    (∀ fault, ¬e.HasFirstFault Faulty fault) ↔ ∀ part, e.Has part → ∀ fault, ¬Faulty part fault := by
  simp only [← firstFault_nodes_iff, not_firstFault_iff, mem_nodes_iff]

/-- Only the faults of parts count. -/
theorem hasFirstFault_congr {Faulty' : Expr → KernelError → Prop}
    (h : ∀ part, e.Has part → ∀ fault, Faulty part fault ↔ Faulty' part fault) :
    e.HasFirstFault Faulty fault ↔ e.HasFirstFault Faulty' fault := by
  refine exists₂_congr fun place part => and_congr_right fun hpart => ?_
  refine and_congr (h part ⟨place, hpart⟩ fault) (forall₄_congr fun earlier _ other hother => ?_)
  exact forall_congr' fun fault => not_congr (h other ⟨earlier, hother⟩ fault)

end Places

end Expr

/-! ## Two checks -/

/-- The fault of a part that only core functions may have. -/
inductive CoreOnlyFault : Expr → KernelError → Prop where
  | element {k : Nat} {names : List String} :
      CoreOnlyFault (.element k names) (.coreOnlyNode .element)
  | sum {dim : String} {body : Expr} : CoreOnlyFault (.sum dim body) (.coreOnlyNode .sum)

/-- The fault of a part in a scalar function of that arity. -/
inductive ScalarFault (arity : Nat) : Expr → KernelError → Prop where
  | argument {i : Nat} : arity ≤ i → ScalarFault arity (.arg i) (.argumentOutOfRange i arity)
  | coreOnly {part : Expr} {fault : KernelError} : CoreOnlyFault part fault →
      ScalarFault arity part fault

/-- The expression has neither an element nor a sum. -/
structure Expr.Elementwise (e : Expr) : Prop where
  no_element : ∀ k names, ¬e.Has (.element k names)
  no_sum : ∀ dim body, ¬e.Has (.sum dim body)

/-- The expression is one for a scalar function of that arity. -/
structure Expr.FitsArity (e : Expr) (arity : Nat) : Prop extends e.Elementwise where
  arguments : ∀ i, e.Has (.arg i) → i < arity

namespace Expr

section Checks

variable {e part : Expr} {arity : Nat} {fault : KernelError}

theorem scalarFault?_eq_some_iff :
    part.scalarFault? arity = some fault ↔ ScalarFault arity part fault := by
  constructor
  · intro h
    cases part with
    | arg i =>
      obtain ⟨hge, heq⟩ := Option.ite_none_left_eq_some.mp h
      cases heq
      exact .argument (Nat.not_lt.mp hge)
    | element k names =>
      cases h
      exact .coreOnly .element
    | sum dim body =>
      cases h
      exact .coreOnly .sum
    | _ => cases h
  · rintro (hge | _ | _)
    · exact if_neg (Nat.not_lt.mpr hge)
    · rfl
    · rfl

theorem elementwise_iff :
    e.Elementwise ↔ ∀ part, e.Has part → ∀ fault, ¬CoreOnlyFault part fault := by
  constructor
  · rintro h part hpart fault (_ | _)
    · exact h.no_element _ _ hpart
    · exact h.no_sum _ _ hpart
  · intro h
    exact ⟨fun k names hpart => h _ hpart _ .element, fun dim body hpart => h _ hpart _ .sum⟩

/-- Without arguments out of range, only constructs of core functions are at fault. -/
theorem scalarFault_iff_of_arguments (h : ∀ i, part = .arg i → i < arity) :
    ScalarFault arity part fault ↔ CoreOnlyFault part fault := by
  constructor
  · rintro (hge | hcore)
    · exact absurd (h _ rfl) (Nat.not_lt.mpr hge)
    · exact hcore
  · exact .coreOnly

theorem fitsArity_iff :
    e.FitsArity arity ↔ ∀ part, e.Has part → ∀ fault, ¬ScalarFault arity part fault := by
  constructor
  · rintro h part hpart fault (hge | hcore)
    · exact Nat.not_lt.mpr hge (h.arguments _ hpart)
    · exact elementwise_iff.mp h.toElementwise part hpart fault hcore
  · intro h
    refine ⟨elementwise_iff.mpr fun part hpart fault hcore => h part hpart fault (.coreOnly hcore),
      fun i hpart => ?_⟩
    by_contra hge
    exact h _ hpart _ (.argument (Nat.not_lt.mp hge))

/-! ### The walk -/

/-- Shows every part to a visitor, each before its own parts, from left to right. The visitor hands
a state on from part to part. -/
def walk {State : Type} (visit : State → Expr → State) : Expr → State → State
  | const v, s => visit s (const v)
  | arg i, s => visit s (arg i)
  | unary op a, s => a.walk visit (visit s (unary op a))
  | binary op a b, s => b.walk visit (a.walk visit (visit s (binary op a b)))
  | select c t o, s => o.walk visit (t.walk visit (c.walk visit (visit s (select c t o))))
  | element k names, s => visit s (element k names)
  | sum dim body, s => body.walk visit (visit s (sum dim body))

theorem walk_eq_foldl {State : Type} (visit : State → Expr → State) (e : Expr) (s : State) :
    e.walk visit s = e.nodes.foldl visit s := by
  induction e generalizing s with
  | const v => rfl
  | arg i => rfl
  | unary op a ih => simp [walk, nodes, ih]
  | binary op a b iha ihb => simp [walk, nodes, iha, ihb]
  | select c t o ihc iht iho => simp [walk, nodes, ihc, iht, iho]
  | element k names => rfl
  | sum dim body ih => simp [walk, nodes, ih]

/-- A visitor that looks for a fault until it has found one, and keeps it from then on. -/
def keepFirst (arity : Nat) (found : Option KernelError) (part : Expr) : Option KernelError :=
  match found with
  | some fault => some fault
  | none => part.scalarFault? arity

theorem foldl_keepFirst (arity : Nat) (found : Option KernelError) (parts : List Expr) :
    parts.foldl (keepFirst arity) found = found.or (parts.findSome? (scalarFault? arity)) := by
  induction parts generalizing found with
  | nil => simp
  | cons part parts ih =>
    rw [List.foldl_cons, ih, List.findSome?_cons]
    cases found with
    | some fault => rfl
    | none => cases h : part.scalarFault? arity <;> simp [keepFirst, h]

/-- **A walk that goes on after the first fault** ends with it. -/
theorem walk_keepFirst (arity : Nat) (body : Expr) :
    body.walk (keepFirst arity) none = body.firstScalarFault? arity := by
  rw [walk_eq_foldl, foldl_keepFirst, Option.none_or, firstScalarFault?]

theorem firstScalarFault?_eq_some_iff :
    e.firstScalarFault? arity = some fault ↔ e.HasFirstFault (ScalarFault arity) fault := by
  rw [← firstFault_nodes_iff]
  exact findSome?_eq_some_iff_firstFault
    (List.forall₂_same.mpr fun part _ fault => scalarFault?_eq_some_iff)

/-! ### The recursion -/

/-- **Lowering fails with the first construct of core functions.** -/
theorem lowerScalar_failsWith (e : Expr) :
    FailsWith e.lowerScalar (e.HasFirstFault CoreOnlyFault) := by
  suffices h : FailsWith e.lowerScalar (FirstFault (fun _ => CoreOnlyFault) e.nodes) from
    h.congr fun fault => firstFault_nodes_iff
  induction e with
  | const v => exact .cons (fun _ h => by cases h) (.ok fun _ => not_firstFault_nil)
  | arg i => exact .cons (fun _ h => by cases h) (.ok fun _ => not_firstFault_nil)
  | unary op a ih => exact .cons (fun _ h => by cases h) ih.bind_ok
  | binary op a b iha ihb =>
    refine .cons (fun _ h => by cases h) ?_
    exact iha.bind_append fun _ _ => ihb.bind_ok
  | select c t o ihc iht iho =>
    rw [nodes, List.append_assoc]
    refine .cons (fun _ h => by cases h) ?_
    exact ihc.bind_append fun _ _ => iht.bind_append fun _ _ => iho.bind_ok
  | element k names =>
    refine .error_cons fun fault => ⟨fun h => ?_, ?_⟩
    · cases h
      rfl
    · rintro rfl
      exact .element
  | sum dim body ih =>
    -- the body is not looked at
    refine .error_cons fun fault => ⟨fun h => ?_, ?_⟩
    · cases h
      rfl
    · rintro rfl
      exact .sum

end Checks

end Expr

namespace ScalarFunction

/-- Making a function fails with the first fault of its body. -/
theorem ofBody_failsWith (name : String) (arity : Nat) (body : Expr) :
    FailsWith (ofBody name arity body) (body.HasFirstFault (ScalarFault arity)) := by
  intro fault
  rw [← Expr.firstScalarFault?_eq_some_iff, ofBody]
  split
  · next own hown => rw [hown, Except.error.injEq, Option.some.injEq]
  · next hnone => simp [hnone]

theorem fitsArity (f : ScalarFunction) : f.body.FitsArity f.arity := by
  refine Expr.fitsArity_iff.mpr (Expr.not_hasFirstFault_iff.mp fun fault hfault => ?_)
  cases f.faultless.symm.trans (Expr.firstScalarFault?_eq_some_iff.mpr hfault)

/-- A function is made of its name, its arity and its body. -/
theorem ofBody_eq_ok_iff {name : String} {arity : Nat} {body : Expr} {f : ScalarFunction} :
    ofBody name arity body = .ok f ↔ f.name = name ∧ f.arity = arity ∧ f.body = body := by
  rw [ofBody]
  split
  · next own hown =>
    refine iff_of_false (fun h => by cases h) ?_
    rintro ⟨-, rfl, rfl⟩
    cases hown.symm.trans f.faultless
  · next hnone =>
    obtain ⟨name', arity', body', hfaultless⟩ := f
    simp only [Except.ok.injEq, mk.injEq]
    simp only [eq_comm]

end ScalarFunction

/-! ## Lowered bodies -/

/-- The lowered tree has the shape of the expression, with the same numbers, arguments and
operators. -/
inductive SameTree : Expr → Node → Prop where
  | const {v : Float} : SameTree (.const v) (.const v)
  | arg {i : Nat} : SameTree (.arg i) (.arg i)
  | unary {op : UnaryOp} {a : Expr} {a' : Node} : SameTree a a' →
      SameTree (.unary op a) (.unary op a')
  | binary {op : BinaryOp} {a b : Expr} {a' b' : Node} : SameTree a a' → SameTree b b' →
      SameTree (.binary op a b) (.binary op a' b')
  | select {c t o : Expr} {c' t' o' : Node} : SameTree c c' → SameTree t t' → SameTree o o' →
      SameTree (.select c t o) (.select c' t' o')

/-- Lowering keeps the tree. -/
theorem Expr.sameTree_of_lowerScalar {e : Expr} {n : Node} (h : e.lowerScalar = .ok n) :
    SameTree e n := by
  induction e generalizing n with
  | const v =>
    cases h
    exact .const
  | arg i =>
    cases h
    exact .arg
  | unary op a ih =>
    obtain ⟨a', ha, heq⟩ := bind_eq_ok_iff.mp h
    cases heq
    exact .unary (ih ha)
  | binary op a b iha ihb =>
    obtain ⟨a', ha, h⟩ := bind_eq_ok_iff.mp h
    obtain ⟨b', hb, heq⟩ := bind_eq_ok_iff.mp h
    cases heq
    exact .binary (iha ha) (ihb hb)
  | select c t o ihc iht iho =>
    obtain ⟨c', hc, h⟩ := bind_eq_ok_iff.mp h
    obtain ⟨t', ht, h⟩ := bind_eq_ok_iff.mp h
    obtain ⟨o', ho, heq⟩ := bind_eq_ok_iff.mp h
    cases heq
    exact .select (ihc hc) (iht ht) (iho ho)
  | element k names => cases h
  | sum dim body ih => cases h

/-- The arguments of the lowered tree are those of the expression. -/
theorem SameTree.arg_mem_nodes {e : Expr} {n : Node} (h : SameTree e n) {sums inner : List Nat}
    {i : Nat} (hpart : ⟨inner, .arg i⟩ ∈ n.partsUnder sums) : .arg i ∈ e.nodes := by
  induction h with
  | const => simp [Node.partsUnder] at hpart
  | arg =>
    obtain ⟨-, rfl⟩ := by simpa [Node.partsUnder] using hpart
    exact List.mem_singleton.mpr rfl
  | unary _ ih =>
    have hpart := by simpa [Node.partsUnder] using hpart
    simp [Expr.nodes, ih hpart]
  | binary _ _ iha ihb =>
    have hpart := by simpa [Node.partsUnder] using hpart
    rcases hpart with hpart | hpart
    · simp [Expr.nodes, iha hpart]
    · simp [Expr.nodes, ihb hpart]
  | select _ _ _ ihc iht iho =>
    have hpart := by simpa [Node.partsUnder] using hpart
    rcases hpart with hpart | hpart | hpart
    · simp [Expr.nodes, ihc hpart]
    · simp [Expr.nodes, iht hpart]
    · simp [Expr.nodes, iho hpart]

/-- **The two checks of scalar bodies agree.** A function can be made exactly if its body fits the
arity, and it has the name, the arity and the body that it is made of; otherwise the fault is that of
the first part at fault, also for a walk that goes on behind it. An expression can be lowered exactly
if it has neither an element nor a sum, and otherwise the fault is that of the first of them, so the
faults are the same as long as all arguments are in range. A function that has been made can be
lowered, to the tree of its body. In a row of as many numbers as the function has arguments, every
argument of the tree has its number, and the kernel gives a value under every strategy. -/
theorem scalar_validators_agree :
    (∀ (name : String) (arity : Nat) (body : Expr),
      ((∃ f, ScalarFunction.ofBody name arity body = .ok f) ↔ body.FitsArity arity) ∧
      (∀ f, ScalarFunction.ofBody name arity body = .ok f ↔
        f.name = name ∧ f.arity = arity ∧ f.body = body) ∧
      (∀ fault, ScalarFunction.ofBody name arity body = .error fault ↔
        body.HasFirstFault (ScalarFault arity) fault) ∧
      (∀ fault, body.walk (Expr.keepFirst arity) none = some fault ↔
        body.HasFirstFault (ScalarFault arity) fault)) ∧
    (∀ e : Expr,
      ((∃ n, e.lowerScalar = .ok n) ↔ e.Elementwise) ∧
      (∀ fault, e.lowerScalar = .error fault ↔ e.HasFirstFault CoreOnlyFault fault) ∧
      ∀ (name : String) (arity : Nat), (∀ i, e.Has (.arg i) → i < arity) → ∀ fault,
        ScalarFunction.ofBody name arity e = .error fault ↔ e.lowerScalar = .error fault) ∧
    ∀ f : ScalarFunction, ∃ p, f.lower = .ok p ∧ p.arity = f.arity ∧ SameTree f.body p.root ∧
      ∀ row : List Float, row.length = f.arity →
        (∀ inner i, ⟨inner, .arg i⟩ ∈ p.root.parts → i < row.length) ∧
        ∃ x, ∀ strategy : Strategy, (strategy.compile p).onRow row = some x := by
  refine ⟨fun name arity body => ⟨?_, fun f => ScalarFunction.ofBody_eq_ok_iff,
    ScalarFunction.ofBody_failsWith name arity body, fun fault => ?_⟩,
    fun e => ⟨?_, e.lowerScalar_failsWith, fun name arity hrange fault => ?_⟩, fun f => ?_⟩
  · rw [(ScalarFunction.ofBody_failsWith name arity body).exists_ok_iff,
      Expr.not_hasFirstFault_iff, Expr.fitsArity_iff]
  · rw [Expr.walk_keepFirst, Expr.firstScalarFault?_eq_some_iff]
  · rw [e.lowerScalar_failsWith.exists_ok_iff, Expr.not_hasFirstFault_iff, Expr.elementwise_iff]
  · rw [ScalarFunction.ofBody_failsWith name arity e fault, e.lowerScalar_failsWith fault]
    refine Expr.hasFirstFault_congr fun part hpart fault => ?_
    exact Expr.scalarFault_iff_of_arguments fun i heq => hrange i (heq ▸ hpart)
  · obtain ⟨p, hp, hvalue⟩ := f.exists_lower
    obtain ⟨root, hroot, heq⟩ := bind_eq_ok_iff.mp hp
    cases heq
    have htree := Expr.sameTree_of_lowerScalar hroot
    refine ⟨_, hp, rfl, htree, fun row hrow => ⟨fun inner i hpart => ?_, ?_⟩⟩
    · rw [hrow]
      exact f.fitsArity.arguments i (Expr.mem_nodes_iff.mp (htree.arg_mem_nodes hpart))
    · obtain ⟨x, -, hx⟩ := hvalue row hrow
      exact ⟨x, hx⟩

/-- A function with a choice, for a row with which only one arm of it is chosen. -/
theorem scalar_validators_agree_on_choice :
    ∃ f p, ScalarFunction.ofBody "f" 2
        (.select (.arg 1) (.binary .div (.arg 0) (.arg 1)) (.const 0.0)) = .ok f ∧
      f.lower = .ok p ∧ [3.0, 0.0].length = f.arity ∧
      ∃ x, ∀ strategy : Strategy, (strategy.compile p).onRow [3.0, 0.0] = some x := by
  obtain ⟨p, hp, -, -, hrow⟩ := scalar_validators_agree.2.2
    ⟨"f", 2, .select (.arg 1) (.binary .div (.arg 0) (.arg 1)) (.const 0.0), rfl⟩
  exact ⟨_, p, rfl, hp, rfl, (hrow [3.0, 0.0] rfl).2⟩

/-- A sum is at fault before anything in its body, and behind what stands to its left. -/
example :
    ScalarFunction.ofBody "f" 1 (.binary .add (.arg 0) (.sum "n" (.element 0 ["n"]))) =
        .error (.coreOnlyNode .sum) ∧
      ScalarFunction.ofBody "f" 0 (.binary .add (.arg 0) (.sum "n" (.element 0 ["n"]))) =
        .error (.argumentOutOfRange 0 0) :=
  ⟨rfl, rfl⟩

end ArrayKernels
