import ArrayKernels.Expr
import ArrayKernels.Proofs.Scoping

/-!
# Parts of trees

What a tree consists of, before lowering and after it: its parts in pre-order, each with the
dimensions that the sums around it are over. What is said of a part may depend on the sums around
it, but on nothing to its left or right, so conditions on a tree and on its parts come to the same.

## Main results

- `Node.scoped_iff`: a tree is well scoped exactly if each of its parts is well placed.
- `Node.loads_eq_filterMap`: the reads of a tree are those of its parts.
-/

namespace ArrayKernels

/-! ## Parts and the sums around them -/

/-- A part of a tree, and the dimensions of the sums around it, the innermost first. -/
structure Part (Dim Tree : Type) where
  sums : List Dim
  node : Tree

/-- The expression and all its parts, each before its own parts, from left to right, if the
expression itself stands inside of those sums. -/
def Expr.partsUnder : List String → Expr → List (Part String Expr)
  | sums, const v => [⟨sums, const v⟩]
  | sums, arg i => [⟨sums, arg i⟩]
  | sums, unary op a => ⟨sums, unary op a⟩ :: a.partsUnder sums
  | sums, binary op a b => ⟨sums, binary op a b⟩ :: (a.partsUnder sums ++ b.partsUnder sums)
  | sums, select c t o =>
    ⟨sums, select c t o⟩ :: (c.partsUnder sums ++ t.partsUnder sums ++ o.partsUnder sums)
  | sums, element k names => [⟨sums, element k names⟩]
  | sums, sum dim body => ⟨sums, sum dim body⟩ :: body.partsUnder (dim :: sums)

/-- The parts of an expression that no sum is around. -/
def Expr.parts (e : Expr) : List (Part String Expr) := e.partsUnder []

/-- The tree and all its parts, each before its own parts, from left to right, if the tree itself
stands inside of those sums. -/
def Node.partsUnder : List Nat → Node → List (Part Nat Node)
  | sums, const v => [⟨sums, const v⟩]
  | sums, arg i => [⟨sums, arg i⟩]
  | sums, unary op a => ⟨sums, unary op a⟩ :: a.partsUnder sums
  | sums, binary op a b => ⟨sums, binary op a b⟩ :: (a.partsUnder sums ++ b.partsUnder sums)
  | sums, select c t o =>
    ⟨sums, select c t o⟩ :: (c.partsUnder sums ++ t.partsUnder sums ++ o.partsUnder sums)
  | sums, load k slots => [⟨sums, load k slots⟩]
  | sums, sum slot body => ⟨sums, sum slot body⟩ :: body.partsUnder (slot :: sums)

/-- The parts of a tree that no sum is around. -/
def Node.parts (n : Node) : List (Part Nat Node) := n.partsUnder []

/-! ## Conditions on the parts of a lowered tree -/

/-- The part is no argument, sums over a slot, and reads at slots that have a value there: those in
`outer` and those of the sums around it. -/
def Part.Placed (slotCount : Nat) (outer : List Nat) (part : Part Nat Node) : Prop :=
  match part.node with
  | .arg _ => False
  | .sum slot _ => slot < slotCount
  | .load _ slots => ∀ slot ∈ slots, slot ∈ part.sums ++ outer
  | _ => True

/-- **A tree is well scoped exactly if each of its parts is well placed.** -/
theorem Node.scoped_iff {slotCount : Nat} {sums outer : List Nat} {n : Node} :
    n.Scoped slotCount (sums ++ outer) ↔
      ∀ part ∈ n.partsUnder sums, part.Placed slotCount outer := by
  -- a sum puts its slot in front of those that are in scope already
  induction n generalizing sums with
  | const v => simp [Scoped, partsUnder, Part.Placed]
  | arg i => simp [Scoped, partsUnder, Part.Placed]
  | unary op a ih =>
    rw [partsUnder, List.forall_mem_cons, ← ih]
    exact (and_iff_right trivial).symm
  | binary op a b iha ihb =>
    rw [partsUnder, List.forall_mem_cons, List.forall_mem_append, ← iha, ← ihb]
    exact (and_iff_right trivial).symm
  | select c t o ihc iht iho =>
    rw [partsUnder, List.forall_mem_cons, List.forall_mem_append, List.forall_mem_append, ← ihc,
      ← iht, ← iho, and_assoc]
    exact (and_iff_right trivial).symm
  | load k slots => simp [Scoped, partsUnder, Part.Placed]
  | sum slot body ih =>
    rw [partsUnder, List.forall_mem_cons, ← ih]
    exact Iff.rfl

/-- The read that a node makes itself, if it makes one. -/
def Node.access? : Node → Option Access
  | load k slots => some ⟨k, slots⟩
  | _ => none

/-- The reads of a tree are those of its parts, in their order. -/
theorem Node.loads_eq_filterMap (n : Node) (sums : List Nat) :
    n.loads = (n.partsUnder sums).filterMap fun part => part.node.access? := by
  induction n generalizing sums with
  | const v => rfl
  | arg i => rfl
  | unary op a ih =>
    rw [partsUnder, List.filterMap_cons_none rfl, ← ih, loads]
  | binary op a b iha ihb =>
    rw [partsUnder, List.filterMap_cons_none rfl, List.filterMap_append, ← iha, ← ihb, loads]
  | select c t o ihc iht iho =>
    rw [partsUnder, List.filterMap_cons_none rfl, List.filterMap_append, List.filterMap_append,
      ← ihc, ← iht, ← iho, loads]
  | load k slots => rfl
  | sum slot body ih =>
    rw [partsUnder, List.filterMap_cons_none rfl, ← ih, loads]

end ArrayKernels
