import ArrayKernels.Expr
import ArrayKernels.Shape
import Mathlib.Algebra.Group.Nat.Defs

/-!
# What expressions mean

The value of an expression, read off its text. A scalar expression has a value for a row of
arguments. A core expression has one for blocks of numbers and for values of the dimension names: a
name means what the innermost sum over it says, or else what it has been given from outside.

An expression that uses what is not there has no value.
-/

namespace ArrayKernels

/-! ## Scalar expressions -/

/-- The value of a scalar expression for a row of arguments. -/
def Expr.valueAt (args : List Float) : Expr → Option Float
  | const v => some v
  | arg i => args[i]?
  | unary op a => do return op.apply (← a.valueAt args)
  | binary op a b => do
    let x ← a.valueAt args
    let y ← b.valueAt args
    return op.apply x y
  | select c t o => do
    let x ← c.valueAt args
    if x != 0.0 then t.valueAt args else o.valueAt args
  | element _ _ => none
  | sum _ _ => none

/-! ## Core expressions -/

/-- A block of numbers in row-major order. -/
structure CoreBlock where
  shape : Shape
  data : Array Float

/-- The place of a multi-index in the row-major order of a shape, if it lies inside. -/
def rowMajorPosition : Shape → List Nat → Option Nat
  | [], [] => some 0
  | extent :: shape, i :: index => do
    let inner ← rowMajorPosition shape index
    if i < extent then return i * shape.prod + inner else none
  | _, _ => none

/-- The element of a block at a multi-index. -/
def CoreBlock.at? (block : CoreBlock) (index : List Nat) : Option Float := do
  block.data[← rowMajorPosition block.shape index]?

/-- The values of the dimension names that have one. -/
abbrev NameValues := String → Option Nat

/-- The values with another one for a name. -/
def NameValues.set (values : NameValues) (name : String) (value : Nat) : NameValues :=
  fun other => if other = name then some value else values other

/-- The sum of what a function gives for the numbers below a bound, from left to right and from
zero on. -/
def sumBelow (f : Nat → Option Float) : Nat → Option Float
  | 0 => some 0.0
  | n + 1 => do
    let total ← sumBelow f n
    return total + (← f n)

/-- The value of a core expression for blocks of the inputs, extents of the dimension names and
values of those that have one. -/
def Expr.coreValueAt (blocks : List CoreBlock) (extents : NameValues) :
    NameValues → Expr → Option Float
  | _, const v => some v
  | _, arg _ => none
  | values, unary op a => do return op.apply (← a.coreValueAt blocks extents values)
  | values, binary op a b => do
    let x ← a.coreValueAt blocks extents values
    let y ← b.coreValueAt blocks extents values
    return op.apply x y
  | values, select c t o => do
    let x ← c.coreValueAt blocks extents values
    if x != 0.0 then t.coreValueAt blocks extents values else o.coreValueAt blocks extents values
  | values, element k names => do
    let block ← blocks[k]?
    let index ← names.mapM values
    block.at? index
  | values, sum dim body => do
    let extent ← extents dim
    sumBelow (fun i => body.coreValueAt blocks extents (values.set dim i)) extent

end ArrayKernels
