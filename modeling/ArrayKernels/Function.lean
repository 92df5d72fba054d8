import ArrayKernels.Expr
import ArrayKernels.Error

/-!
# Functions

A scalar function maps its arguments to one number. A core function gives one element of an output
block from the blocks of its inputs; it is checked against a signature only when it is lowered.
-/

namespace ArrayKernels

/-- The fault of a single node as part of a scalar function of that arity, if it has one. -/
def Expr.scalarFault? (arity : Nat) : Expr → Option KernelError
  | .arg i => if i < arity then none else some (.argumentOutOfRange i arity)
  | .element _ _ => some (.coreOnlyNode .element)
  | .sum _ _ => some (.coreOnlyNode .sum)
  | _ => none

/-- The first fault of an expression as the body of a scalar function: an argument that the function
does not have, or a construct of core functions. -/
def Expr.firstScalarFault? (arity : Nat) (body : Expr) : Option KernelError :=
  body.nodes.findSome? (scalarFault? arity)

/-- A scalar function of fixed arity. -/
structure ScalarFunction where
  name : String
  arity : Nat
  body : Expr
  /-- The body uses the arguments that there are, and no construct of core functions. -/
  faultless : body.firstScalarFault? arity = none

/-- The scalar function with that body, or the first fault of the body. -/
def ScalarFunction.ofBody (name : String) (arity : Nat) (body : Expr) :
    Except KernelError ScalarFunction :=
  match h : body.firstScalarFault? arity with
  | some fault => .error fault
  | none => .ok ⟨name, arity, body, h⟩

/-- A core function: its value is one element of the output block. -/
structure CoreFunction where
  name : String
  body : Expr

end ArrayKernels
