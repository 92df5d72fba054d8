import ArrayKernels.Operator

/-!
# Kernel expressions

The language in which a function is handed in. An elementwise function speaks of its arguments by
position; a core function speaks of the elements of its inputs by dimension names, and may sum over
a dimension.
-/

namespace ArrayKernels

/-- A kernel expression. -/
inductive Expr where
  /-- A number. -/
  | const (value : Float)
  /-- The argument at a position. -/
  | arg (position : Nat)
  /-- A function of one number. -/
  | unary (op : UnaryOp) (operand : Expr)
  /-- A function of two numbers. -/
  | binary (op : BinaryOp) (lhs rhs : Expr)
  /-- The second expression unless the first one is zero, else the third. -/
  | select (cond chosen otherwise : Expr)
  /-- The element of an input's core block at the current values of the names. -/
  | element (operand : Nat) (index : List String)
  /-- The sum of the body over all values of a dimension. -/
  | sum (dim : String) (body : Expr)
deriving BEq

namespace Expr

/-- The expression and all its parts, each before its own parts, from left to right. -/
def nodes : Expr → List Expr
  | const v => [const v]
  | arg i => [arg i]
  | unary op a => unary op a :: a.nodes
  | binary op a b => binary op a b :: (a.nodes ++ b.nodes)
  | select c t o => select c t o :: (c.nodes ++ t.nodes ++ o.nodes)
  | element k names => [element k names]
  | sum dim body => sum dim body :: body.nodes

/-- The name of the outermost construct. -/
def tag : Expr → String
  | const _ => "const"
  | arg _ => "arg"
  | unary op _ => op.name
  | binary op _ _ => op.name
  | select _ _ _ => "select"
  | element _ _ => "elem"
  | sum _ _ => "sum"

end Expr

end ArrayKernels
