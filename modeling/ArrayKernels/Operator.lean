/-!
# Operators

The unary and binary functions on double-precision numbers from which kernel expressions are built,
with the names under which they are written.

Comparisons give `1.0` or `0.0`. `minimum` and `maximum` give the other operand when one of them is
not a number. Which of two zeros of opposite sign they give is not part of their meaning.
-/

namespace ArrayKernels

/-! ## Functions of one number -/

/-- A function of one number. -/
inductive UnaryOp where
  | neg | abs | sqrt | exp | ln | sin | cos | tanh | floor
deriving DecidableEq

namespace UnaryOp

/-- The value of the function at `x`. -/
def apply : UnaryOp → Float → Float
  | neg, x => -x
  | abs, x => x.abs
  | sqrt, x => x.sqrt
  | exp, x => x.exp
  | ln, x => x.log
  | sin, x => x.sin
  | cos, x => x.cos
  | tanh, x => x.tanh
  | floor, x => x.floor

/-- All functions of one number. -/
def all : List UnaryOp := [neg, abs, sqrt, exp, ln, sin, cos, tanh, floor]

/-- The name of the function. -/
def name : UnaryOp → String
  | neg => "neg"
  | abs => "abs"
  | sqrt => "sqrt"
  | exp => "exp"
  | ln => "ln"
  | sin => "sin"
  | cos => "cos"
  | tanh => "tanh"
  | floor => "floor"

/-- The function of that name. -/
def ofName? (text : String) : Option UnaryOp := all.find? (·.name = text)

end UnaryOp

/-! ## Functions of two numbers -/

/-- A function of two numbers. -/
inductive BinaryOp where
  | add | sub | mul | div | pow | min | max | lt | le | gt | ge | eq
deriving DecidableEq

/-- The number that stands for a truth value. -/
def truth (b : Bool) : Float := if b then 1.0 else 0.0

/-- The lesser of two numbers, or the other one when one of them is not a number. -/
def minimum (a b : Float) : Float :=
  if a.isNaN then b else if b.isNaN then a else if b < a then b else a

/-- The greater of two numbers, or the other one when one of them is not a number. -/
def maximum (a b : Float) : Float :=
  if a.isNaN then b else if b.isNaN then a else if a < b then b else a

namespace BinaryOp

/-- The value of the function at `a` and `b`. -/
def apply : BinaryOp → Float → Float → Float
  | add, a, b => a + b
  | sub, a, b => a - b
  | mul, a, b => a * b
  | div, a, b => a / b
  | pow, a, b => a.pow b
  | min, a, b => minimum a b
  | max, a, b => maximum a b
  | lt, a, b => truth (a < b)
  | le, a, b => truth (a ≤ b)
  | gt, a, b => truth (b < a)
  | ge, a, b => truth (b ≤ a)
  | eq, a, b => truth (a == b)

/-- All functions of two numbers. -/
def all : List BinaryOp := [add, sub, mul, div, pow, min, max, lt, le, gt, ge, eq]

/-- The name of the function. -/
def name : BinaryOp → String
  | add => "add"
  | sub => "sub"
  | mul => "mul"
  | div => "div"
  | pow => "pow"
  | min => "min"
  | max => "max"
  | lt => "lt"
  | le => "le"
  | gt => "gt"
  | ge => "ge"
  | eq => "eq"

/-- The function of that name. -/
def ofName? (text : String) : Option BinaryOp := all.find? (·.name = text)

end BinaryOp

end ArrayKernels
