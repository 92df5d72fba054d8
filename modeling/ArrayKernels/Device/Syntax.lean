import ArrayKernels.Operator

/-!
# Device programs

The part of OpenCL C in which kernels for a device are written: unsigned words of 64 bits for
positions, double-precision numbers for values, declarations, counted loops, and one store at the
end.
-/

namespace ArrayKernels.Device

/-- The names that occur in a kernel. -/
inductive Name where
  /-- The number of the work item. -/
  | gid
  /-- The number of elements of the result. -/
  | count
  /-- The result. -/
  | out
  /-- The iteration of the loop over core blocks. -/
  | iteration
  /-- What is left of the position in the output's core block. -/
  | rest
  /-- The column of an argument. -/
  | column (position : Nat)
  /-- The value of an argument. -/
  | scalar (position : Nat)
  /-- The data of an input. -/
  | input (operand : Nat)
  /-- The start of an input's core block. -/
  | base (operand : Nat)
  /-- The index of a slot. -/
  | index (slot : Nat)
  /-- The running total of a sum. -/
  | total (number : Nat)
deriving DecidableEq

/-- A position. -/
inductive Word where
  /-- The number of the work item, as the device tells it. -/
  | globalId
  /-- Zero. -/
  | zero
  /-- A variable. -/
  | var (name : Name)
  /-- A variable times a number. -/
  | times (name : Name) (factor : Nat)
  /-- A variable divided by a number. -/
  | quotient (name : Name) (divisor : Nat)
  /-- The remainder of that division. -/
  | remainder (name : Name) (divisor : Nat)
  /-- A variable plus other variables, each times a number. -/
  | offset (base : Name) (terms : List (Name × Nat))
deriving DecidableEq

/-- A value. -/
inductive Value where
  | literal (value : Float)
  | var (name : Name)
  | unary (op : UnaryOp) (operand : Value)
  | binary (op : BinaryOp) (lhs rhs : Value)
  | select (cond chosen otherwise : Value)
  /-- The element of an array at a position. -/
  | element (array : Name) (position : Word)

/-- Statements, each with what follows it. -/
inductive Block where
  /-- Nothing more to do. -/
  | done
  /-- Declares a position that may change later only if it is not constant. -/
  | declareWord (constant : Bool) (name : Name) (value : Word) (next : Block)
  /-- Leaves the kernel unless one variable is below the other. -/
  | stopUnlessBelow (name bound : Name) (next : Block)
  /-- Divides a variable. -/
  | divide (name : Name) (divisor : Nat) (next : Block)
  /-- Declares a constant value. -/
  | declareValue (name : Name) (value : Value) (next : Block)
  /-- Declares a running total, which starts at zero. -/
  | declareTotal (name : Name) (next : Block)
  /-- Adds to a running total. -/
  | addTo (name : Name) (value : Value) (next : Block)
  /-- Runs the body for every index below a bound. -/
  | loop (index : Name) (bound : Nat) (body next : Block)
  /-- Stores a value in an array. -/
  | store (array : Name) (position : Word) (value : Value) (next : Block)

/-- One block after another. -/
def Block.append : Block → Block → Block
  | done, after => after
  | declareWord constant name value next, after =>
    declareWord constant name value (next.append after)
  | stopUnlessBelow name bound next, after => stopUnlessBelow name bound (next.append after)
  | divide name divisor next, after => divide name divisor (next.append after)
  | declareValue name value next, after => declareValue name value (next.append after)
  | declareTotal name next, after => declareTotal name (next.append after)
  | addTo name value next, after => addTo name value (next.append after)
  | loop index bound body next, after => loop index bound body (next.append after)
  | store array position value next, after => store array position value (next.append after)

/-- A kernel: its name, the arrays that it reads and its statements. Every kernel also has the
result and its number of elements as parameters. -/
structure Source where
  name : List Char
  arrays : List Name
  body : Block

end ArrayKernels.Device
