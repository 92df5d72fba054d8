import ArrayKernels.Device.Syntax
import ArrayKernels.Decimal.Scientific

/-!
# The text of device programs

One statement stands on one line, indented by four blanks for every block around it. Operators that
are written between their operands come with parentheses around the whole, so the text needs no
rules of precedence. A number is written in scientific notation between parentheses.
-/

namespace ArrayKernels.Device

/-! ## Names and positions -/

/-- The text of a natural number. -/
def spellNat (n : Nat) : List Char := Nat.toDigits 10 n

/-- The text of a word literal. -/
def spellWordLiteral (n : Nat) : List Char := spellNat n ++ ['U', 'L']

/-- The text of a name. -/
def Name.spell : Name → List Char
  | gid => "gid".toList
  | count => "n".toList
  | out => "out".toList
  | iteration => "l".toList
  | rest => "rest".toList
  | column k => 'a' :: spellNat k
  | scalar k => 'x' :: spellNat k
  | input k => "in".toList ++ spellNat k
  | base k => "base".toList ++ spellNat k
  | index slot => 'i' :: spellNat slot
  | total number => "acc".toList ++ spellNat number

/-- The text of the terms that are added to a variable. -/
def spellTerms : List (Name × Nat) → List Char
  | [] => []
  | (name, factor) :: terms =>
    " + ".toList ++ name.spell ++ " * ".toList ++ spellWordLiteral factor ++ spellTerms terms

/-- The text of a position. -/
def Word.spell : Word → List Char
  | globalId => "get_global_id(0)".toList
  | zero => ['0']
  | var name => name.spell
  | times name factor => name.spell ++ " * ".toList ++ spellWordLiteral factor
  | quotient name divisor => name.spell ++ " / ".toList ++ spellWordLiteral divisor
  | remainder name divisor => name.spell ++ " % ".toList ++ spellWordLiteral divisor
  | offset base terms => base.spell ++ spellTerms terms

/-! ## Values -/

/-- The text of a number. -/
def spellLiteral (x : Float) : List Char :=
  if x.isNaN then "NAN".toList
  else if x == 1.0 / 0.0 then "INFINITY".toList
  else if x == -1.0 / 0.0 then "(-INFINITY)".toList
  else '(' :: Decimal.spellFloat x ++ [')']

/-- The text in front of the operand of a function of one value. A closing parenthesis follows the
operand. -/
def unaryOpening : UnaryOp → List Char
  | .neg => "(-".toList
  | .abs => "fabs(".toList
  | .sqrt => "sqrt(".toList
  | .exp => "exp(".toList
  | .ln => "log(".toList
  | .sin => "sin(".toList
  | .cos => "cos(".toList
  | .tanh => "tanh(".toList
  | .floor => "floor(".toList

/-- The text around the operands of a function of two values. -/
structure BinaryFrame where
  opening : List Char
  middle : List Char
  closing : List Char

namespace BinaryFrame

/-- An operator between its operands. -/
def ofOperator (operator : String) : BinaryFrame :=
  ⟨['('], ' ' :: operator.toList ++ [' '], [')']⟩

/-- A call. -/
def ofFunction (function : String) : BinaryFrame := ⟨function.toList ++ ['('], [',', ' '], [')']⟩

/-- A comparison, whose value is one or zero. -/
def ofComparison (operator : String) : BinaryFrame :=
  ⟨['('], ' ' :: operator.toList ++ [' '], " ? 1.0 : 0.0)".toList⟩

/-- The text around the operands of the function. -/
def ofOp : BinaryOp → BinaryFrame
  | .add => ofOperator "+"
  | .sub => ofOperator "-"
  | .mul => ofOperator "*"
  | .div => ofOperator "/"
  | .pow => ofFunction "pow"
  | .min => ofFunction "fmin"
  | .max => ofFunction "fmax"
  | .lt => ofComparison "<"
  | .le => ofComparison "<="
  | .gt => ofComparison ">"
  | .ge => ofComparison ">="
  | .eq => ofComparison "=="

end BinaryFrame

namespace Value

/-- The text of a value in front of a text. -/
def spellBefore : Value → List Char → List Char
  | literal x, text => spellLiteral x ++ text
  | var name, text => name.spell ++ text
  | unary op a, text => unaryOpening op ++ a.spellBefore (')' :: text)
  | binary op a b, text =>
    let frame := BinaryFrame.ofOp op
    frame.opening ++ a.spellBefore (frame.middle ++ b.spellBefore (frame.closing ++ text))
  | select c t o, text =>
    '(' :: c.spellBefore
      (" != 0.0 ? ".toList ++ t.spellBefore (" : ".toList ++ o.spellBefore (')' :: text)))
  | element array position, text => array.spell ++ '[' :: position.spell ++ ']' :: text

/-- The text of a value. -/
def spell (value : Value) : List Char := value.spellBefore []

/-- A value is spelled the same in front of every text. -/
theorem spellBefore_append (value : Value) (text rest : List Char) :
    value.spellBefore (text ++ rest) = value.spellBefore text ++ rest := by
  induction value generalizing text with
  | literal x => simp [spellBefore]
  | var name => simp [spellBefore]
  | unary op a ih => simp only [spellBefore, ← List.cons_append, ← List.append_assoc, ih]
  | binary op a b iha ihb => simp only [spellBefore, ← List.append_assoc, iha, ihb]
  | select c t o ihc iht iho =>
    simp only [spellBefore, ← List.cons_append, ← List.append_assoc, ihc, iht, iho]
  | element array position => simp [spellBefore]

/-- The text of a value in front of a text is the one followed by the other. -/
theorem spellBefore_eq (value : Value) (text : List Char) :
    value.spellBefore text = value.spell ++ text := value.spellBefore_append [] text

end Value

/-! ## Statements -/

/-- A line at a depth. -/
def line (depth : Nat) (text : List Char) : List Char := List.replicate (4 * depth) ' ' ++ text

/-- The lines of a block at a depth. -/
def Block.lines (depth : Nat) : Block → List (List Char)
  | done => []
  | declareWord constant name value next =>
    line depth ((if constant then "const ".toList else []) ++ "ulong ".toList ++ name.spell
      ++ " = ".toList ++ value.spell ++ [';']) :: next.lines depth
  | stopUnlessBelow name bound next =>
    line depth ("if (".toList ++ name.spell ++ " >= ".toList ++ bound.spell
      ++ ") return;".toList) :: next.lines depth
  | divide name divisor next =>
    line depth (name.spell ++ " /= ".toList ++ spellWordLiteral divisor ++ [';'])
      :: next.lines depth
  | declareValue name value next =>
    line depth ("const double ".toList ++ name.spell ++ " = ".toList ++ value.spell ++ [';'])
      :: next.lines depth
  | declareTotal name next =>
    line depth ("double ".toList ++ name.spell ++ " = 0.0;".toList) :: next.lines depth
  | addTo name value next =>
    line depth (name.spell ++ " += ".toList ++ value.spell ++ [';']) :: next.lines depth
  | loop index bound body next =>
    line depth ("for (ulong ".toList ++ index.spell ++ " = 0; ".toList ++ index.spell
      ++ " < ".toList ++ spellWordLiteral bound ++ "; ++".toList ++ index.spell
      ++ [')', ' ', '\x7b']) :: (body.lines (depth + 1) ++ line depth ['\x7d'] :: next.lines depth)
  | store array position value next =>
    line depth (array.spell ++ '[' :: position.spell ++ "] = ".toList ++ value.spell ++ [';'])
      :: next.lines depth

/-! ## Kernels -/

/-- The line that allows double precision. -/
def precisionLine : List Char := "#pragma OPENCL EXTENSION cl_khr_fp64 : enable".toList

/-- The lines of a kernel. -/
def Source.lines (s : Source) : List (List Char) :=
  [precisionLine, [], "__kernel void ".toList ++ s.name ++ ['(']]
    ++ s.arrays.map (fun array => line 1 ("__global const double* ".toList ++ array.spell ++ [',']))
    ++ [line 1 "__global double* out,".toList, line 1 "const ulong n)".toList, ['\x7b']]
    ++ s.body.lines 1 ++ [['\x7d']]

/-- The text of a kernel. Every line ends with a line feed. -/
def Source.text (s : Source) : List Char := (s.lines.map (· ++ ['\n'])).flatten

/-- The text of a kernel as a string. -/
def Source.render (s : Source) : String := String.ofList s.text

end ArrayKernels.Device
