import ArrayKernels.Proofs.OpenCL.Tokens
import ArrayKernels.Shape
import ArrayKernels.Text.Split

/-!
# Reading OpenCL C

The fragment of the language in which kernels are generated: parameters, declarations of positions
and of numbers in double precision, assignments, an early return, counted loops, and expressions
with the precedence that the language gives to its operators. Positions and numbers are expressions
of one grammar, as in the language; what they mean is decided when they are evaluated.

Expressions are read from left to right. A chain of operators binds as the levels say, and operators
of one level from the left. The readers have a bound on their depth, which the number of tokens
gives.
-/

namespace ArrayKernels.OpenCL

/-! ## Syntax -/

/-- The operators between two operands. -/
inductive Operator where
  | times | dividedBy | modulo | plus | minus | below | above | atMost | atLeast | equal | unequal
deriving DecidableEq

namespace Operator

def all : List Operator :=
  [times, dividedBy, modulo, plus, minus, below, above, atMost, atLeast, equal, unequal]

def mark : Operator → List Char
  | times => ['*']
  | dividedBy => ['/']
  | modulo => ['%']
  | plus => ['+']
  | minus => ['-']
  | below => ['<']
  | above => ['>']
  | atMost => ['<', '=']
  | atLeast => ['>', '=']
  | equal => ['=', '=']
  | unequal => ['!', '=']

/-- How tightly the operator binds. -/
def level : Operator → Nat
  | times | dividedBy | modulo => 3
  | plus | minus => 2
  | below | above | atMost | atLeast => 1
  | equal | unequal => 0

/-- The operator at the start of a text, and what follows it. -/
def read? : List Token → Option (Operator × List Token)
  | .mark m :: rest => (all.find? (·.mark = m)).map (·, rest)
  | _ => none

end Operator

/-- Expressions. -/
inductive Term where
  /-- A constant of a signed type. -/
  | int (value : Nat)
  /-- A constant of the unsigned type of 64 bits. -/
  | word (value : Nat)
  /-- A decimal constant, as it is written. -/
  | decimal (text : List Char)
  | nan
  | infinity
  | name (text : List Char)
  /-- The item of an array at a position. -/
  | item (array : List Char) (position : Term)
  | call (function : List Char) (operand : Term)
  | callTwo (function : List Char) (lhs rhs : Term)
  | negated (operand : Term)
  | binary (op : Operator) (lhs rhs : Term)
  /-- The second expression unless the condition is zero, else the third. -/
  | choice (cond chosen otherwise : Term)

/-- The types of variables. -/
inductive Kind where
  /-- Unsigned words of 64 bits. -/
  | ulong
  | double
deriving DecidableEq

/-- Statements, each with what follows it. -/
inductive Code where
  | done
  | declare (constant : Bool) (kind : Kind) (name : List Char) (value : Term) (next : Code)
  /-- Leaves the kernel if the condition is not zero. -/
  | returnIf (cond : Term) (next : Code)
  /-- An assignment that combines the variable with a value. -/
  | update (name : List Char) (op : Operator) (value : Term) (next : Code)
  /-- Stores a value in an array. -/
  | store (array : List Char) (position value : Term) (next : Code)
  /-- Declares a position, and repeats the body as long as the condition is not zero; after each
  time the position grows by one. -/
  | loop (counter : List Char) (first cond : Term) (body next : Code)

/-- What a parameter stands for. -/
inductive ParameterKind where
  /-- An array that is only read. -/
  | source
  /-- An array that may be written to. -/
  | target
  /-- A constant position. -/
  | word
deriving DecidableEq

structure Parameter where
  kind : ParameterKind
  name : List Char

structure Kernel where
  name : List Char
  parameters : List Parameter
  body : Code

/-! ## Pieces of text -/

/-- What follows certain tokens, if the text begins with them. -/
def expect : (expected found : List Token) → Option (List Token)
  | [], found => some found
  | _, [] => none
  | token :: expected, other :: found => if token = other then expect expected found else none

/-- A keyword. -/
def keyword (text : String) : Token := .word text.toList

/-- A constant. A suffix tells its type; a number that begins with a zero and has more digits would
be octal, and is none of the fragment. -/
def readConstant (text : List Char) : Option Term :=
  let digits := text.takeWhile Char.isDigit
  let value := Text.ofDigits digits
  match text.dropWhile Char.isDigit with
  | [] => if digits = Nat.toDigits 10 value ∧ value < Nat.pow 2 31 then some (.int value) else none
  | ['U', 'L'] =>
    if digits = Nat.toDigits 10 value ∧ value < wordBound then some (.word value) else none
  | c :: _ => if c = '.' ∨ c = 'e' ∨ c = 'E' then some (.decimal text) else none

/-- A word that stands for a value. -/
def readWord (text : List Char) : Term :=
  if text = "NAN".toList then .nan
  else if text = "INFINITY".toList then .infinity
  else .name text

/-! ## Expressions -/

mutual

/-- An operand: a constant, a variable, an item of an array, a call, an expression between
parentheses, or the negation of an operand. -/
def readOperand : (depth : Nat) → List Token → Option (Term × List Token)
  | 0, _ => none
  | depth + 1, .mark ['-'] :: rest => do
    let (operand, rest) ← readOperand depth rest
    return (.negated operand, rest)
  | depth + 1, .mark ['('] :: rest => do
    let (term, rest) ← readTerm depth rest
    return (term, ← expect [.mark [')']] rest)
  | _ + 1, .number text :: rest => do
    return (← readConstant text, rest)
  | depth + 1, .word array :: .mark ['['] :: rest => do
    let (position, rest) ← readTerm depth rest
    return (.item array position, ← expect [.mark [']']] rest)
  | depth + 1, .word function :: .mark ['('] :: rest => do
    let (operand, rest) ← readTerm depth rest
    match rest with
    | .mark [','] :: rest => do
      let (other, rest) ← readTerm depth rest
      return (.callTwo function operand other, ← expect [.mark [')']] rest)
    | rest => return (.call function operand, ← expect [.mark [')']] rest)
  | _ + 1, .word text :: rest => some (readWord text, rest)
  | _ + 1, _ => none

/-- What operators of at least that level join to the term on their left. -/
def readChain : (depth level : Nat) → Term → List Token → Option (Term × List Token)
  | 0, _, _, _ => none
  | depth + 1, level, lhs, found =>
    match Operator.read? found with
    | some (op, rest) =>
      if level ≤ op.level then do
        let (rhs, rest) ← readLevel depth (op.level + 1) rest
        readChain depth level (.binary op lhs rhs) rest
      else some (lhs, found)
    | none => some (lhs, found)

/-- Operands that are joined by operators of at least that level. -/
def readLevel : (depth level : Nat) → List Token → Option (Term × List Token)
  | 0, _, _ => none
  | depth + 1, level, found => do
    let (lhs, rest) ← readOperand depth found
    readChain depth level lhs rest

/-- An expression: operands that are joined by operators, or a choice. -/
def readTerm : (depth : Nat) → List Token → Option (Term × List Token)
  | 0, _ => none
  | depth + 1, found => do
    let (term, rest) ← readLevel depth 0 found
    match rest with
    | .mark ['?'] :: rest => do
      let (chosen, rest) ← readTerm depth rest
      let rest ← expect [.mark [':']] rest
      let (otherwise, rest) ← readTerm depth rest
      return (.choice term chosen otherwise, rest)
    | rest => return (term, rest)

end

/-! ## Statements -/

/-- What stands behind the keywords of a declaration: a name, a value and a semicolon. -/
def readInitializer (depth : Nat) : List Token → Option (List Char × Term × List Token)
  | .word name :: .mark ['='] :: rest => do
    let (value, rest) ← readTerm depth rest
    return (name, value, ← expect [.mark [';']] rest)
  | _ => none

/-- The keyword of a type. -/
def readKind : List Token → Option (Kind × List Token)
  | .word text :: rest =>
    if text = "ulong".toList then some (.ulong, rest)
    else if text = "double".toList then some (.double, rest)
    else none
  | _ => none

/-- The head of a loop: the counter, its first value and the condition. -/
def readHead (depth : Nat) (found : List Token) :
    Option (List Char × Term × Term × List Token) := do
  let rest ← expect [.mark ['('], keyword "ulong"] found
  let (counter, first, rest) ← readInitializer depth rest
  let (cond, rest) ← readTerm depth rest
  let rest ← expect [.mark [';'], .mark ['+', '+'], .word counter, .mark [')'], .mark ['\x7b']] rest
  return (counter, first, cond, rest)

/-- The statements up to a closing brace. -/
def readCode : (depth : Nat) → List Token → Option (Code × List Token)
  | 0, _ => none
  | _ + 1, .mark ['\x7d'] :: rest => some (.done, .mark ['\x7d'] :: rest)
  | depth + 1, .word text :: rest =>
    if text = "if".toList then do
      let rest ← expect [.mark ['(']] rest
      let (cond, rest) ← readTerm depth rest
      let rest ← expect [.mark [')'], keyword "return", .mark [';']] rest
      let (next, rest) ← readCode depth rest
      return (.returnIf cond next, rest)
    else if text = "for".toList then do
      let (counter, first, cond, rest) ← readHead depth rest
      let (body, rest) ← readCode depth rest
      let rest ← expect [.mark ['\x7d']] rest
      let (next, rest) ← readCode depth rest
      return (.loop counter first cond body next, rest)
    else if text = "const".toList then do
      let (kind, rest) ← readKind rest
      let (name, value, rest) ← readInitializer depth rest
      let (next, rest) ← readCode depth rest
      return (.declare true kind name value next, rest)
    else
      match readKind (.word text :: rest) with
      | some (kind, rest) => do
        let (name, value, rest) ← readInitializer depth rest
        let (next, rest) ← readCode depth rest
        return (.declare false kind name value next, rest)
      | none =>
        match rest with
        | .mark ['+', '='] :: rest => do
          let (value, rest) ← readTerm depth rest
          let (next, rest) ← readCode depth (← expect [.mark [';']] rest)
          return (.update text .plus value next, rest)
        | .mark ['/', '='] :: rest => do
          let (value, rest) ← readTerm depth rest
          let (next, rest) ← readCode depth (← expect [.mark [';']] rest)
          return (.update text .dividedBy value next, rest)
        | .mark ['['] :: rest => do
          let (position, rest) ← readTerm depth rest
          let (value, rest) ← readTerm depth (← expect [.mark [']'], .mark ['=']] rest)
          let (next, rest) ← readCode depth (← expect [.mark [';']] rest)
          return (.store text position value next, rest)
        | _ => none
  | _ + 1, _ => none

/-! ## Kernels -/

/-- The parameters of a kernel. The last one is a constant position. -/
def readParameters : List Token → Option (List Parameter × List Token)
  | .word space :: .word const :: .word type :: .mark ['*'] :: .word name :: .mark [','] ::
      rest =>
    if [space, const, type] = ["__global", "const", "double"].map String.toList then do
      let (parameters, rest) ← readParameters rest
      return (⟨.source, name⟩ :: parameters, rest)
    else none
  | .word space :: .word type :: .mark ['*'] :: .word name :: .mark [','] :: rest =>
    if [space, type] = ["__global", "double"].map String.toList then do
      let (parameters, rest) ← readParameters rest
      return (⟨.target, name⟩ :: parameters, rest)
    else none
  | .word const :: .word type :: .word name :: .mark [')'] :: rest =>
    if [const, type] = ["const", "ulong"].map String.toList then
      some ([⟨.word, name⟩], rest)
    else none
  | _ => none

/-- The directive without which there are no numbers in double precision. -/
def precision : List Char := "#pragma OPENCL EXTENSION cl_khr_fp64 : enable".toList

/-- A kernel, from its first token to its last. -/
def readKernel (found : List Token) : Option Kernel := do
  let rest ← expect [.directive precision, keyword "__kernel", keyword "void"] found
  match rest with
  | .word name :: .mark ['('] :: rest => do
    let (parameters, rest) ← readParameters rest
    let rest ← expect [.mark ['\x7b']] rest
    let (body, rest) ← readCode (4 * rest.length + 4) rest
    if rest = [.mark ['\x7d']] then return ⟨name, parameters, body⟩ else none
  | _ => none

/-- The kernel that a text consists of. -/
def read? (text : List Char) : Option Kernel := (tokens text).bind readKernel

end ArrayKernels.OpenCL
