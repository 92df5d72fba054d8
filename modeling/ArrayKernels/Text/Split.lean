/-!
# Splitting texts

The parts of a text between separators, and the number that a run of digits stands for.
-/

namespace ArrayKernels.Text

/-- The parts of a text between the characters `mark`. There is one part more than there are
marks. -/
def splitAtChar (mark : Char) : List Char → List (List Char)
  | [] => [[]]
  | c :: cs =>
    if c = mark then [] :: splitAtChar mark cs
    else
      match splitAtChar mark cs with
      | [] => [[c]]
      | part :: parts => (c :: part) :: parts

/-- The number that decimal digits stand for. -/
def ofDigits (digits : List Char) : Nat :=
  digits.foldl (fun n c => n * 10 + (c.toNat - '0'.toNat)) 0

/-- The number that a text stands for which consists of digits only, if it is below the bound. -/
def numberBelow? (bound : Nat) (digits : List Char) : Option Nat :=
  if !digits.isEmpty && digits.all Char.isDigit && decide (ofDigits digits < bound) then
    some (ofDigits digits)
  else none

/-- The number that a text stands for which consists of digits, with or without a plus sign in
front, if it is below the bound. -/
def naturalBelow? (bound : Nat) : List Char → Option Nat
  | '+' :: digits => numberBelow? bound digits
  | digits => numberBelow? bound digits

end ArrayKernels.Text
