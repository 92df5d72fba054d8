import ArrayKernels.Decimal.Shortest

/-!
# Scientific notation

A finite number of double precision in scientific notation: a minus sign for a negative number or a
negative zero, the first digit, a point and the other digits if there are any, and the exponent
after the letter `e`, with a sign only if it is negative.
-/

namespace ArrayKernels.Decimal

/-- The characters of an integer in base ten. -/
def spellInt (n : Int) : List Char :=
  if n < 0 then '-' :: Nat.toDigits 10 n.natAbs else Nat.toDigits 10 n.natAbs

/-- A decimal in scientific notation. -/
def spellNumeral (d : Numeral) : List Char :=
  match Nat.toDigits 10 d.digits with
  | [] => []
  | first :: rest =>
    let fraction := if rest.isEmpty then [] else '.' :: rest
    first :: fraction ++ 'e' :: spellInt (d.exponent + rest.length)

/-- A finite number with those bits in scientific notation. -/
def spellBits (bits : Nat) : List Char :=
  let magnitude := bits % signPlace
  let unsigned :=
    if magnitude = 0 then ['0', 'e', '0'] else spellNumeral (shortest (.ofBits magnitude))
  if bits / signPlace % 2 = 1 then '-' :: unsigned else unsigned

/-- A finite number in scientific notation. -/
def spellFloat (x : Float) : List Char := spellBits x.toBits.toNat

end ArrayKernels.Decimal
