/-!
# Shortest decimals

The decimal that stands for a double-precision number in writing: a multiple of a power of ten, the
power as large as it can be while some multiple still reads back as the number, and of its multiples
the one nearest to the number.

A number reads back from every real that is nearer to it than to its neighbours. These reals form an
interval whose ends lie half way to the neighbours; an end belongs to it when the mantissa is even.
All quantities are exact: the interval is kept in quarters of the last binary place, and every test
compares natural numbers.
-/

namespace ArrayKernels.Decimal

/-! ## Binary numbers -/

/-- A positive number `mantissa * 2 ^ exponent` of double precision. -/
structure Binary where
  mantissa : Nat
  exponent : Int
  /-- The neighbour below is only half as far away as the one above. -/
  narrow : Bool
deriving DecidableEq

/-- What the lowest bit of the exponent stands for, above the 52 bits of the fraction. -/
def exponentPlace : Nat := Nat.pow 2 52

/-- What the bit of the sign stands for. -/
def signPlace : Nat := Nat.pow 2 63

/-- The number with those bits, the sign left out. -/
def Binary.ofBits (bits : Nat) : Binary :=
  let biased : Nat := bits % signPlace / exponentPlace
  let fraction : Nat := bits % exponentPlace
  if biased = 0 then ⟨fraction, -1074, false⟩
  else ⟨exponentPlace + fraction, (biased : Int) - 1075, fraction == 0 && biased != 1⟩

namespace Binary

/-- Four times the mantissa. -/
def quarters (b : Binary) : Nat := 4 * b.mantissa

/-- The lower end of the interval of reals that read back as the number, in quarters. -/
def lower (b : Binary) : Nat := b.quarters - (if b.narrow then 1 else 2)

/-- The upper end of the interval, in quarters. -/
def upper (b : Binary) : Nat := b.quarters + 2

/-- The value of a quarter is `quarterNum b g / quarterDen b g` times `10 ^ g`. -/
def quarterNum (b : Binary) (g : Int) : Nat :=
  Nat.pow 2 (b.exponent - 2).toNat * Nat.pow 10 (-g).toNat

/-- The denominator that goes with `quarterNum`. -/
def quarterDen (b : Binary) (g : Int) : Nat :=
  Nat.pow 2 (2 - b.exponent).toNat * Nat.pow 10 g.toNat

/-- Whether `d * 10 ^ g` reads back as the number. -/
def readsBack (b : Binary) (g : Int) (d : Nat) : Bool :=
  let point := d * b.quarterDen g
  let low := b.lower * b.quarterNum g
  let high := b.upper * b.quarterNum g
  if b.mantissa % 2 = 0 then low ≤ point && point ≤ high else low < point && point < high

end Binary

/-! ## Numerals -/

/-- The decimal number `digits * 10 ^ exponent`. -/
structure Numeral where
  digits : Nat
  exponent : Int
deriving DecidableEq

/-- The multiple of `10 ^ g` nearest to the number, of those that read back as it. Of two that are
equally near it is the greater one. -/
def nearestMultiple? (b : Binary) (g : Int) : Option Nat :=
  let value := b.quarters * b.quarterNum g
  let below := value / b.quarterDen g
  let beyondHalf := b.quarterDen g ≤ 2 * (value % b.quarterDen g)
  match b.readsBack g below, b.readsBack g (below + 1) with
  | true, true => some (if beyondHalf then below + 1 else below)
  | true, false => some below
  | false, true => some (below + 1)
  | false, false => none

/-- The finest power of ten that has to be looked at: the number itself is a multiple of it. -/
def finest (b : Binary) : Int := if b.exponent < 2 then b.exponent - 2 else 0

/-- Looks for the largest power of ten with a multiple that reads back, from `10 ^ g` down. After
`steps` powers the number itself is taken, as a multiple of the finest one. -/
def search (b : Binary) : (steps : Nat) → (g : Int) → Numeral
  | 0, _ => ⟨b.quarters * b.quarterNum (finest b) / b.quarterDen (finest b), finest b⟩
  | steps + 1, g =>
    match nearestMultiple? b g with
    | some d => ⟨d, g⟩
    | none => search b steps (g - 1)

/-- No number of double precision reaches the power of ten with this exponent. -/
def coarsest : Int := 309

/-- The shortest decimal that reads back as the number. -/
def shortest (b : Binary) : Numeral := search b (coarsest - finest b).toNat coarsest

end ArrayKernels.Decimal
