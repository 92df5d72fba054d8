import ArrayKernels.Decimal.Shortest
import Mathlib.Algebra.Order.Ring.Nat
import Mathlib.Tactic.Ring

/-!
# Decimals that read back

The reals that read back as a number lie between two ends, half way to its neighbours. In units of
a quarter of the last place that there is, the ends are natural numbers, and the upper end of a
number is the lower end of the next one. An end that two numbers share belongs to one of them at
most, for one of two neighbours is odd. So a decimal reads back as one number at most, and the
shortest decimal of a number is one that reads back as it.

## Main results

- `Binary.upperEnd_ofBits`: the intervals of neighbours meet.
- `Binary.eq_of_readsBack`: a decimal reads back as one number at most.
- `readsBack_shortest`: the shortest decimal reads back.
- `shortest_ofBits_injective`: different numbers have different shortest decimals.
-/

namespace ArrayKernels.Decimal

/-! ## Ends -/

/-- A unit is two to the power of minus this number: a quarter of the last binary place. -/
def unitPlace : Nat := 1076

/-- How many units there are in one. -/
def unitsInOne : Nat := 2 ^ unitPlace

/-- Numbers can be compared after a change of scale. -/
private theorem le_iff_of_scaled {x y x' y' u c : Nat} (hu : 0 < u) (hc : 0 < c)
    (hx : x * u = c * x') (hy : y * u = c * y') : x ≤ y ↔ x' ≤ y' := by
  rw [← Nat.mul_le_mul_right_iff hu, hx, hy, Nat.mul_le_mul_left_iff hc]

namespace Binary

/-- The lower end of the interval of a number, in units. -/
def lowerEnd (b : Binary) : Nat := b.lower * 2 ^ (b.exponent + 1074).toNat

/-- The upper end of the interval of a number, in units. -/
def upperEnd (b : Binary) : Nat := b.upper * 2 ^ (b.exponent + 1074).toNat

theorem lowerEnd_lt_upperEnd (b : Binary) : b.lowerEnd < b.upperEnd := by
  have hlt : b.lower < b.upper := by
    rw [lower, upper]
    omega
  exact Nat.mul_lt_mul_of_pos_right hlt (Nat.two_pow_pos _)

variable {b : Binary} {g : Int} {d : Nat}

theorem quarterNum_pos (b : Binary) (g : Int) : 0 < b.quarterNum g :=
  Nat.mul_pos (Nat.two_pow_pos _) (Nat.pow_pos (by decide))

/-- Quarters of a number in units, up to a power of two. -/
theorem quarters_scaled (h : -1074 ≤ b.exponent) (quarters : Nat) (g : Int) :
    quarters * b.quarterNum g * unitsInOne = 2 ^ (2 - b.exponent).toNat *
      (quarters * 2 ^ (b.exponent + 1074).toNat * 10 ^ (-g).toNat) := by
  have hplaces : (b.exponent - 2).toNat + unitPlace =
      (2 - b.exponent).toNat + (b.exponent + 1074).toNat := by
    have hunit : unitPlace = 1076 := rfl
    omega
  have hpowers : 2 ^ (b.exponent - 2).toNat * 2 ^ unitPlace =
      2 ^ (2 - b.exponent).toNat * 2 ^ (b.exponent + 1074).toNat := by
    rw [← pow_add, hplaces, pow_add]
  calc quarters * b.quarterNum g * unitsInOne
      = quarters * 10 ^ (-g).toNat * (2 ^ (b.exponent - 2).toNat * 2 ^ unitPlace) := by
        rw [quarterNum, unitsInOne, Nat.pow_eq, Nat.pow_eq]
        ring
    _ = 2 ^ (2 - b.exponent).toNat *
          (quarters * 2 ^ (b.exponent + 1074).toNat * 10 ^ (-g).toNat) := by
        rw [hpowers]
        ring

/-- A decimal in units, up to the same power of two. -/
theorem decimal_scaled (b : Binary) (d : Nat) (g : Int) :
    d * b.quarterDen g * unitsInOne =
      2 ^ (2 - b.exponent).toNat * (d * 10 ^ g.toNat * unitsInOne) := by
  rw [quarterDen, Nat.pow_eq, Nat.pow_eq]
  ring

/-- **What reads back lies between the ends**, and on an end only if the mantissa is even. -/
theorem readsBack_iff (h : -1074 ≤ b.exponent) :
    b.readsBack g d = true ↔
      let point := d * 10 ^ g.toNat * unitsInOne
      let low := b.lowerEnd * 10 ^ (-g).toNat
      let high := b.upperEnd * 10 ^ (-g).toNat
      if b.mantissa % 2 = 0 then low ≤ point ∧ point ≤ high else low < point ∧ point < high := by
  have hunits : 0 < unitsInOne := Nat.two_pow_pos _
  have hplace : 0 < 2 ^ (2 - b.exponent).toNat := Nat.two_pow_pos _
  have hpoint := b.decimal_scaled d g
  have hlow := quarters_scaled h b.lower g
  have hhigh := quarters_scaled h b.upper g
  unfold readsBack
  dsimp only
  -- an even mantissa keeps its ends, an odd one leaves them to the neighbours
  split
  · rw [Bool.and_eq_true, decide_eq_true_iff, decide_eq_true_iff,
      le_iff_of_scaled hunits hplace hlow hpoint, le_iff_of_scaled hunits hplace hpoint hhigh]
    rfl
  · rw [Bool.and_eq_true, decide_eq_true_iff, decide_eq_true_iff, ← Nat.not_le, ← Nat.not_le,
      le_iff_of_scaled hunits hplace hpoint hlow, le_iff_of_scaled hunits hplace hhigh hpoint,
      Nat.not_le, Nat.not_le]
    rfl

theorem ends_of_readsBack (h : -1074 ≤ b.exponent) (hback : b.readsBack g d = true) :
    b.lowerEnd * 10 ^ (-g).toNat ≤ d * 10 ^ g.toNat * unitsInOne ∧
      d * 10 ^ g.toNat * unitsInOne ≤ b.upperEnd * 10 ^ (-g).toNat := by
  have hends := (readsBack_iff h).mp hback
  dsimp only at hends
  split at hends
  · exact hends
  · exact ⟨Nat.le_of_lt hends.1, Nat.le_of_lt hends.2⟩

/-! ## Neighbours -/

/-- The number with those bits, if the sign is not set. -/
theorem ofBits_eq {bits : Nat} (h : bits < signPlace) :
    ofBits bits =
      if bits / exponentPlace = 0 then ⟨bits % exponentPlace, -1074, false⟩
      else ⟨exponentPlace + bits % exponentPlace, ((bits / exponentPlace : Nat) : Int) - 1075,
        bits % exponentPlace == 0 && bits / exponentPlace != 1⟩ := by
  rw [ofBits, Nat.mod_eq_of_lt h]

theorem exponent_ofBits_ge {bits : Nat} (h : bits < signPlace) :
    -1074 ≤ (ofBits bits).exponent := by
  rw [ofBits_eq h]
  generalize bits / exponentPlace = biased
  split
  · exact le_refl _
  · dsimp only
    omega

/-- The last bit of the mantissa is the last bit. -/
theorem mantissa_ofBits_mod_two {bits : Nat} (h : bits < signPlace) :
    (ofBits bits).mantissa % 2 = bits % 2 := by
  have hplace : exponentPlace = 4503599627370496 := rfl
  rw [ofBits_eq h, hplace]
  split
  · dsimp only
    omega
  · dsimp only
    omega

theorem mantissa_ofBits_pos {bits : Nat} (h : bits < signPlace) (hpos : 0 < bits) :
    0 < (ofBits bits).mantissa := by
  have hplace : exponentPlace = 4503599627370496 := rfl
  rw [ofBits_eq h, hplace]
  split
  · dsimp only
    omega
  · dsimp only
    omega

/-- Numbers with one exponent are neighbours if their mantissas are. -/
private theorem upperEnd_of_same_exponent (mantissa : Nat) (exponent : Int) (narrow : Bool) :
    upperEnd ⟨mantissa, exponent, narrow⟩ = lowerEnd ⟨mantissa + 1, exponent, false⟩ := by
  rw [upperEnd, lowerEnd, upper, lower, quarters, quarters]
  dsimp only
  rw [if_neg Bool.false_ne_true]
  congr 1

/-- The greatest mantissa with one exponent is next to the least one with the next exponent. -/
private theorem upperEnd_of_next_exponent {mantissa place : Nat} {exponent : Int}
    (hlast : mantissa + 1 = 2 * place) (h : -1074 ≤ exponent) (narrow : Bool) :
    upperEnd ⟨mantissa, exponent, narrow⟩ = lowerEnd ⟨place, exponent + 1, true⟩ := by
  have hshift : (exponent + 1 + 1074).toNat = (exponent + 1074).toNat + 1 := by omega
  rw [upperEnd, lowerEnd, upper, lower, quarters, quarters]
  dsimp only
  rw [if_pos rfl, hshift, pow_succ', ← Nat.mul_assoc]
  congr 1
  omega

/-- **The intervals of neighbours meet**: where one ends, the next one begins. -/
theorem upperEnd_ofBits {bits : Nat} (h : bits + 1 < signPlace) :
    (ofBits bits).upperEnd = (ofBits (bits + 1)).lowerEnd := by
  have hplace : exponentPlace = 4503599627370496 := rfl
  have hfraction : bits % exponentPlace < exponentPlace := Nat.mod_lt _ (by decide)
  rw [ofBits_eq (Nat.lt_of_succ_lt h), ofBits_eq h]
  by_cases hlast : bits % exponentPlace + 1 = exponentPlace
  · -- the next number has the next biased exponent, and no fraction
    have hnext : (bits + 1) % exponentPlace = 0 ∧
        (bits + 1) / exponentPlace = bits / exponentPlace + 1 := by
      rw [hplace] at hlast ⊢
      omega
    rw [hnext.1, hnext.2, if_neg (Nat.succ_ne_zero _)]
    cases bits / exponentPlace with
    | zero =>
      rw [if_pos rfl, upperEnd_of_same_exponent, hlast]
      rfl
    | succ biased =>
      have hexponent : ((biased + 1 + 1 : Nat) : Int) - 1075 = (biased + 1 : Nat) - 1075 + 1 := by
        omega
      have hnarrow : ((0 : Nat) == 0 && biased + 1 + 1 != 1) = true := by simp
      rw [if_neg (Nat.succ_ne_zero _), hexponent, hnarrow, Nat.add_zero]
      exact upperEnd_of_next_exponent (by omega) (by omega) _
  · -- the next number has the same biased exponent
    have hnext : (bits + 1) % exponentPlace = bits % exponentPlace + 1 ∧
        (bits + 1) / exponentPlace = bits / exponentPlace := by
      rw [hplace] at hlast hfraction ⊢
      omega
    rw [hnext.1, hnext.2]
    split
    · exact upperEnd_of_same_exponent _ _ _
    · exact upperEnd_of_same_exponent _ _ _

theorem lowerEnd_ofBits_lt {bits bits' : Nat} (h : bits < bits') (h' : bits' < signPlace) :
    (ofBits bits).lowerEnd < (ofBits bits').lowerEnd := by
  -- from one number to the next, the ends grow by an interval
  induction bits', h using Nat.le_induction with
  | base => exact upperEnd_ofBits h' ▸ lowerEnd_lt_upperEnd _
  | succ bits' _ ih =>
    exact Nat.lt_trans (ih (Nat.lt_of_succ_lt h')) (upperEnd_ofBits h' ▸ lowerEnd_lt_upperEnd _)

/-- No decimal reads back as a number and as a greater one. -/
private theorem not_readsBack_of_lt {bits bits' : Nat} (hlt : bits < bits') (h' : bits' < signPlace)
    (hback : (ofBits bits).readsBack g d = true) : ¬(ofBits bits').readsBack g d = true := by
  have h : bits < signPlace := Nat.lt_trans hlt h'
  have hpower : 0 < 10 ^ (-g).toNat := Nat.pow_pos (by decide)
  intro hback'
  have hhigh := (ends_of_readsBack (exponent_ofBits_ge h) hback).2
  have hlow := (ends_of_readsBack (exponent_ofBits_ge h') hback').1
  rw [upperEnd_ofBits (by omega)] at hhigh
  have hnext : bits + 1 ≤ bits' := hlt
  rcases Nat.lt_or_eq_of_le hnext with hgap | rfl
  · -- between the two intervals there is the one of a third number
    have hends := Nat.mul_lt_mul_of_pos_right (lowerEnd_ofBits_lt hgap h') hpower
    omega
  · -- the end that the two intervals share belongs to the even number
    rw [readsBack_iff (exponent_ofBits_ge h), mantissa_ofBits_mod_two h, upperEnd_ofBits h']
      at hback
    rw [readsBack_iff (exponent_ofBits_ge h'), mantissa_ofBits_mod_two h'] at hback'
    dsimp only at hback hback'
    split at hback
    · rw [if_neg (by omega)] at hback'
      omega
    · omega

/-- **A decimal reads back as one number at most.** -/
theorem eq_of_readsBack {bits bits' : Nat} (h : bits < signPlace) (h' : bits' < signPlace)
    (hback : (ofBits bits).readsBack g d = true) (hback' : (ofBits bits').readsBack g d = true) :
    bits = bits' := by
  rcases Nat.lt_trichotomy bits bits' with hlt | heq | hgt
  · exact absurd hback' (not_readsBack_of_lt hlt h' hback)
  · exact heq
  · exact absurd hback (not_readsBack_of_lt hgt h hback')

/-! ## The number itself -/

/-- A decimal equal to the number reads back. -/
theorem readsBack_of_exact (hpos : 0 < b.mantissa)
    (hexact : d * b.quarterDen g = b.quarters * b.quarterNum g) : b.readsBack g d = true := by
  have hends : b.lower < b.quarters ∧ b.quarters < b.upper := by
    rw [lower, upper, quarters]
    constructor
    · split <;> omega
    · omega
  have hlow := Nat.mul_lt_mul_of_pos_right hends.1 (b.quarterNum_pos g)
  have hhigh := Nat.mul_lt_mul_of_pos_right hends.2 (b.quarterNum_pos g)
  rw [← hexact] at hlow hhigh
  unfold readsBack
  dsimp only
  split
  · simp [hlow.le, hhigh.le]
  · simp [hlow, hhigh]

/-- The number is a multiple of the finest power of ten. -/
theorem quarterDen_finest_dvd (b : Binary) :
    b.quarterDen (finest b) ∣ b.quarters * b.quarterNum (finest b) := by
  rw [quarterDen, quarterNum, finest]
  split
  · -- as many powers of two as the place has stand in the power of ten
    have hplaces : (-(b.exponent - 2)).toNat = (2 - b.exponent).toNat := by omega
    have hnone : (b.exponent - 2).toNat = 0 := by omega
    have hpowers : 2 ^ (2 - b.exponent).toNat ∣ 10 ^ (2 - b.exponent).toNat :=
      pow_dvd_pow_of_dvd (by decide) _
    rw [hplaces, hnone, Nat.pow_eq, Nat.pow_eq, Nat.pow_zero, Nat.mul_one, Nat.one_mul]
    exact hpowers.mul_left b.quarters
  · -- the number is an integer
    have hnone : (2 - b.exponent).toNat = 0 := by omega
    rw [hnone]
    exact one_dvd _

end Binary

/-! ## The shortest decimal -/

variable {b : Binary} {g : Int} {d : Nat}

theorem readsBack_of_nearestMultiple (h : nearestMultiple? b g = some d) :
    b.readsBack g d = true := by
  unfold nearestMultiple? at h
  dsimp only at h
  split at h
  · cases h
    split <;> assumption
  · cases h
    assumption
  · cases h
    assumption
  · cases h

theorem readsBack_search (hpos : 0 < b.mantissa) (steps : Nat) (g : Int) :
    b.readsBack (search b steps g).exponent (search b steps g).digits = true := by
  induction steps generalizing g with
  | zero =>
    -- the number itself is taken
    exact Binary.readsBack_of_exact hpos (Nat.div_mul_cancel b.quarterDen_finest_dvd)
  | succ steps ih =>
    rw [search]
    cases hmultiple : nearestMultiple? b g with
    | some d => exact readsBack_of_nearestMultiple hmultiple
    | none => exact ih (g - 1)

/-- **The shortest decimal reads back** as the number it was made from. -/
theorem readsBack_shortest (hpos : 0 < b.mantissa) :
    b.readsBack (shortest b).exponent (shortest b).digits = true :=
  readsBack_search hpos _ _

/-- Zero does not read back as a positive number. -/
theorem digits_pos_of_readsBack (hpos : 0 < b.mantissa) (h : b.readsBack g d = true) : 0 < d := by
  have hlower : 0 < b.lower := by
    rw [Binary.lower, Binary.quarters]
    split <;> omega
  have hlow : 0 < b.lower * b.quarterNum g := Nat.mul_pos hlower (b.quarterNum_pos g)
  rw [Nat.pos_iff_ne_zero]
  rintro rfl
  unfold Binary.readsBack at h
  simp [hlow.ne'] at h

/-- Different numbers have different shortest decimals. -/
theorem shortest_ofBits_injective {bits bits' : Nat} (h : bits < signPlace) (h' : bits' < signPlace)
    (hpos : 0 < bits) (hpos' : 0 < bits')
    (heq : shortest (Binary.ofBits bits) = shortest (Binary.ofBits bits')) : bits = bits' := by
  have hback := readsBack_shortest (Binary.mantissa_ofBits_pos h hpos)
  rw [heq] at hback
  exact Binary.eq_of_readsBack h h' hback
    (readsBack_shortest (Binary.mantissa_ofBits_pos h' hpos'))

end ArrayKernels.Decimal
