import ArrayKernels.Proofs.Decimal.ReadBack
import ArrayKernels.Proofs.OpenCL.WrittenValues
import Mathlib

/-!
# Printed numbers

The text of a number in scientific notation tells the number. The letter `e` cuts the text into the
digits and the exponent, a decimal reads back as one number at most, and the sign stands in front.
So there is a reading of decimal constants under which every number that is printed in a kernel
denotes itself.

## Layers

- **Numerals**: the text of a decimal tells its digits and its exponent.
- **Bits**: the text of a number without its sign tells its bits without the highest one.
- **Negation**: a number and its negation differ in the highest bit.

## Main results

- `Decimal.spellFloat_injective`: different numbers have different texts.
- `Device.denotes_reading`: the reading of decimal constants.
-/

namespace ArrayKernels

namespace Decimal

/-! ## Numerals -/

theorem toDigits_injective : Function.Injective (Nat.toDigits 10) :=
  Function.LeftInverse.injective Text.ofDigits_toDigits

/-- No sign stands in the digits of a number. -/
private theorem toDigits_ne_sign (n : Nat) (rest : List Char) :
    Nat.toDigits 10 n ≠ '-' :: rest := by
  intro h
  have hdigit : '-'.isDigit = true := OpenCL.isDigit_of_mem (h ▸ List.mem_cons_self)
  exact absurd hdigit (by decide)

theorem spellInt_injective : Function.Injective spellInt := by
  intro m n h
  unfold spellInt at h
  -- both numbers have a sign in front or none has
  split at h
  · split at h
    · have habs := toDigits_injective (List.cons.inj h).2
      omega
    · exact absurd h.symm (toDigits_ne_sign _ _)
  · split at h
    · exact absurd h (toDigits_ne_sign _ _)
    · have habs := toDigits_injective h
      omega

theorem not_mem_spellInt (n : Int) : 'e' ∉ spellInt n := by
  have hdigits : 'e' ∉ Nat.toDigits 10 n.natAbs := fun h =>
    absurd (OpenCL.isDigit_of_mem h) (by decide)
  rw [spellInt]
  split
  · rw [List.mem_cons, not_or]
    exact ⟨by decide, hdigits⟩
  · exact hdigits

/-- The digits of a numeral with the point behind the first one. -/
def pointed (first : Char) (rest : List Char) : List Char :=
  first :: if rest.isEmpty then [] else '.' :: rest

theorem spellNumeral_eq (d : Numeral) :
    ∃ first rest, Nat.toDigits 10 d.digits = first :: rest ∧
      spellNumeral d = pointed first rest ++ 'e' :: spellInt (d.exponent + rest.length) := by
  cases hdigits : Nat.toDigits 10 d.digits with
  | nil => exact absurd hdigits Nat.toDigits_ne_nil
  | cons first rest => exact ⟨first, rest, rfl, by rw [spellNumeral, hdigits]; rfl⟩

theorem pointed_inj {first first' : Char} {rest rest' : List Char}
    (h : pointed first rest = pointed first' rest') : first = first' ∧ rest = rest' := by
  obtain ⟨hfirst, hfraction⟩ := List.cons.inj h
  refine ⟨hfirst, ?_⟩
  cases rest with
  | nil =>
    cases rest' with
    | nil => rfl
    | cons c rest' => cases hfraction
  | cons c rest =>
    cases rest' with
    | nil => cases hfraction
    | cons c' rest' => exact (List.cons.inj hfraction).2

theorem not_mem_pointed {first : Char} {rest : List Char}
    (h : ∀ c ∈ first :: rest, c.isDigit = true) : 'e' ∉ pointed first rest := by
  have hletter : 'e'.isDigit ≠ true := by decide
  obtain ⟨hfirst, hrest⟩ := List.forall_mem_cons.mp h
  intro hmem
  rcases List.mem_cons.mp hmem with rfl | hfraction
  · exact hletter hfirst
  split at hfraction
  · cases hfraction
  · rcases List.mem_cons.mp hfraction with hpoint | hrestMem
    · exact absurd hpoint (by decide)
    · exact hletter (hrest _ hrestMem)

/-- **The text of a decimal tells the decimal.** -/
theorem spellNumeral_injective : Function.Injective spellNumeral := by
  intro d d' h
  obtain ⟨first, rest, hdigits, htext⟩ := spellNumeral_eq d
  obtain ⟨first', rest', hdigits', htext'⟩ := spellNumeral_eq d'
  rw [htext, htext'] at h
  -- there is one `e`, behind the digits
  have hmem := not_mem_pointed fun c hc => OpenCL.isDigit_of_mem (hdigits ▸ hc)
  obtain ⟨hpointed, -, hexponent⟩ :=
    (List.append_cons_inj_of_notMem hmem (not_mem_spellInt _)).mp h
  obtain ⟨rfl, rfl⟩ := pointed_inj hpointed
  have hsame : d.digits = d'.digits := toDigits_injective (hdigits.trans hdigits'.symm)
  have hplace : d.exponent = d'.exponent := add_right_cancel (spellInt_injective hexponent)
  cases d
  cases d'
  exact congrArg₂ Numeral.mk hsame hplace

/-- The text begins with a digit, so with no sign. -/
theorem spellNumeral_ne_sign (d : Numeral) (rest : List Char) : spellNumeral d ≠ '-' :: rest := by
  obtain ⟨first, fraction, hdigits, htext⟩ := spellNumeral_eq d
  rw [htext]
  intro h
  obtain ⟨rfl, -⟩ := List.cons.inj h
  exact toDigits_ne_sign _ _ hdigits

theorem mem_spellNumeral (d : Numeral) : 'e' ∈ spellNumeral d := by
  obtain ⟨first, fraction, -, htext⟩ := spellNumeral_eq d
  rw [htext]
  exact List.mem_append_right _ List.mem_cons_self

/-! ## Bits -/

/-- The decimal that is printed for a number with those bits, the highest one left out. -/
def magnitudeNumeral (magnitude : Nat) : Numeral :=
  if magnitude = 0 then ⟨0, 0⟩ else shortest (.ofBits magnitude)

theorem spellBits_eq (bits : Nat) :
    spellBits bits =
      if bits / signPlace % 2 = 1 then '-' :: spellNumeral (magnitudeNumeral (bits % signPlace))
      else spellNumeral (magnitudeNumeral (bits % signPlace)) := by
  have hzero : spellNumeral ⟨0, 0⟩ = ['0', 'e', '0'] := by decide
  rw [spellBits, magnitudeNumeral, apply_ite spellNumeral, hzero]

theorem magnitudeNumeral_inj {m m' : Nat} (hm : m < signPlace) (hm' : m' < signPlace)
    (h : magnitudeNumeral m = magnitudeNumeral m') : m = m' := by
  have hdigits : ∀ m < signPlace, m ≠ 0 → shortest (.ofBits m) ≠ ⟨0, 0⟩ := by
    intro m hm hne hzero
    have hpos := Binary.mantissa_ofBits_pos hm (Nat.pos_of_ne_zero hne)
    have hback := digits_pos_of_readsBack hpos (readsBack_shortest hpos)
    rw [hzero] at hback
    exact Nat.lt_irrefl 0 hback
  unfold magnitudeNumeral at h
  -- a positive number is printed with a digit that is not zero
  split at h
  · next hzero =>
    split at h
    · next hzero' => rw [hzero, hzero']
    · next hne' => exact absurd h.symm (hdigits m' hm' hne')
  · next hne =>
    split at h
    · exact absurd h (hdigits m hm hne)
    · next hne' =>
      exact shortest_ofBits_injective hm hm' (Nat.pos_of_ne_zero hne) (Nat.pos_of_ne_zero hne') h

/-- The text of a number tells its bits. -/
theorem spellBits_inj {bits bits' : Nat} (hbits : bits < 2 ^ 64) (hbits' : bits' < 2 ^ 64)
    (h : spellBits bits = spellBits bits') : bits = bits' := by
  have hplace : signPlace = 9223372036854775808 := rfl
  have hmod : bits % signPlace < signPlace := Nat.mod_lt _ (by decide)
  have hmod' : bits' % signPlace < signPlace := Nat.mod_lt _ (by decide)
  rw [spellBits_eq, spellBits_eq] at h
  -- the sign and the decimal are the same
  split at h
  · next hsign =>
    split at h
    · next hsign' =>
      have hmagnitude := magnitudeNumeral_inj hmod hmod'
        (spellNumeral_injective (List.cons.inj h).2)
      rw [hplace] at hsign hsign' hmagnitude
      omega
    · exact absurd h.symm (spellNumeral_ne_sign _ _)
  · next hsign =>
    split at h
    · exact absurd h (spellNumeral_ne_sign _ _)
    · next hsign' =>
      have hmagnitude := magnitudeNumeral_inj hmod hmod' (spellNumeral_injective h)
      rw [hplace] at hsign hsign' hmagnitude
      omega

theorem eq_of_toNat_toBits_eq {x y : Float} (h : x.toBits.toNat = y.toBits.toNat) : x = y := by
  obtain ⟨⟨xs, hx⟩⟩ := x
  obtain ⟨⟨ys, hy⟩⟩ := y
  obtain rfl : xs = ys := UInt64.toNat_inj.mp h
  rfl

/-- **Different numbers have different texts.** -/
theorem spellFloat_injective : Function.Injective spellFloat := fun x y h =>
  eq_of_toNat_toBits_eq (spellBits_inj x.toBits.toNat_lt y.toBits.toNat_lt h)

end Decimal

/-! ## Negation -/

namespace Device

open Float.Model

/-- Whether bits stand for a number does not depend on the sign. -/
private theorem isNaNBits_packComponents {spec : Format} (s s' : UnpackedFloat.Sign)
    (exponent : BitVec spec.exponentBits) (mantissa : BitVec spec.mantissaBitsWithoutImplicit) :
    UnpackedFloat.isNaNBits (UnpackedFloat.packComponents spec s exponent mantissa) =
      UnpackedFloat.isNaNBits (UnpackedFloat.packComponents spec s' exponent mantissa) := by
  simp only [UnpackedFloat.isNaNBits, UnpackedFloat.unpackExponent_packComponents,
    UnpackedFloat.unpackMantissa_packComponents]

/-- The other sign bit stands for the negation. -/
private theorem unpack_packComponents_neg {spec : Format} (s : UnpackedFloat.Sign)
    (exponent : BitVec spec.exponentBits) (mantissa : BitVec spec.mantissaBitsWithoutImplicit) :
    UnpackedFloat.unpack spec (UnpackedFloat.packComponents spec (-s) exponent mantissa) =
      (UnpackedFloat.unpack spec (UnpackedFloat.packComponents spec s exponent mantissa)).neg := by
  simp only [UnpackedFloat.unpack, UnpackedFloat.unpackExponent_packComponents,
    UnpackedFloat.unpackMantissa_packComponents, UnpackedFloat.unpackSign_packComponents,
    UnpackedFloat.Sign.ofBitVec_toBitVec]
  split
  · split <;> rfl
  · split
    · split <;> rfl
    · rfl

/-- A number and its negation differ in the sign bit. -/
private theorem exists_packComponents_neg {x : Float} (h : ¬x.isNaN = true) :
    ∃ s exponent mantissa,
      x.toBits.toBitVec = UnpackedFloat.packComponents .binary64 s exponent mantissa ∧
      (-x).toBits.toBitVec = UnpackedFloat.packComponents .binary64 (-s) exponent mantissa := by
  let bits : BitVec Format.binary64.numBits := x.toBits.toBitVec
  have hbits := UnpackedFloat.packComponents_unpackSign_unpackExponent_unpackMantissa bits
  refine ⟨_, _, _, hbits.symm, ?_⟩
  have hneg : (-x).toBits.toBitVec =
      UnpackedFloat.pack .binary64 (UnpackedFloat.unpack .binary64 bits).neg := rfl
  have hnan : ¬UnpackedFloat.isNaNBits bits = true := by
    intro hnan
    obtain ⟨hexponent, hmantissa⟩ := of_decide_eq_true hnan
    have hcanonical := x.toModel.valid.eq_packedNaN hexponent hmantissa
    exact h ((UnpackedFloat.isNaN_unpack_iff_of_valid x.toModel.valid).mpr hcanonical)
  rw [← hbits, isNaNBits_packComponents _ (-_)] at hnan
  -- what is packed is what has been unpacked, unless it is no number
  rw [hneg]
  conv_lhs => rw [← hbits]
  rw [← unpack_packComponents_neg, UnpackedFloat.pack_unpack, if_neg hnan]

theorem unpack_neg {x : Float} (h : ¬x.isNaN = true) :
    (-x).toModel.unpack = x.toModel.unpack.neg := by
  obtain ⟨s, exponent, mantissa, hbits, hneg⟩ := exists_packComponents_neg h
  change UnpackedFloat.unpack .binary64 (-x).toBits.toBitVec =
    (UnpackedFloat.unpack .binary64 x.toBits.toBitVec).neg
  rw [hbits, hneg, unpack_packComponents_neg]

/-- Negation is undone by negation. -/
theorem neg_neg_of_not_isNaN {x : Float} (h : ¬x.isNaN = true) : -(-x) = x := by
  have hneg : ¬(-x).isNaN = true := by
    change ¬(-x).toModel.unpack.isNaN = true
    change ¬x.toModel.unpack.isNaN = true at h
    rw [unpack_neg h]
    cases hx : x.toModel.unpack with
    | notANumber =>
      rw [hx] at h
      exact absurd rfl h
    | infinity | zero | finite => exact Bool.false_ne_true
  apply eq_of_unpack_eq
  rw [unpack_neg hneg, unpack_neg h]
  cases x.toModel.unpack with
  | notANumber => rfl
  | infinity s | zero s | finite s => cases s <;> rfl

/-- The bits of a number, its sign bit apart. -/
private theorem exists_magnitude (exponent : BitVec Format.binary64.exponentBits)
    (mantissa : BitVec Format.binary64.mantissaBitsWithoutImplicit) :
    ∃ magnitude < Decimal.signPlace, ∀ s : UnpackedFloat.Sign,
      (UnpackedFloat.packComponents .binary64 s exponent mantissa).toNat =
        Decimal.signPlace * s.toBitVec.toNat + magnitude := by
  have hexponent : exponent.toNat < 2 ^ 11 := exponent.isLt
  have hmantissa : mantissa.toNat < 2 ^ 52 := mantissa.isLt
  have hplace : Decimal.signPlace = 9223372036854775808 := rfl
  refine ⟨2 ^ 52 * exponent.toNat + mantissa.toNat, by omega, fun s => ?_⟩
  rw [UnpackedFloat.packComponents, BitVec.toNat_append, BitVec.toNat_append,
    ← Nat.shiftLeft_add_eq_or_of_lt mantissa.isLt, ← Nat.shiftLeft_add_eq_or_of_lt exponent.isLt,
    Nat.shiftLeft_eq, Nat.shiftLeft_eq, hplace]
  change (s.toBitVec.toNat * 2 ^ 11 + exponent.toNat) * 2 ^ 52 + mantissa.toNat = _
  omega

/-- **A negative number is printed as its negation**, with a sign in front. -/
theorem spellFloat_eq {x : Float} (h : ¬x.isNaN = true) :
    (∃ d, Decimal.spellFloat x = Decimal.spellNumeral d) ∨
      Decimal.spellFloat x = '-' :: Decimal.spellFloat (-x) ∧
        ∃ d, Decimal.spellFloat (-x) = Decimal.spellNumeral d := by
  obtain ⟨s, exponent, mantissa, hbits, hneg⟩ := exists_packComponents_neg h
  obtain ⟨magnitude, hlt, hmagnitude⟩ := exists_magnitude exponent mantissa
  have hplain : ∀ y : Float, y.toBits.toNat = Decimal.signPlace * 0 + magnitude →
      Decimal.spellFloat y = Decimal.spellNumeral (Decimal.magnitudeNumeral magnitude) := by
    intro y hy
    rw [Decimal.spellFloat, Decimal.spellBits_eq, hy, Nat.mul_zero, Nat.zero_add,
      Nat.div_eq_of_lt hlt, Nat.mod_eq_of_lt hlt]
    rfl
  cases s with
  | positive => exact .inl ⟨_, hplain x ((congrArg BitVec.toNat hbits).trans (hmagnitude _))⟩
  | negative =>
    have hother := hplain (-x) ((congrArg BitVec.toNat hneg).trans (hmagnitude _))
    have hx : x.toBits.toNat = Decimal.signPlace * 1 + magnitude :=
      (congrArg BitVec.toNat hbits).trans (hmagnitude _)
    refine .inr ⟨?_, _, hother⟩
    have hdiv : x.toBits.toNat / Decimal.signPlace = 1 := by
      rw [hx, Nat.mul_add_div (by decide), Nat.div_eq_of_lt hlt]
    rw [hother, Decimal.spellFloat, Decimal.spellBits_eq, hdiv, if_pos rfl, hx, Nat.mul_add_mod,
      Nat.mod_eq_of_lt hlt]

/-! ## Reading -/

/-- The reading of decimal constants: what is printed for a number means the number. -/
noncomputable def reading (text : List Char) : Option Float :=
  if text = "0.0".toList then some 0.0
  else if text = "1.0".toList then some 1.0
  else Function.partialInv Decimal.spellFloat text

/-- The two constants that are not in scientific notation get in the way of no other. -/
theorem reading_spellFloat {x : Float} {d : Decimal.Numeral}
    (h : Decimal.spellFloat x = Decimal.spellNumeral d) :
    reading (Decimal.spellFloat x) = some x := by
  have hmem : 'e' ∈ Decimal.spellFloat x := h ▸ Decimal.mem_spellNumeral d
  rw [reading, if_neg fun heq => ?_, if_neg fun heq => ?_]
  · exact Function.partialInv_left Decimal.spellFloat_injective x
  · exact absurd (heq ▸ hmem) (by decide)
  · exact absurd (heq ▸ hmem) (by decide)

theorem signed_reading_spellFloat {x : Float} (h : ¬x.isNaN = true) :
    signed reading (Decimal.spellFloat x) = some x := by
  rcases spellFloat_eq h with ⟨d, hplain⟩ | ⟨hsigned, d, hplain⟩
  · rw [signed.eq_2 _ _ fun rest hrest => Decimal.spellNumeral_ne_sign d rest (hplain ▸ hrest)]
    exact reading_spellFloat hplain
  · rw [hsigned, signed, reading_spellFloat hplain, Option.map_some, neg_neg_of_not_isNaN h]

/-- **The numerals of every tree denote the numbers that they were printed from.** -/
theorem denotes_reading (n : Node) : Denotes reading n where
  zero := if_pos rfl
  one := by rw [reading, if_neg (by decide), if_pos rfl]
  literal x _ hfinite := by
    refine signed_reading_spellFloat fun hnan => ?_
    have hunpack := unpack_of_isNaN hnan
    change x.toModel.unpack.isFinite = true at hfinite
    rw [hunpack] at hfinite
    cases hfinite

end Device

end ArrayKernels
