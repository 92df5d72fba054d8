import ArrayKernels.Kernel.Env
import ArrayKernels.Proofs.OpenCL.Execution
import ArrayKernels.Proofs.OpenCL.PrintedTerms
import Mathlib

/-!
# The meaning of printed terms

What the terms that are read back from a kernel evaluate to. An operator or a function has the value
of the function on numbers that it was printed for, a comparison is one or zero, and a position that
stays inside the words is exact.

A literal means the number that it was printed from. For finite numbers this is an assumption on the
decimal constants; the constants that are not finite have their values from the language.

## Main results

- `eval?_literalTerm`: literals.
- `eval?_unaryTerm`, `eval?_binaryTerm`, `eval?_selectTerm`: operators and functions.
- `eval?_addTerms`: positions in a core block.
-/

namespace ArrayKernels.Device

open OpenCL

/-! ## Numbers that are not finite -/

/-- A number is determined by its unpacked form. -/
theorem eq_of_unpack_eq {x y : Float} (h : x.toModel.unpack = y.toModel.unpack) : x = y := by
  obtain ⟨⟨xs, hx⟩⟩ := x
  obtain ⟨⟨ys, hy⟩⟩ := y
  have hbits : xs.toBitVec = ys.toBitVec :=
    (Float.Model.UnpackedFloat.unpack_inj_of_valid hx hy).mp h
  obtain rfl : xs = ys := UInt64.toBitVec_inj.mp hbits
  rfl

theorem unpack_of_isNaN {x : Float} (h : x.isNaN = true) : x.toModel.unpack = .notANumber := by
  change x.toModel.unpack.isNaN = true at h
  cases hx : x.toModel.unpack with
  | notANumber => rfl
  | infinity | zero | finite =>
    rw [hx] at h
    cases h

theorem unpack_of_isInf {x : Float} (h : x.isInf = true) :
    ∃ sign, x.toModel.unpack = .infinity sign := by
  change x.toModel.unpack.isInf = true at h
  cases hx : x.toModel.unpack with
  | infinity sign => exact ⟨sign, rfl⟩
  | notANumber | zero | finite =>
    rw [hx] at h
    cases h

/-- There is one value that is not a number. -/
theorem eq_of_isNaN {x : Float} (h : x.isNaN = true) : x = 0.0 / 0.0 := by
  have hquotient : (0.0 / 0.0 : Float).isNaN = true := by decide
  exact eq_of_unpack_eq ((unpack_of_isNaN h).trans (unpack_of_isNaN hquotient).symm)

/-- Nothing but an infinity is equal to it. -/
theorem eq_of_beq_isInf {x y : Float} (hy : y.isInf = true) (h : (x == y) = true) : x = y := by
  obtain ⟨sign, hsign⟩ := unpack_of_isInf hy
  obtain ⟨-, -, hunpack | ⟨-, hzero⟩ | ⟨-, hzero⟩⟩ :=
    (Float.Model.UnpackedFloat.beq_iff_ne_notANumber_and_eq _ _).mp h
  · exact eq_of_unpack_eq hunpack
  · rw [hsign] at hzero
    cases hzero
  · rw [hsign] at hzero
    cases hzero

theorem beq_self_of_isInf {x : Float} (h : x.isInf = true) : (x == x) = true := by
  obtain ⟨sign, hsign⟩ := unpack_of_isInf h
  refine (Float.Model.UnpackedFloat.beq_iff_ne_notANumber_and_eq _ _).mpr ⟨?_, ?_, .inl rfl⟩
  all_goals
    rw [hsign]
    intro heq
    cases heq

/-- There are two infinities. -/
theorem eq_of_isInf {x : Float} (h : x.isInf = true) : x = 1.0 / 0.0 ∨ x = -1.0 / 0.0 := by
  have hpositive : (1.0 / 0.0 : Float).isInf = true := by decide
  have hnegative : (-1.0 / 0.0 : Float).isInf = true := by decide
  have hne : (1.0 / 0.0 : Float) ≠ -1.0 / 0.0 := by decide
  obtain ⟨sign, hx⟩ := unpack_of_isInf h
  obtain ⟨first, hfirst⟩ := unpack_of_isInf hpositive
  obtain ⟨second, hsecond⟩ := unpack_of_isInf hnegative
  -- there are two signs, and the quotients have different ones
  by_cases hsame : sign = first
  · exact .inl (eq_of_unpack_eq (by rw [hx, hfirst, hsame]))
  by_cases hother : sign = second
  · exact .inr (eq_of_unpack_eq (by rw [hx, hsecond, hother]))
  refine absurd (eq_of_unpack_eq ?_) hne
  have hsigns : first = second := by
    cases sign <;> cases first <;> cases second
    all_goals first
      | rfl
      | exact absurd rfl hsame
      | exact absurd rfl hother
  rw [hfirst, hsecond, hsigns]

/-- What is neither an infinity nor no number at all is finite. -/
theorem isFinite_of_ne {x : Float} (hnan : ¬x.isNaN = true) (hinf : ¬(x == 1.0 / 0.0) = true)
    (hneg : ¬(x == -1.0 / 0.0) = true) : x.isFinite = true := by
  have hnone : ¬x.isInf = true := by
    intro h
    rcases eq_of_isInf h with rfl | rfl
    · exact hinf (beq_self_of_isInf h)
    · exact hneg (beq_self_of_isInf h)
  change ¬x.toModel.unpack.isNaN = true at hnan
  change ¬x.toModel.unpack.isInf = true at hnone
  change x.toModel.unpack.isFinite = true
  cases hx : x.toModel.unpack with
  | notANumber =>
    rw [hx] at hnan
    exact absurd rfl hnan
  | infinity sign =>
    rw [hx] at hnone
    exact absurd rfl hnone
  | zero | finite => rfl

/-! ## Literals -/

/-- What a decimal numeral denotes: a sign in front of it negates it. -/
def signed (number : List Char → Option Float) : List Char → Option Float
  | '-' :: digits => (number digits).map (-·)
  | digits => number digits

section Terms

variable {number : List Char → Option Float} {gid : Nat} {frames : Frames}

theorem eval?_numeralTerm (text : List Char) :
    eval? number gid frames (numeralTerm text) = (signed number text).map Scalar.number := by
  rw [numeralTerm.eq_def]
  split
  · next digits =>
    rw [signed, eval?, eval?]
    cases hvalue : number digits <;> simp [Scalar.negated?]
  · next hsign =>
    rw [signed, eval?]
    exact hsign

/-- **A literal means the number that it was printed from**, if the numerals of finite numbers do. -/
theorem eval?_literalTerm {x : Float}
    (h : x.isFinite = true → signed number (Decimal.spellFloat x) = some x) :
    eval? number gid frames (literalTerm x) = some (.number x) := by
  rw [literalTerm]
  split
  · next hnan => rw [eval?, eq_of_isNaN hnan]
  split
  · next hinf => rw [eval?, eq_of_beq_isInf (by decide) hinf]
  split
  · next hneg =>
    have hsign : -(1.0 / 0.0 : Float) = -1.0 / 0.0 := by decide
    rw [eq_of_beq_isInf (by decide) hneg, ← hsign, eval?, eval?]
    rfl
  · next hnan hinf hneg =>
    rw [eval?_numeralTerm, h (isFinite_of_ne hnan hinf hneg)]
    rfl

/-! ## Operators and functions -/

variable {a b c : Term} {x y z : Float}

theorem eval?_unaryTerm (op : UnaryOp) (ha : eval? number gid frames a = some (.number x)) :
    eval? number gid frames (unaryTerm op a) = some (.number (op.apply x)) := by
  cases op
  all_goals
    rw [unaryTerm, eval?, ha]
    rfl

theorem comparison_holds? (holds : Bool) : (comparison holds).holds? = some holds := by
  cases holds <;> rfl

/-- A comparison is one or zero. -/
theorem eval?_comparisonTerm (hone : number "1.0".toList = some 1.0)
    (hzero : number "0.0".toList = some 0.0) {op : Operator} {holds : Bool}
    (ha : eval? number gid frames a = some (.number x))
    (hb : eval? number gid frames b = some (.number y))
    (hop : combine? op (.number x) (.number y) = some (comparison holds)) :
    eval? number gid frames (comparisonTerm op a b) = some (.number (truth holds)) := by
  simp only [comparisonTerm, eval?, ha, hb, hop, hone, hzero, comparison_holds?,
    Option.bind_eq_bind, Option.bind_some, Option.map_some]
  cases holds <;> rfl

theorem eval?_binaryTerm (hone : number "1.0".toList = some 1.0)
    (hzero : number "0.0".toList = some 0.0) (op : BinaryOp)
    (ha : eval? number gid frames a = some (.number x))
    (hb : eval? number gid frames b = some (.number y)) :
    eval? number gid frames (binaryTerm op a b) = some (.number (op.apply x y)) := by
  cases op
  case lt => exact eval?_comparisonTerm hone hzero ha hb rfl
  case le => exact eval?_comparisonTerm hone hzero ha hb rfl
  case gt => exact eval?_comparisonTerm hone hzero ha hb rfl
  case ge => exact eval?_comparisonTerm hone hzero ha hb rfl
  case eq => exact eval?_comparisonTerm hone hzero ha hb rfl
  all_goals
    rw [binaryTerm, eval?, ha, hb]
    rfl

/-- A choice looks at one of its arms. -/
theorem eval?_selectTerm (hzero : number "0.0".toList = some 0.0)
    (hc : eval? number gid frames c = some (.number z))
    (ha : eval? number gid frames a = some (.number x))
    (hb : eval? number gid frames b = some (.number y)) :
    eval? number gid frames (selectTerm c a b) =
      some (.number (if z != 0.0 then x else y)) := by
  have hcond : combine? .unequal (.number z) (.number 0.0) = some (comparison (z != 0.0)) := rfl
  simp only [selectTerm, eval?, hc, hzero, hcond, comparison_holds?, ha, hb, Option.map_some,
    Option.bind_eq_bind, Option.bind_some]
  split
  · rfl
  · rfl

/-! ## Positions -/

/-- The slot has an index, and the variable of that name holds it. -/
def HoldsIndex (frames : Frames) (index : IndexTable) (slot : Nat) : Prop :=
  ∃ constant i, index[slot]? = some i ∧
    find? frames (Name.index slot).spell = some ⟨constant, .word i⟩

/-- A position that stays inside the words is exact. -/
theorem eval?_addTerms {index : IndexTable} {slots strides : List Nat} {start offset : Nat}
    (hslots : ∀ slot ∈ slots, HoldsIndex frames index slot)
    (hoffset : flatOffset index slots strides = some offset) (hword : start + offset < wordBound)
    (ha : eval? number gid frames a = some (.word start)) :
    eval? number gid frames (((slots.map Name.index).zip strides).foldl Word.addTerm a) =
      some (.word (start + offset)) := by
  -- the sum is taken from the left, and no partial sum exceeds the whole
  induction slots generalizing strides start offset a with
  | nil =>
    rw [flatOffset.eq_2 _ _ _ (by intro slot slots stride strides h; cases h)] at hoffset
    obtain rfl : 0 = offset := Option.some.inj hoffset
    exact ha
  | cons slot slots ih =>
    cases strides with
    | nil =>
      obtain rfl : 0 = offset := Option.some.inj hoffset
      exact ha
    | cons stride strides =>
      obtain ⟨⟨constant, i, hi, hfind⟩, hslots⟩ := List.forall_mem_cons.mp hslots
      obtain ⟨i', hi', hoffset⟩ := Option.bind_eq_some_iff.mp hoffset
      obtain ⟨rest, hrest, heq⟩ := Option.bind_eq_some_iff.mp hoffset
      obtain rfl : i = i' := Option.some.inj (hi.symm.trans hi')
      obtain rfl : i * stride + rest = offset := Option.some.inj heq
      have hproduct : i * stride % wordBound = i * stride := Nat.mod_eq_of_lt (by omega)
      have hsum : (start + i * stride) % wordBound = start + i * stride :=
        Nat.mod_eq_of_lt (by omega)
      rw [List.map_cons, List.zip_cons_cons, List.foldl_cons, ← Nat.add_assoc]
      refine ih hslots hrest (by omega) ?_
      simp only [Word.addTerm, eval?, ha, hfind, Content.scalar?, combine?, hproduct, hsum,
        Option.bind_eq_bind, Option.bind_some]

end Terms

end ArrayKernels.Device
