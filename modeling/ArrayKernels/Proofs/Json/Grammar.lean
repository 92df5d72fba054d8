import ArrayKernels.Json.Token
import ArrayKernels.Json.Writer
import ArrayKernels.Proofs.Decimal.Digits

/-!
# The grammar of JSON

The values of JSON as a grammar, over the characters of a text. White space may stand around every
token, and a string may be written in many ways: each of its characters stands for itself, is escaped
by a letter or is given by its code units. Neither the tokens nor the readers of them are used here.

## Layers

- **Strings**: what stands between quotes, the pieces that it is written with, and the characters
  that those stand for.
- **Numbers**: sign, digits, point and exponent.
- **Values**: values, the items of arrays and the members of objects, nested in any depth.
- **Written texts**: what the writer of JSON makes of strings and numbers.

## Main results

- `quoted_writeString`: a string that is written stands for itself.
- `number_toDigits`: so do the digits of a number.
-/

namespace ArrayKernels.Json.Grammar

/-- White space. -/
def Blank (cs : List Char) : Prop := ∀ c ∈ cs, c = ' ' ∨ c = '\t' ∨ c = '\n' ∨ c = '\r'

theorem blank_nil : Blank [] := nofun

/-! ## Strings -/

/-- The letters that stand for a character behind a backslash. -/
def letters : List (Char × Char) :=
  [('"', '"'), ('\\', '\\'), ('/', '/'), ('b', Char.ofNat 8), ('f', Char.ofNat 12), ('n', '\n'),
    ('r', '\r'), ('t', '\t')]

/-- A hexadecimal digit and what it stands for. -/
inductive HexDigit : Char → Nat → Prop where
  | lower {n : Nat} : n < 16 → HexDigit (Nat.digitChar n) n
  | upper {n : Nat} : n < 16 → HexDigit (Nat.digitChar n).toUpper n

/-- What stands between the quotes of a string, and the pieces that it is written with. -/
inductive Contents : List Char → List Piece → Prop where
  | nil : Contents [] []
  | plain {c : Char} {cs : List Char} {pieces : List Piece} :
    32 ≤ c.toNat → c ≠ '"' → c ≠ '\\' → Contents cs pieces → Contents (c :: cs) (.char c :: pieces)
  | letter {l c : Char} {cs : List Char} {pieces : List Piece} :
    (l, c) ∈ letters → Contents cs pieces → Contents ('\\' :: l :: cs) (.char c :: pieces)
  | code {c₃ c₂ c₁ c₀ : Char} {n₃ n₂ n₁ n₀ : Nat} {cs : List Char} {pieces : List Piece} :
    HexDigit c₃ n₃ → HexDigit c₂ n₂ → HexDigit c₁ n₁ → HexDigit c₀ n₀ → Contents cs pieces →
    Contents ('\\' :: 'u' :: c₃ :: c₂ :: c₁ :: c₀ :: cs)
      (.unit (n₃ * 4096 + n₂ * 256 + n₁ * 16 + n₀) :: pieces)

/-- The characters that pieces stand for. The units of a surrogate pair stand for one character, and
half a pair for none. -/
inductive StandsFor : List Piece → List Char → Prop where
  | nil : StandsFor [] []
  | char {c : Char} {pieces : List Piece} {cs : List Char} :
    StandsFor pieces cs → StandsFor (.char c :: pieces) (c :: cs)
  | unit {code : Nat} {pieces : List Piece} {cs : List Char} :
    code < 0xD800 ∨ 0xDFFF < code → StandsFor pieces cs →
    StandsFor (.unit code :: pieces) (Char.ofNat code :: cs)
  | pair {high low : Nat} {pieces : List Piece} {cs : List Char} :
    0xD800 ≤ high → high ≤ 0xDBFF → 0xDC00 ≤ low → low ≤ 0xDFFF → StandsFor pieces cs →
    StandsFor (.unit high :: .unit low :: pieces)
      (Char.ofNat (0x10000 + (high - 0xD800) * 0x400 + (low - 0xDC00)) :: cs)

/-- A string with its quotes, and the characters of it. -/
inductive Quoted : List Char → String → Prop where
  | mk {cs : List Char} {pieces : List Piece} {s : String} :
    Contents cs pieces → StandsFor pieces s.toList → Quoted ('"' :: cs ++ ['"']) s

/-! ## Numbers -/

/-- At least one digit. -/
def Digits (cs : List Char) : Prop := cs ≠ [] ∧ ∀ c ∈ cs, c.isDigit = true

/-- The digits before the point: a zero, or digits of which the first is not zero. -/
inductive Whole : List Char → Prop where
  | zero : Whole ['0']
  | digits {c : Char} {cs : List Char} : c ≠ '0' → Digits (c :: cs) → Whole (c :: cs)

/-- Nothing, or a point with digits behind it. -/
inductive Fraction : List Char → Prop where
  | none : Fraction []
  | digits {cs : List Char} : Digits cs → Fraction ('.' :: cs)

/-- Nothing, or a power of ten. -/
inductive Exponent : List Char → Prop where
  | none : Exponent []
  | digits {mark : Char} {sign cs : List Char} :
    mark = 'e' ∨ mark = 'E' → sign ∈ [[], ['+'], ['-']] → Digits cs → Exponent (mark :: sign ++ cs)

/-- A number. -/
inductive Number : List Char → Prop where
  | mk {sign whole fraction exponent : List Char} :
    sign ∈ [[], ['-']] → Whole whole → Fraction fraction → Exponent exponent →
    Number (sign ++ (whole ++ fraction ++ exponent))

/-! ## Values -/

/-- What a text can be. -/
inductive Part where
  /-- A value. -/
  | value
  /-- A key and its value. -/
  | member
  /-- The items of an array that has some. -/
  | items
  /-- The members of an object that has some. -/
  | members

/-- The texts of values and of the parts of values. -/
inductive Written : Part → List Char → Prop where
  | null : Written .value "null".toList
  | true : Written .value "true".toList
  | false : Written .value "false".toList
  | number {cs : List Char} : Number cs → Written .value cs
  | text {cs : List Char} {pieces : List Piece} :
    Contents cs pieces → Written .value ('"' :: cs ++ ['"'])
  | emptyArray {inside : List Char} : Blank inside → Written .value ('[' :: inside ++ [']'])
  | array {inside : List Char} : Written .items inside → Written .value ('[' :: inside ++ [']'])
  | emptyObject {inside : List Char} :
    Blank inside → Written .value ('\x7b' :: inside ++ ['\x7d'])
  | object {inside : List Char} :
    Written .members inside → Written .value ('\x7b' :: inside ++ ['\x7d'])
  | lastItem {before value after : List Char} :
    Blank before → Written .value value → Blank after → Written .items (before ++ value ++ after)
  | moreItems {before value after others : List Char} :
    Blank before → Written .value value → Blank after → Written .items others →
    Written .items (before ++ value ++ after ++ ',' :: others)
  | member {key left right value : List Char} {pieces : List Piece} :
    Contents key pieces → Blank left → Blank right → Written .value value →
    Written .member ('"' :: key ++ ['"'] ++ left ++ ':' :: (right ++ value))
  | lastMember {before member after : List Char} :
    Blank before → Written .member member → Blank after →
    Written .members (before ++ member ++ after)
  | moreMembers {before member after others : List Char} :
    Blank before → Written .member member → Blank after → Written .members others →
    Written .members (before ++ member ++ after ++ ',' :: others)

/-! ## Written texts -/

/-- What is written for a character stands for it. -/
theorem exists_piece_of_escapeChar (c : Char) {cs chars : List Char} {pieces : List Piece}
    (h : Contents cs pieces) (hpieces : StandsFor pieces chars) :
    ∃ piece, Contents (escapeChar c ++ cs) (piece :: pieces) ∧
      StandsFor (piece :: pieces) (c :: chars) := by
  have hletter : ∀ l, (l, c) ∈ letters → ∃ piece, Contents (['\\', l] ++ cs) (piece :: pieces) ∧
      StandsFor (piece :: pieces) (c :: chars) :=
    fun l hl => ⟨.char c, .letter hl h, .char hpieces⟩
  have hofNat : ∀ n, c.toNat = n → c = Char.ofNat n := by
    rintro n rfl
    exact (Char.ofNat_toNat c).symm
  unfold escapeChar
  split
  · next hc => exact hletter _ (by rw [hc]; decide)
  split
  · next hc => exact hletter _ (by rw [hc]; decide)
  split
  · next hc => exact hletter _ (by rw [hc]; decide)
  split
  · next hc => exact hletter _ (by rw [hc]; decide)
  split
  · next hc => exact hletter _ (by rw [hc]; decide)
  split
  · next hc => exact hletter _ (by rw [hofNat 8 hc]; decide)
  split
  · next hc => exact hletter _ (by rw [hofNat 12 hc]; decide)
  split
  · next hcontrol =>
    -- any other control character is given by its code
    have hzero : HexDigit '0' 0 := HexDigit.lower (n := 0) (by decide)
    have hcode := Contents.code hzero hzero (HexDigit.lower (n := c.toNat / 16) (by omega))
      (HexDigit.lower (n := c.toNat % 16) (by omega)) h
    have hvalue : 0 * 4096 + 0 * 256 + c.toNat / 16 * 16 + c.toNat % 16 = c.toNat := by omega
    have hunit : StandsFor (.unit c.toNat :: pieces) (Char.ofNat c.toNat :: chars) :=
      .unit (.inl (by omega)) hpieces
    rw [hvalue] at hcode
    rw [Char.ofNat_toNat] at hunit
    exact ⟨.unit c.toNat, hcode, hunit⟩
  · next hquote hbackslash _ _ _ _ _ hcontrol =>
    exact ⟨.char c, .plain (Nat.not_lt.mp hcontrol) hquote hbackslash h, .char hpieces⟩

theorem quoted_writeString (s : String) : Quoted (writeString s) s := by
  have hcontents : ∀ cs : List Char, ∃ pieces,
      Contents (cs.flatMap escapeChar) pieces ∧ StandsFor pieces cs := by
    intro cs
    induction cs with
    | nil => exact ⟨[], .nil, .nil⟩
    | cons c cs ih =>
      obtain ⟨pieces, hcs, hpieces⟩ := ih
      obtain ⟨piece, hc, hpiece⟩ := exists_piece_of_escapeChar c hcs hpieces
      exact ⟨_, hc, hpiece⟩
  obtain ⟨pieces, hcs, hpieces⟩ := hcontents s.toList
  exact .mk hcs hpieces

theorem number_toDigits (n : Nat) : Number (Nat.toDigits 10 n) := by
  have hwhole : Whole (Nat.toDigits 10 n) := by
    rcases Nat.eq_zero_or_pos n with rfl | hpos
    · exact .zero
    · obtain ⟨c, cs, hdigits, hc⟩ := Text.exists_toDigits_eq_cons hpos
      have hall : ∀ d ∈ c :: cs, d.isDigit = true :=
        fun d hd => Text.isDigit_of_mem_toDigits (hdigits ▸ hd)
      exact hdigits ▸ .digits hc ⟨List.cons_ne_nil c cs, hall⟩
  have hnumber : Number ([] ++ (Nat.toDigits 10 n ++ [] ++ [])) :=
    .mk (by decide) hwhole .none .none
  simpa using hnumber

end ArrayKernels.Json.Grammar
