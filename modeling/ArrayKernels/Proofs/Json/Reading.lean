import ArrayKernels.Json.Skip
import ArrayKernels.Proofs.Decimal.Digits
import ArrayKernels.Proofs.Json.Grammar

/-!
# Reading JSON texts

The readers of JSON follow its grammar. What stands between quotes is read as the pieces that it is
written with, and a text of any part of a value has tokens that do not depend on where it stands; only
a number has to end before a character that could continue it. The tokens of a value are passed over
as a whole, whatever brackets are open around it.

## Layers

- **Strings**: contents and their pieces, pieces and their characters.
- **Numbers**: one lemma per part of a number.
- **Tokens**: the tokens of a text that stands before another.
- **Values**: passing over the tokens of values, by induction on the grammar.

## Main results

- `readText_of_contents`, `decodePieces_of_standsFor`: strings stand for their characters.
- `readNumber_of_number`: a number is read to its end.
- `exists_tokens_of_written`: values have tokens, which are passed over.
-/

namespace ArrayKernels.Json

open Grammar

/-! ## Strings -/

theorem hexValue?_of_hexDigit {c : Char} {n : Nat} (h : HexDigit c n) : hexValue? c = some n := by
  have hlower : ∀ m < 16, hexValue? (Nat.digitChar m) = some m := by decide
  have hupper : ∀ m < 16, hexValue? (Nat.digitChar m).toUpper = some m := by decide
  cases h with
  | lower h => exact hlower _ h
  | upper h => exact hupper _ h

theorem hexCode?_of_hexDigit {c₃ c₂ c₁ c₀ : Char} {n₃ n₂ n₁ n₀ : Nat} (h₃ : HexDigit c₃ n₃)
    (h₂ : HexDigit c₂ n₂) (h₁ : HexDigit c₁ n₁) (h₀ : HexDigit c₀ n₀) :
    hexCode? c₃ c₂ c₁ c₀ = some (n₃ * 4096 + n₂ * 256 + n₁ * 16 + n₀) := by
  rw [hexCode?, hexValue?_of_hexDigit h₃, hexValue?_of_hexDigit h₂, hexValue?_of_hexDigit h₁,
    hexValue?_of_hexDigit h₀]
  refine congrArg some ?_
  omega

theorem simpleEscape?_of_mem_letters {l c : Char} (h : (l, c) ∈ letters) :
    l ≠ 'u' ∧ simpleEscape? l = some c := by
  have hall : ∀ entry ∈ letters, entry.1 ≠ 'u' ∧ simpleEscape? entry.1 = some entry.2 := by decide
  exact hall _ h

theorem readText_backslash_cons (letter : Char) (cs : List Char) :
    readText ('\\' :: letter :: cs) =
      if letter = 'u' then
        match cs with
        | a :: b :: c :: d :: cs => do
          let code ← hexCode? a b c d
          let (pieces, rest) ← readText cs
          return (.unit code :: pieces, rest)
        | _ => none
      else do
        let c ← simpleEscape? letter
        let (pieces, rest) ← readText cs
        return (.char c :: pieces, rest) := by
  rw [readText.eq_def]
  rfl

theorem readText_of_contents {cs : List Char} {pieces : List Piece} (h : Contents cs pieces)
    (rest : List Char) : readText (cs ++ '"' :: rest) = some (pieces, rest) := by
  induction h with
  | nil =>
    rw [List.nil_append, readText.eq_def]
    rfl
  | plain hcontrol hquote hbackslash _ ih =>
    rw [List.cons_append, readText.eq_def]
    simp only [if_neg hquote, if_neg (Nat.not_lt.mpr hcontrol), if_neg hbackslash, ih]
    rfl
  | letter hletter _ ih =>
    obtain ⟨hu, hescape⟩ := simpleEscape?_of_mem_letters hletter
    rw [List.cons_append, List.cons_append, readText_backslash_cons, if_neg hu, hescape, ih]
    rfl
  | code h₃ h₂ h₁ h₀ _ ih =>
    simp only [List.cons_append]
    rw [readText_backslash_cons, if_pos rfl]
    simp only [hexCode?_of_hexDigit h₃ h₂ h₁ h₀, ih]
    rfl

theorem decodePieces_of_standsFor {pieces : List Piece} {cs : List Char}
    (h : StandsFor pieces cs) : decodePieces pieces = some cs := by
  induction h with
  | nil => rfl
  | char _ ih => rw [decodePieces, ih, Option.map_some]
  | unit hcode _ ih =>
    rw [decodePieces.eq_def]
    simp only [if_pos hcode, ih, Option.map_some]
  | @pair high low _ _ hhigh hhigh' hlow hlow' _ ih =>
    have hsurrogate : ¬(high < 0xD800 ∨ 0xDFFF < high) := by omega
    rw [decodePieces.eq_def]
    simp only [if_neg hsurrogate, if_neg (Nat.not_lt.mpr hhigh'), if_pos (And.intro hlow hlow'), ih,
      Option.map_some]

/-! ## Numbers -/

/-- What comes first does not continue a number. -/
structure EndsNumber (rest : List Char) : Prop where
  digit : ∀ c ∈ rest.head?, c.isDigit = false
  point : ∀ c ∈ rest.head?, c ≠ '.'
  exponent : ∀ c ∈ rest.head?, ¬(c = 'e' ∨ c = 'E')

section Numbers

variable {cs rest : List Char}

theorem readDigits_append {digits : List Char} (h : Digits digits) (mark : List Char)
    (hrest : ∀ c ∈ rest.head?, c.isDigit = false) :
    readDigits mark (digits ++ rest) = some (mark ++ digits, rest) := by
  obtain ⟨htake, hdrop⟩ := Text.span_digits _ _ h.2 hrest
  rw [readDigits, htake, hdrop]
  cases digits with
  | nil => exact absurd rfl h.1
  | cons => rfl

theorem readWhole_append (h : Whole cs) (hrest : ∀ c ∈ rest.head?, c.isDigit = false) :
    readWhole (cs ++ rest) = some (cs, rest) := by
  cases h with
  | zero => rfl
  | digits hzero hdigits =>
    obtain ⟨hfirst, hothers⟩ := List.forall_mem_cons.mp hdigits.2
    obtain ⟨htake, hdrop⟩ := Text.span_digits _ _ hothers hrest
    rw [List.cons_append, readWhole, if_neg hzero, if_pos hfirst, htake, hdrop]

theorem readFraction_append (h : Fraction cs) (hdigit : ∀ c ∈ rest.head?, c.isDigit = false)
    (hpoint : ∀ c ∈ rest.head?, c ≠ '.') : readFraction (cs ++ rest) = some (cs, rest) := by
  cases h with
  | none =>
    rw [List.nil_append]
    unfold readFraction
    split
    · exact absurd rfl (hpoint _ rfl)
    · rfl
  | digits hdigits => exact readDigits_append hdigits ['.'] hdigit

theorem Grammar.Digits.exists_cons (h : Digits cs) : ∃ c others, cs = c :: others ∧ c.isDigit := by
  obtain ⟨c, others, rfl⟩ := List.exists_cons_of_ne_nil h.1
  exact ⟨c, others, rfl, h.2 c List.mem_cons_self⟩

theorem readExponent_append (h : Exponent cs) (hdigit : ∀ c ∈ rest.head?, c.isDigit = false)
    (hexponent : ∀ c ∈ rest.head?, ¬(c = 'e' ∨ c = 'E')) :
    readExponent (cs ++ rest) = some (cs, rest) := by
  cases h with
  | none =>
    cases rest with
    | nil => rfl
    | cons c rest =>
      rw [List.nil_append, readExponent.eq_def]
      simp only [if_neg (hexponent c rfl)]
  | @digits mark sign digits hmark hsign hdigits =>
    have hread := fun before => readDigits_append hdigits before hdigit
    rw [List.append_assoc, List.cons_append, readExponent.eq_def]
    simp only [if_pos hmark]
    simp only [List.mem_cons, List.not_mem_nil, or_false] at hsign
    rcases hsign with rfl | rfl | rfl
    · -- the first digit is neither sign
      obtain ⟨c, others, rfl, hc⟩ := hdigits.exists_cons
      split
      · next heq =>
        cases heq
        exact absurd hc (by decide)
      · next heq =>
        cases heq
        exact absurd hc (by decide)
      · exact hread [mark]
    · exact hread [mark, '+']
    · exact hread [mark, '-']

theorem Grammar.Exponent.head_append (h : Exponent cs) (hrest : EndsNumber rest) :
    ∀ c ∈ (cs ++ rest).head?, c.isDigit = false ∧ c ≠ '.' := by
  cases h with
  | none =>
    -- what follows the number comes first
    exact fun c hc => ⟨hrest.digit c hc, hrest.point c hc⟩
  | digits hmark =>
    intro c hc
    cases hc
    rcases hmark with rfl | rfl <;> decide

theorem Grammar.Fraction.head_append (h : Fraction cs)
    (hrest : ∀ c ∈ rest.head?, c.isDigit = false) :
    ∀ c ∈ (cs ++ rest).head?, c.isDigit = false := by
  cases h with
  | none => exact hrest
  | digits =>
    intro c hc
    cases hc
    rfl

theorem Grammar.Whole.exists_cons (h : Whole cs) : ∃ c others, cs = c :: others ∧ c.isDigit := by
  cases h with
  | zero => exact ⟨'0', [], rfl, rfl⟩
  | digits _ hdigits => exact hdigits.exists_cons

theorem readUnsigned_append {whole fraction exponent : List Char} (hwhole : Whole whole)
    (hfraction : Fraction fraction) (hexponent : Exponent exponent) (hrest : EndsNumber rest) :
    readUnsigned (whole ++ fraction ++ exponent ++ rest) =
      some (whole ++ fraction ++ exponent, rest) := by
  have hhead := hexponent.head_append hrest
  have hdigit : ∀ c ∈ (exponent ++ rest).head?, c.isDigit = false := fun c hc => (hhead c hc).1
  have hpoint : ∀ c ∈ (exponent ++ rest).head?, c ≠ '.' := fun c hc => (hhead c hc).2
  -- each part ends where the next one starts
  rw [readUnsigned, List.append_assoc, List.append_assoc,
    readWhole_append hwhole (hfraction.head_append hdigit)]
  simp only [Option.bind_eq_bind, Option.bind_some, readFraction_append hfraction hdigit hpoint,
    readExponent_append hexponent hrest.digit hrest.exponent]
  rfl

/-- A number is read to its end. -/
theorem readNumber_of_number (h : Number cs) (hrest : EndsNumber rest) :
    readNumber (cs ++ rest) = some (cs, rest) := by
  obtain ⟨hsign, hwhole, hfraction, hexponent⟩ := h
  have hread := readUnsigned_append hwhole hfraction hexponent hrest
  simp only [List.mem_cons, List.not_mem_nil, or_false] at hsign
  rcases hsign with rfl | rfl
  · obtain ⟨c, others, rfl, hc⟩ := hwhole.exists_cons
    rw [List.nil_append, readNumber]
    · exact hread
    · rintro _ heq
      cases heq
      exact absurd hc (by decide)
  · simp only [List.cons_append, List.nil_append, readNumber, hread, Option.map_some]

/-- A number starts with a minus sign or a digit. -/
theorem Grammar.Number.exists_cons (h : Number cs) :
    ∃ c others, cs = c :: others ∧ (c = '-' ∨ c.isDigit) := by
  obtain ⟨hsign, hwhole, -, -⟩ := h
  simp only [List.mem_cons, List.not_mem_nil, or_false] at hsign
  rcases hsign with rfl | rfl
  · obtain ⟨c, others, rfl, hc⟩ := hwhole.exists_cons
    exact ⟨c, _, rfl, .inr hc⟩
  · exact ⟨'-', _, rfl, .inl rfl⟩

end Numbers

/-! ## Tokens -/

section Tokens

variable {c : Char} {cs rest : List Char} {token : Token}

theorem tokens_cons_of_isSpace (h : isSpace c = true) : tokens (c :: cs) = tokens cs := by
  rw [tokens, if_pos h]

theorem tokens_cons_of_readToken (hspace : isSpace c = false)
    (h : readToken c cs = some (token, rest)) :
    tokens (c :: cs) = (tokens rest).map (token :: ·) := by
  rw [tokens, if_neg (by rw [hspace]; exact Bool.false_ne_true)]
  split
  · next hnone => rw [h] at hnone; cases hnone
  · next hsome => rw [h] at hsome; cases hsome; rfl

theorem tokens_blank_append {blank : List Char} (h : Blank blank) (rest : List Char) :
    tokens (blank ++ rest) = tokens rest := by
  induction blank with
  | nil => rfl
  | cons c blank ih =>
    obtain ⟨hc, hblank⟩ := List.forall_mem_cons.mp h
    have hspace : isSpace c = true := by rcases hc with rfl | rfl | rfl | rfl <;> rfl
    rw [List.cons_append, tokens_cons_of_isSpace hspace, ih hblank]

theorem EndsNumber.blank_append {blank : List Char} (h : Blank blank) (hrest : EndsNumber rest) :
    EndsNumber (blank ++ rest) := by
  cases blank with
  | nil => exact hrest
  | cons c blank =>
    have hc := h c List.mem_cons_self
    constructor <;> (intro d hd; cases hd; rcases hc with rfl | rfl | rfl | rfl <;> decide)

/-- What starts a number starts no other token. -/
theorem readToken_of_number_start (h : c = '-' ∨ c.isDigit) (cs : List Char) :
    isSpace c = false ∧ readToken c cs =
      (readNumber (c :: cs)).map fun (literal, rest) => (.number literal, rest) := by
  have hne : ∀ d : Char, ¬(d = '-' ∨ d.isDigit = true) → c ≠ d := by
    rintro d hd rfl
    exact hd h
  have hspace : isSpace c = false := by
    simp only [isSpace, hne ' ' (by decide), hne '\n' (by decide), hne '\t' (by decide),
      hne '\r' (by decide), decide_false, Bool.or_false]
  refine ⟨hspace, ?_⟩
  -- the ten characters that start the other tokens, one after another
  rw [readToken, if_neg (hne _ (by decide)), if_neg (hne _ (by decide)), if_neg (hne _ (by decide)),
    if_neg (hne _ (by decide)), if_neg (hne _ (by decide)), if_neg (hne _ (by decide)),
    if_neg (hne _ (by decide)), if_neg (hne _ (by decide)), if_neg (hne _ (by decide)),
    if_neg (hne _ (by decide))]

/-- The text has these tokens wherever it stands, if a number may end with it. -/
def Spells (cs : List Char) (ts : List Token) : Prop :=
  ∀ rest, EndsNumber rest → tokens (cs ++ rest) = (tokens rest).map (ts ++ ·)

theorem Spells.nil : Spells [] [] := by
  intro rest _
  simp only [List.nil_append, Option.map_id']

theorem Spells.text {pieces : List Piece} (h : Contents cs pieces) :
    Spells ('"' :: cs ++ ['"']) [.text pieces] := by
  intro rest _
  have hread : readToken '"' (cs ++ '"' :: rest) = some (.text pieces, rest) := by
    simp [readToken, readText_of_contents h rest]
  rw [List.append_assoc]
  exact tokens_cons_of_readToken rfl hread

theorem Spells.number (h : Number cs) : Spells cs [.number cs] := by
  intro rest hrest
  have hread := readNumber_of_number h hrest
  obtain ⟨c, others, rfl, hc⟩ := h.exists_cons
  obtain ⟨hspace, htoken⟩ := readToken_of_number_start hc (others ++ rest)
  rw [List.cons_append] at hread ⊢
  rw [hread] at htoken
  exact tokens_cons_of_readToken hspace htoken

theorem Spells.word {word : List Char} (hspace : isSpace c = false)
    (hread : ∀ rest, readToken c (word ++ rest) = some (token, rest)) :
    Spells (c :: word) [token] :=
  fun rest _ => tokens_cons_of_readToken hspace (hread rest)

theorem Spells.blank_append {blank : List Char} {ts : List Token} (hblank : Blank blank)
    (h : Spells cs ts) : Spells (blank ++ cs) ts := by
  intro rest hrest
  rw [List.append_assoc, tokens_blank_append hblank, h rest hrest]

theorem Spells.append_blank {blank : List Char} {ts : List Token} (h : Spells cs ts)
    (hblank : Blank blank) : Spells (cs ++ blank) ts := by
  intro rest hrest
  rw [List.append_assoc, h _ (hrest.blank_append hblank), tokens_blank_append hblank]

theorem Spells.blank {blank : List Char} (h : Blank blank) : Spells blank [] :=
  Spells.nil.append_blank h

/-- The marks between the parts of a value. -/
inductive Mark : Char → Token → Prop where
  | openObject : Mark '\x7b' .openObject
  | closeObject : Mark '\x7d' .closeObject
  | openArray : Mark '[' .openArray
  | closeArray : Mark ']' .closeArray
  | colon : Mark ':' .colon
  | comma : Mark ',' .comma

theorem tokens_cons_of_mark (h : Mark c token) (cs : List Char) :
    tokens (c :: cs) = (tokens cs).map (token :: ·) := by
  cases h <;> exact tokens_cons_of_readToken rfl rfl

/-- A number may end in front of a mark. -/
theorem EndsNumber.of_mark (h : Mark c token) (cs : List Char) : EndsNumber (c :: cs) := by
  constructor <;> (intro d hd; cases hd; cases h <;> decide)

theorem Spells.cons {ts : List Token} (h : Spells cs ts) (hmark : Mark c token) :
    Spells (c :: cs) (token :: ts) := by
  intro rest hrest
  rw [List.cons_append, tokens_cons_of_mark hmark, h rest hrest, Option.map_map]
  rfl

theorem Spells.append_cons {others : List Char} {ts us : List Token} (h : Spells cs ts)
    (hothers : Spells others us) (hmark : Mark c token) :
    Spells (cs ++ c :: others) (ts ++ token :: us) := by
  intro rest hrest
  rw [List.append_assoc, List.cons_append, h _ (.of_mark hmark _), ← List.cons_append,
    hothers.cons hmark rest hrest, Option.map_map]
  simp only [Function.comp_def, List.append_assoc]

theorem Spells.enclosed {left right : Char} {opening closing : Token} {ts : List Token}
    (h : Spells cs ts) (hleft : Mark left opening) (hright : Mark right closing) :
    Spells (left :: cs ++ [right]) (opening :: ts ++ [closing]) :=
  (h.cons hleft).append_cons .nil hright

/-- White space around the parts of a list makes no difference. -/
theorem Spells.padded {before after : List Char} {ts : List Token} (h : Spells cs ts)
    (hbefore : Blank before) (hafter : Blank after) : Spells (before ++ cs ++ after) ts :=
  (h.blank_append hbefore).append_blank hafter

end Tokens

/-! ## Values -/

/-- Passing over the tokens changes what is open and what has to come next in this way. -/
def Passes (brackets : List Bracket) (expected : Expected) (ts : List Token)
    (brackets' : List Bracket) (expected' : Expected) : Prop :=
  ∀ rest, skipFrom brackets expected (ts ++ rest) = skipFrom brackets' expected' rest

section Passing

variable {brackets brackets₁ brackets₂ : List Bracket} {expected expected₁ expected₂ : Expected}
  {ts us : List Token} {token : Token}

theorem Passes.append (h : Passes brackets expected ts brackets₁ expected₁)
    (h' : Passes brackets₁ expected₁ us brackets₂ expected₂) :
    Passes brackets expected (ts ++ us) brackets₂ expected₂ := by
  intro rest
  rw [List.append_assoc, h, h']

theorem Passes.of_passToken (hopen : ¬(brackets = [] ∧ expected = .afterValue))
    (h : passToken brackets expected token = some (brackets₁, expected₁)) :
    Passes brackets expected [token] brackets₁ expected₁ := by
  intro rest
  rw [List.singleton_append, skipFrom, if_neg hopen, h]

theorem Passes.inside {bracket : Bracket}
    (h : passToken (bracket :: brackets) expected token = some (brackets₁, expected₁)) :
    Passes (bracket :: brackets) expected [token] brackets₁ expected₁ :=
  .of_passToken (fun hopen => List.cons_ne_nil _ _ hopen.1) h

end Passing

namespace Grammar.Part

/-- The brackets in which the part stands. -/
def within : Part → List Bracket
  | value => []
  | items => [.array]
  | member | members => [.object]

/-- What may be expected where the part starts. -/
def starts : Part → List Expected
  | value | items => [.value, .firstItem]
  | member | members => [.key, .firstKey]

/-- The tokens are passed over like one value. -/
def Passed (part : Part) (ts : List Token) : Prop :=
  ∀ brackets, ∀ expected ∈ part.starts,
    Passes (part.within ++ brackets) expected ts (part.within ++ brackets) .afterValue

end Grammar.Part

theorem passToken_of_starts {brackets : List Bracket} {expected : Expected} {token : Token}
    (hstarts : expected ∈ Part.value.starts) (htoken : token ≠ .closeArray) :
    passToken brackets expected token = startValue brackets token := by
  simp only [Part.starts, List.mem_cons, List.not_mem_nil, or_false] at hstarts
  rcases hstarts with rfl | rfl
  · cases brackets <;> rfl
  · -- only the bracket that ends an empty array is treated differently
    rw [passToken.eq_def]
    split <;> simp_all

theorem Passes.of_startValue {brackets brackets' : List Bracket} {expected expected' : Expected}
    {token : Token} (hstarts : expected ∈ Part.value.starts)
    (h : startValue brackets token = some (brackets', expected')) :
    Passes brackets expected [token] brackets' expected' := by
  have htoken : token ≠ .closeArray := by
    rintro rfl
    cases h
  refine .of_passToken ?_ ((passToken_of_starts hstarts htoken).trans h)
  rintro ⟨-, rfl⟩
  exact absurd hstarts (by decide)

/-- A token that is a whole value is passed over. -/
theorem passed_singleton {token : Token}
    (h : ∀ brackets, startValue brackets token = some (brackets, .afterValue)) :
    Part.value.Passed [token] :=
  fun brackets _ hexpected => .of_startValue hexpected (h brackets)

/-- So are brackets, with what stands between them. -/
theorem passed_enclosed {bracket : Bracket} {first : Expected} {opening closing : Token}
    {ts : List Token}
    (hopening : ∀ brackets, startValue brackets opening = some (bracket :: brackets, first))
    (hinside : ∀ brackets,
      Passes (bracket :: brackets) first (ts ++ [closing]) brackets .afterValue) :
    Part.value.Passed (opening :: ts ++ [closing]) := by
  intro brackets expected hexpected
  have hopen : Passes brackets expected [opening] (bracket :: brackets) first :=
    .of_startValue hexpected (hopening brackets)
  exact hopen.append (hinside brackets)

/-- The parts of a value have tokens, and these are passed over. -/
theorem exists_tokens_of_written {part : Part} {cs : List Char} (h : Written part cs) :
    ∃ ts, Spells cs ts ∧ part.Passed ts := by
  -- by induction on the grammar, for any brackets that are open around the part
  induction h with
  | null => exact ⟨[.null], .word rfl fun _ => rfl, passed_singleton fun _ => rfl⟩
  | true => exact ⟨[.truth true], .word rfl fun _ => rfl, passed_singleton fun _ => rfl⟩
  | false => exact ⟨[.truth false], .word rfl fun _ => rfl, passed_singleton fun _ => rfl⟩
  | number hnumber => exact ⟨_, .number hnumber, passed_singleton fun _ => rfl⟩
  | text hcontents => exact ⟨_, .text hcontents, passed_singleton fun _ => rfl⟩
  | emptyArray hblank =>
    exact ⟨_, (Spells.blank hblank).enclosed .openArray .closeArray,
      passed_enclosed (fun _ => rfl) fun _ => .inside rfl⟩
  | array _ ih =>
    obtain ⟨ts, hts, hpassed⟩ := ih
    refine ⟨_, hts.enclosed .openArray .closeArray,
      passed_enclosed (fun _ => rfl) fun brackets => ?_⟩
    exact (hpassed brackets .firstItem (by decide)).append (.inside rfl)
  | emptyObject hblank =>
    exact ⟨_, (Spells.blank hblank).enclosed .openObject .closeObject,
      passed_enclosed (fun _ => rfl) fun _ => .inside rfl⟩
  | object _ ih =>
    obtain ⟨ts, hts, hpassed⟩ := ih
    refine ⟨_, hts.enclosed .openObject .closeObject,
      passed_enclosed (fun _ => rfl) fun brackets => ?_⟩
    exact (hpassed brackets .firstKey (by decide)).append (.inside rfl)
  | lastItem hbefore _ hafter ih =>
    obtain ⟨ts, hts, hpassed⟩ := ih
    exact ⟨ts, hts.padded hbefore hafter, fun brackets => hpassed (.array :: brackets)⟩
  | moreItems hbefore _ hafter _ ih ihothers =>
    obtain ⟨ts, hts, hpassed⟩ := ih
    obtain ⟨us, hus, hothers⟩ := ihothers
    refine ⟨_, (hts.padded hbefore hafter).append_cons hus .comma,
      fun brackets expected hexpected => ?_⟩
    have hcomma : Passes (.array :: brackets) .afterValue [.comma] (.array :: brackets) .value :=
      .inside rfl
    exact (hpassed (.array :: brackets) expected hexpected).append
      (hcomma.append (hothers brackets .value (by decide)))
  | @member _ _ _ _ pieces hkey hleft hright _ ih =>
    obtain ⟨ts, hts, hpassed⟩ := ih
    refine ⟨_, ((Spells.text hkey).append_blank hleft).append_cons (hts.blank_append hright) .colon,
      fun brackets expected hexpected => ?_⟩
    have htext :
        Passes (.object :: brackets) expected [.text pieces] (.object :: brackets) .colon := by
      simp only [Part.starts, List.mem_cons, List.not_mem_nil, or_false] at hexpected
      rcases hexpected with rfl | rfl <;> exact .inside rfl
    have hcolon : Passes (.object :: brackets) .colon [.colon] (.object :: brackets) .value :=
      .inside rfl
    exact htext.append (hcolon.append (hpassed (.object :: brackets) .value (by decide)))
  | lastMember hbefore _ hafter ih =>
    obtain ⟨ts, hts, hpassed⟩ := ih
    exact ⟨ts, hts.padded hbefore hafter, hpassed⟩
  | moreMembers hbefore _ hafter _ ih ihothers =>
    obtain ⟨ts, hts, hpassed⟩ := ih
    obtain ⟨us, hus, hothers⟩ := ihothers
    refine ⟨_, (hts.padded hbefore hafter).append_cons hus .comma,
      fun brackets expected hexpected => ?_⟩
    have hcomma : Passes (.object :: brackets) .afterValue [.comma] (.object :: brackets) .key :=
      .inside rfl
    exact (hpassed brackets expected hexpected).append
      (hcomma.append (hothers brackets .key (by decide)))

/-- A value is passed over, and what follows it is left. -/
theorem exists_tokens_of_value {cs : List Char} (h : Written .value cs) :
    ∃ ts, Spells cs ts ∧ ∀ rest, skipValue (ts ++ rest) = some rest := by
  obtain ⟨ts, hts, hpassed⟩ := exists_tokens_of_written h
  refine ⟨ts, hts, fun rest => ?_⟩
  have hskip : skipFrom [] .value (ts ++ rest) = skipFrom [] .afterValue rest :=
    hpassed [] .value (by decide) rest
  rw [skipValue, hskip]
  cases rest <;> rfl

end ArrayKernels.Json
