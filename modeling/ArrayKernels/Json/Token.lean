/-!
# JSON tokens

The first step of reading JSON: brackets, separators, strings, numbers and the three words, with the
white space between them left out. A string is kept as the characters and code units that it is
written with, so that a string nobody asks for may hold half of a surrogate pair.
-/

namespace ArrayKernels.Json

/-! ## Tokens -/

/-- A part of a string: a character, or a code unit of sixteen bits given by its digits. -/
inductive Piece where
  | char (c : Char)
  | unit (code : Nat)
deriving DecidableEq

/-- A token. -/
inductive Token where
  | openObject | closeObject | openArray | closeArray | colon | comma
  | text (pieces : List Piece)
  /-- A number as it is written. -/
  | number (literal : List Char)
  | truth (value : Bool)
  | null
deriving DecidableEq

/-! ## Strings -/

/-- The value of a hexadecimal digit. -/
def hexValue? (c : Char) : Option Nat :=
  if '0' ≤ c ∧ c ≤ '9' then some (c.toNat - '0'.toNat)
  else if 'a' ≤ c ∧ c ≤ 'f' then some (c.toNat - 'a'.toNat + 10)
  else if 'A' ≤ c ∧ c ≤ 'F' then some (c.toNat - 'A'.toNat + 10)
  else none

/-- The value of four hexadecimal digits. -/
def hexCode? (a b c d : Char) : Option Nat := do
  return (((← hexValue? a) * 16 + (← hexValue? b)) * 16 + (← hexValue? c)) * 16 + (← hexValue? d)

/-- The character that a backslash and this letter stand for. -/
def simpleEscape? (c : Char) : Option Char :=
  if c = '"' ∨ c = '\\' ∨ c = '/' then some c
  else if c = 'b' then some (Char.ofNat 8)
  else if c = 'f' then some (Char.ofNat 12)
  else if c = 'n' then some '\n'
  else if c = 'r' then some '\r'
  else if c = 't' then some '\t'
  else none

/-- Reads a string after its opening quote. Control characters have to be escaped. -/
def readText : List Char → Option (List Piece × List Char)
  | [] => none
  | c :: cs =>
    if c = '"' then some ([], cs)
    else if c.toNat < 32 then none
    else if c = '\\' then
      match cs with
      | [] => none
      | letter :: cs =>
        if letter = 'u' then
          match cs with
          | a :: b :: c :: d :: cs => do
            let code ← hexCode? a b c d
            let (pieces, rest) ← readText cs
            return (.unit code :: pieces, rest)
          | _ => none
        else do
          let c ← simpleEscape? letter
          let (pieces, rest) ← readText cs
          return (.char c :: pieces, rest)
    else do
      let (pieces, rest) ← readText cs
      return (.char c :: pieces, rest)

/-- What follows a string is a part of the text. -/
theorem length_le_of_readText {cs rest : List Char} {pieces : List Piece}
    (h : readText cs = some (pieces, rest)) : rest.length ≤ cs.length := by
  fun_induction readText cs generalizing pieces rest with
  | case1 => simp at h
  | case2 cs => simp_all
  | case3 => simp at h
  | case4 => simp at h
  | case5 a b c d cs _ _ ih =>
    obtain ⟨code, -, h⟩ := Option.bind_eq_some_iff.1 h
    obtain ⟨⟨pieces', rest'⟩, hr, h⟩ := Option.bind_eq_some_iff.1 h
    obtain ⟨-, rfl⟩ := Prod.mk.inj (Option.some.inj h)
    have := ih hr
    simp only [List.length_cons]
    omega
  | case6 => simp at h
  | case7 letter cs _ _ _ ih =>
    obtain ⟨c, -, h⟩ := Option.bind_eq_some_iff.1 h
    obtain ⟨⟨pieces', rest'⟩, hr, h⟩ := Option.bind_eq_some_iff.1 h
    obtain ⟨-, rfl⟩ := Prod.mk.inj (Option.some.inj h)
    have := ih hr
    simp only [List.length_cons]
    omega
  | case8 c cs _ _ _ ih =>
    obtain ⟨⟨pieces', rest'⟩, hr, h⟩ := Option.bind_eq_some_iff.1 h
    obtain ⟨-, rfl⟩ := Prod.mk.inj (Option.some.inj h)
    have := ih hr
    simp only [List.length_cons]
    omega

/-- The characters that a string stands for. A code unit that is half of a surrogate pair needs the
other half right after it. -/
def decodePieces : List Piece → Option (List Char)
  | [] => some []
  | .char c :: pieces => (decodePieces pieces).map (c :: ·)
  | .unit code :: pieces =>
    if code < 0xD800 ∨ 0xDFFF < code then (decodePieces pieces).map (Char.ofNat code :: ·)
    else if 0xDBFF < code then none
    else
      match pieces with
      | .unit low :: pieces =>
        if 0xDC00 ≤ low ∧ low ≤ 0xDFFF then
          (decodePieces pieces).map
            (Char.ofNat (0x10000 + (code - 0xD800) * 0x400 + (low - 0xDC00)) :: ·)
        else none
      | _ => none

/-! ## Numbers -/

/-- What is left after a run of characters is no longer than the whole. -/
theorem length_dropWhile_le (p : Char → Bool) (cs : List Char) :
    (cs.dropWhile p).length ≤ cs.length := (List.dropWhile_sublist p).length_le

/-- Reads an optional part of a number: at least one digit after a mark and perhaps a sign. -/
def readDigits (mark : List Char) (cs : List Char) : Option (List Char × List Char) :=
  match cs.takeWhile Char.isDigit with
  | [] => none
  | digits => some (mark ++ digits, cs.dropWhile Char.isDigit)

/-- What follows the digits is a part of the text. -/
theorem length_le_of_readDigits {mark cs digits rest : List Char}
    (h : readDigits mark cs = some (digits, rest)) : rest.length ≤ cs.length := by
  unfold readDigits at h
  split at h
  · simp at h
  · obtain ⟨-, rfl⟩ := Prod.mk.inj (Option.some.inj h)
    exact length_dropWhile_le _ cs

/-- Reads the digits before the point: a zero alone, or digits of which the first is not zero. -/
def readWhole : List Char → Option (List Char × List Char)
  | [] => none
  | c :: cs =>
    if c = '0' then some ([c], cs)
    else if c.isDigit then some (c :: cs.takeWhile Char.isDigit, cs.dropWhile Char.isDigit)
    else none

/-- There is at least one digit before the point. -/
theorem length_lt_of_readWhole {cs digits rest : List Char}
    (h : readWhole cs = some (digits, rest)) : rest.length < cs.length := by
  unfold readWhole at h
  grind [length_dropWhile_le]

/-- Reads the point and the digits after it, if there is a point. -/
def readFraction : List Char → Option (List Char × List Char)
  | '.' :: cs => readDigits ['.'] cs
  | cs => some ([], cs)

/-- What follows the point and its digits is a part of the text. -/
theorem length_le_of_readFraction {cs digits rest : List Char}
    (h : readFraction cs = some (digits, rest)) : rest.length ≤ cs.length := by
  unfold readFraction at h
  split at h
  · exact Nat.le_succ_of_le (length_le_of_readDigits h)
  · grind

/-- Reads the exponent, if there is one. -/
def readExponent : List Char → Option (List Char × List Char)
  | [] => some ([], [])
  | c :: cs =>
    if c = 'e' ∨ c = 'E' then
      match cs with
      | '+' :: cs => readDigits [c, '+'] cs
      | '-' :: cs => readDigits [c, '-'] cs
      | cs => readDigits [c] cs
    else some ([], c :: cs)

/-- What follows the exponent is a part of the text. -/
theorem length_le_of_readExponent {cs digits rest : List Char}
    (h : readExponent cs = some (digits, rest)) : rest.length ≤ cs.length := by
  unfold readExponent at h
  split at h
  · grind
  · split at h
    · split at h <;> have := length_le_of_readDigits h <;> grind
    · grind

/-- Reads a number without its sign. -/
def readUnsigned (cs : List Char) : Option (List Char × List Char) := do
  let (whole, cs) ← readWhole cs
  let (fraction, cs) ← readFraction cs
  let (exponent, cs) ← readExponent cs
  return (whole ++ fraction ++ exponent, cs)

/-- A number has at least one digit. -/
theorem length_lt_of_readUnsigned {cs literal rest : List Char}
    (h : readUnsigned cs = some (literal, rest)) : rest.length < cs.length := by
  obtain ⟨⟨whole, cs₁⟩, h₁, h⟩ := Option.bind_eq_some_iff.1 h
  obtain ⟨⟨fraction, cs₂⟩, h₂, h⟩ := Option.bind_eq_some_iff.1 h
  obtain ⟨⟨exponent, cs₃⟩, h₃, h⟩ := Option.bind_eq_some_iff.1 h
  obtain ⟨-, rfl⟩ := Prod.mk.inj (Option.some.inj h)
  have := length_lt_of_readWhole h₁
  have := length_le_of_readFraction h₂
  have := length_le_of_readExponent h₃
  omega

/-- Reads a number. -/
def readNumber : List Char → Option (List Char × List Char)
  | '-' :: cs => (readUnsigned cs).map fun (literal, rest) => ('-' :: literal, rest)
  | cs => readUnsigned cs

/-- A number with its sign has at least one digit. -/
theorem length_lt_of_readNumber {cs literal rest : List Char}
    (h : readNumber cs = some (literal, rest)) : rest.length < cs.length := by
  unfold readNumber at h
  split at h
  · obtain ⟨⟨literal', rest'⟩, hr, h⟩ := Option.map_eq_some_iff.1 h
    obtain ⟨-, rfl⟩ := Prod.mk.inj h
    exact Nat.lt_succ_of_lt (length_lt_of_readUnsigned hr)
  · exact length_lt_of_readUnsigned h

/-! ## Texts -/

/-- The text after a word that it starts with. -/
def afterWord (word cs : List Char) : Option (List Char) :=
  if word.isPrefixOf cs then some (cs.drop word.length) else none

/-- What follows a word is a part of the text. -/
theorem length_le_of_afterWord {word cs rest : List Char}
    (h : afterWord word cs = some rest) : rest.length ≤ cs.length := by
  unfold afterWord at h
  grind

/-- Reads the token that starts with the character `c`. -/
def readToken (c : Char) (cs : List Char) : Option (Token × List Char) :=
  if c = '\x7b' then some (.openObject, cs)
  else if c = '\x7d' then some (.closeObject, cs)
  else if c = '[' then some (.openArray, cs)
  else if c = ']' then some (.closeArray, cs)
  else if c = ':' then some (.colon, cs)
  else if c = ',' then some (.comma, cs)
  else if c = '"' then (readText cs).map fun (pieces, rest) => (.text pieces, rest)
  else if c = 't' then (afterWord "rue".toList cs).map (Token.truth true, ·)
  else if c = 'f' then (afterWord "alse".toList cs).map (Token.truth false, ·)
  else if c = 'n' then (afterWord "ull".toList cs).map (Token.null, ·)
  else (readNumber (c :: cs)).map fun (literal, rest) => (.number literal, rest)

/-- A token takes up at least its first character. -/
theorem length_le_of_readToken {c : Char} {cs rest : List Char} {token : Token}
    (h : readToken c cs = some (token, rest)) : rest.length ≤ cs.length := by
  unfold readToken at h
  repeat' split at h
  all_goals
    simp only [Option.map_eq_some_iff, Option.some.injEq, Prod.mk.injEq, Prod.exists] at h
    grind [→ length_le_of_afterWord, → length_lt_of_readNumber, → length_le_of_readText]

/-- Whether the character may stand between tokens. -/
def isSpace (c : Char) : Bool := c = ' ' || c = '\n' || c = '\t' || c = '\r'

/-- The tokens of a text. -/
def tokens (cs : List Char) : Option (List Token) :=
  match cs with
  | [] => some []
  | c :: cs =>
    if isSpace c then tokens cs
    else
      match _h : readToken c cs with
      | none => none
      | some (token, rest) => (tokens rest).map (token :: ·)
termination_by cs.length
decreasing_by
  · simp
  · exact Nat.lt_succ_of_le (length_le_of_readToken _h)

end ArrayKernels.Json
