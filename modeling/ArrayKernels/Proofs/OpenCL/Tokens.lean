import Mathlib.Data.List.Basic

/-!
# Tokens of OpenCL C

The text of a program as the sequence of its tokens: identifiers and keywords, numbers,
punctuators, and the lines that speak to the preprocessor. A token is as long as it can be, so two
words need something between them, and two punctuators may be one.

Comments, character constants and strings are not part of the fragment. The two characters that
begin a comment are a token of their own here, for which no rule of the grammar has a place.

## Main results

- `tokensFrom_eq`: a token ends where the next character does not continue it.
- `tokens_word`, `tokens_number`, `tokens_mark`, `tokens_pair`, `tokens_directive`: the first token
  of a text.
-/

namespace ArrayKernels.OpenCL

/-! ## Tokens -/

inductive Token where
  /-- An identifier or a keyword. -/
  | word (text : List Char)
  /-- A number, with its suffix if it has one. -/
  | number (text : List Char)
  /-- A punctuator. -/
  | mark (text : List Char)
  /-- A line that speaks to the preprocessor. -/
  | directive (text : List Char)
deriving DecidableEq

/-! ## Characters -/

def isBlank (c : Char) : Bool := c ∈ [' ', '\n', '\t', '\r']

def isWordStart (c : Char) : Bool := c.isAlpha || c == '_'

def isWordChar (c : Char) : Bool := c.isAlphanum || c == '_'

/-- The punctuators of one character. -/
def marks : List Char := "()[]\x7b\x7d,;?:<>=+-*/%!&|^~".toList

/-- The punctuators of two characters, and what begins a comment. Those of three characters begin
with one of them. -/
def pairs : List (List Char) :=
  ["++", "--", "+=", "-=", "*=", "/=", "%=", "==", "!=", "<=", ">=", "<<", ">>", "&&", "||", "->",
   "&=", "|=", "^=", "<:", ":>", "<%", "%>", "%:", "//", "/*"].map String.toList

/-- Whether the character belongs to the number whose text so far is `text`: letters, digits and
points do, and a sign does behind the letter of an exponent. -/
def continuesNumber (text : List Char) (c : Char) : Bool :=
  isWordChar c || c == '.' ||
    ((c == '+' || c == '-') && decide (text.getLast? ∈ [some 'e', some 'E', some 'p', some 'P']))

/-! ## Scanning -/

/-- What stands directly before a character. -/
inductive Scan where
  | blank
  | word (text : List Char)
  | number (text : List Char)
  | mark (c : Char)
  | pair (first second : Char)
  | directive (text : List Char)
deriving DecidableEq

namespace Scan

/-- The token that has been scanned so far, if there is one. -/
def held : Scan → List Token
  | blank => []
  | word text => [.word text]
  | number text => [.number text]
  | mark c => [.mark [c]]
  | pair first second => [.mark [first, second]]
  | directive text => [.directive text]

/-- The token with one character more, if the character belongs to it. -/
def continue? : Scan → Char → Option Scan
  | blank, _ => none
  | word text, c => if isWordChar c then some (word (text ++ [c])) else none
  | number text, c => if continuesNumber text c then some (number (text ++ [c])) else none
  | mark first, c => if [first, c] ∈ pairs then some (pair first c) else none
  | pair _ _, _ => none
  | directive text, c => if c = '\n' then none else some (directive (text ++ [c]))

/-- The beginning of a new token, or a blank. -/
def start? (c : Char) : Option Scan :=
  if c.isDigit then some (number [c])
  else if isBlank c then some blank
  else if isWordStart c then some (word [c])
  else if c ∈ marks then some (mark c)
  else if c = '#' then some (directive [c])
  else none

end Scan

/-- The tokens of a text, the one that has been begun before it included. -/
def tokensFrom : Scan → List Char → Option (List Token)
  | scan, [] => some scan.held
  | scan, c :: text =>
    match scan.continue? c with
    | some scan => tokensFrom scan text
    | none => (Scan.start? c).bind fun next => (tokensFrom next text).map (scan.held ++ ·)

/-- The tokens of a text, if it has no other characters than those of the fragment. -/
def tokens (text : List Char) : Option (List Token) := tokensFrom .blank text

/-! ## First tokens -/

/-- What follows in the text does not continue the token. -/
def Ends (scan : Scan) (rest : List Char) : Prop := ∀ c ∈ rest.head?, scan.continue? c = none

theorem Ends.cons {scan : Scan} {c : Char} {rest : List Char} (h : scan.continue? c = none) :
    Ends scan (c :: rest) := by
  intro d hd
  rwa [← Option.some.inj hd]

/-- **A token ends where the next character does not continue it.** -/
theorem tokensFrom_eq {scan : Scan} {rest : List Char} {more : List Token} (hends : Ends scan rest)
    (hmore : tokens rest = some more) : tokensFrom scan rest = some (scan.held ++ more) := by
  cases rest with
  | nil =>
    obtain rfl : [] = more := Option.some.inj hmore
    rw [List.append_nil]
    rfl
  | cons c rest =>
    -- both scans begin the same token here, and only the held one differs
    have hcontinue := hends c rfl
    obtain ⟨next, hstart, hmore⟩ := Option.bind_eq_some_iff.mp hmore
    obtain ⟨found, hfound, rfl⟩ := Option.map_eq_some_iff.mp hmore
    rw [tokensFrom, hcontinue]
    simp only [hstart, hfound, Option.bind_some, Option.map_some]
    rfl

section FirstToken

variable {c d : Char} {text rest : List Char} {more : List Token}

/-- A new token takes its first character from the text. -/
private theorem tokens_of_start? {scan : Scan} (hstart : Scan.start? c = some scan)
    (hrest : tokensFrom scan rest = some more) : tokens (c :: rest) = some more := by
  simp only [tokens, tokensFrom, Scan.continue?, hstart, hrest, Option.bind_some, Option.map_some]
  rfl

theorem tokens_blank (hc : Scan.start? c = some .blank) (hmore : tokens rest = some more) :
    tokens (c :: rest) = some more :=
  tokens_of_start? hc hmore

private theorem tokensFrom_word (before : List Char) (hword : ∀ c ∈ text, isWordChar c = true)
    (hends : Ends (.word (before ++ text)) rest) (hmore : tokens rest = some more) :
    tokensFrom (.word before) (text ++ rest) = some (.word (before ++ text) :: more) := by
  induction text generalizing before with
  | nil =>
    rw [List.append_nil] at hends ⊢
    exact tokensFrom_eq hends hmore
  | cons c text ih =>
    obtain ⟨hc, hword⟩ := List.forall_mem_cons.mp hword
    have hnext := ih (before ++ [c]) hword (by rwa [List.append_assoc])
    rw [List.append_assoc] at hnext
    rw [List.cons_append, tokensFrom, Scan.continue?, if_pos hc]
    exact hnext

/-- The text is that of an identifier or a keyword. -/
structure IsWord (text : List Char) : Prop where
  start : ∃ c ∈ text.head?, Scan.start? c = some (.word [c])
  chars : ∀ c ∈ text, isWordChar c = true

instance : DecidablePred IsWord := fun text =>
  decidable_of_iff
    ((text.head?.any fun c => Scan.start? c = some (.word [c])) ∧ text.all isWordChar) (by
      rw [Option.any_eq_true, List.all_eq_true]
      simp only [decide_eq_true_eq]
      exact ⟨fun h => ⟨h.1, h.2⟩, fun h => ⟨h.1, h.2⟩⟩)

theorem tokens_word (hword : IsWord text) (hends : Ends (.word text) rest)
    (hmore : tokens rest = some more) : tokens (text ++ rest) = some (.word text :: more) := by
  obtain ⟨⟨c, hhead, hstart⟩, hchars⟩ := hword
  cases text with
  | nil => cases hhead
  | cons first text =>
    obtain rfl : first = c := Option.some.inj hhead
    exact tokens_of_start? hstart
      (tokensFrom_word [first] (List.forall_mem_cons.mp hchars).2 hends hmore)

/-- Every character continues the number that those before it make up. -/
def ContinueNumber : (before text : List Char) → Prop
  | _, [] => True
  | before, c :: text => continuesNumber before c = true ∧ ContinueNumber (before ++ [c]) text

theorem ContinueNumber.append {before text after : List Char} (h : ContinueNumber before text)
    (hafter : ContinueNumber (before ++ text) after) : ContinueNumber before (text ++ after) := by
  induction text generalizing before with
  | nil => rwa [List.append_nil] at hafter
  | cons c text ih =>
    refine ⟨h.1, ih h.2 ?_⟩
    rwa [List.append_assoc]

/-- Letters, digits and points continue every number. -/
theorem continueNumber_of_plain {before : List Char}
    (h : ∀ c ∈ text, isWordChar c = true ∨ c = '.') : ContinueNumber before text := by
  induction text generalizing before with
  | nil => trivial
  | cons c text ih =>
    obtain ⟨hc, htext⟩ := List.forall_mem_cons.mp h
    refine ⟨?_, ih htext⟩
    rcases hc with hc | rfl
    · rw [continuesNumber, hc, Bool.true_or, Bool.true_or]
    · rfl

private theorem tokensFrom_number (before : List Char) (hnumber : ContinueNumber before text)
    (hends : Ends (.number (before ++ text)) rest) (hmore : tokens rest = some more) :
    tokensFrom (.number before) (text ++ rest) = some (.number (before ++ text) :: more) := by
  induction text generalizing before with
  | nil =>
    rw [List.append_nil] at hends ⊢
    exact tokensFrom_eq hends hmore
  | cons c text ih =>
    have hnext := ih (before ++ [c]) hnumber.2 (by rwa [List.append_assoc])
    rw [List.append_assoc] at hnext
    rw [List.cons_append, tokensFrom, Scan.continue?, if_pos hnumber.1]
    exact hnext

theorem tokens_number (hc : c.isDigit = true) (hnumber : ContinueNumber [c] text)
    (hends : Ends (.number (c :: text)) rest) (hmore : tokens rest = some more) :
    tokens (c :: (text ++ rest)) = some (.number (c :: text) :: more) :=
  tokens_of_start? (if_pos hc) (tokensFrom_number [c] hnumber hends hmore)

/-- A punctuator that no other one begins with, or that the text does not go on with. -/
theorem tokens_mark (hc : Scan.start? c = some (.mark c)) (hends : Ends (.mark c) rest)
    (hmore : tokens rest = some more) : tokens (c :: rest) = some (.mark [c] :: more) :=
  tokens_of_start? hc (tokensFrom_eq hends hmore)

theorem tokens_pair (hc : Scan.start? c = some (.mark c)) (hpair : [c, d] ∈ pairs)
    (hmore : tokens rest = some more) : tokens (c :: d :: rest) = some (.mark [c, d] :: more) := by
  refine tokens_of_start? hc ?_
  rw [tokensFrom, Scan.continue?, if_pos hpair]
  exact tokensFrom_eq (fun _ _ => rfl) hmore

private theorem tokensFrom_directive (before : List Char) (hline : '\n' ∉ text)
    (hmore : tokens rest = some more) :
    tokensFrom (.directive before) (text ++ '\n' :: rest) =
      some (.directive (before ++ text) :: more) := by
  induction text generalizing before with
  | nil =>
    rw [List.append_nil, List.nil_append]
    exact tokensFrom_eq (.cons rfl) (tokens_blank rfl hmore)
  | cons c text ih =>
    rw [List.mem_cons, not_or] at hline
    have hnext := ih (before ++ [c]) hline.2
    rw [List.append_assoc] at hnext
    rw [List.cons_append, tokensFrom, Scan.continue?, if_neg (Ne.symm hline.1)]
    exact hnext

theorem tokens_directive (hline : '\n' ∉ text) (hmore : tokens rest = some more) :
    tokens ('#' :: (text ++ '\n' :: rest)) = some (.directive ('#' :: text) :: more) :=
  tokens_of_start? rfl (tokensFrom_directive ['#'] hline hmore)

end FirstToken

end ArrayKernels.OpenCL
