import ArrayKernels.Device.Printer
import ArrayKernels.Proofs.Decimal.Digits
import ArrayKernels.Proofs.OpenCL.Grammar

/-!
# Printed expressions read back

What the texts of names, positions and values are read as. A name is a stem with a number behind it,
so no two names have one text and none is a keyword. A number is printed in scientific notation, and
a minus sign in front of it is read as the operator.

## Main results

- `Name.spell_injective`: the text tells the name.
- `Word.termText`: positions read as the terms that they stand for.
- `Value.operandText`: so do values.
-/

namespace ArrayKernels

open OpenCL

/-! ## Numbers -/

namespace OpenCL

theorem isWordChar_of_isDigit {c : Char} (h : c.isDigit = true) : isWordChar c = true := by
  rw [isWordChar, Char.isAlphanum, h, Bool.or_true, Bool.true_or]

theorem isDigit_of_mem {n : Nat} {c : Char} (h : c ∈ Device.spellNat n) : c.isDigit = true :=
  Text.isDigit_of_mem_toDigits h

end OpenCL

namespace Device

/-- A word literal reads as the word. -/
theorem operandText_wordLiteral {n : Nat} (h : n < wordBound) :
    OperandText (spellWordLiteral n) (.word n) := by
  have hread : readConstant (spellWordLiteral n) = some (.word n) := by
    have hsuffix : ∀ c ∈ ['U', 'L'].head?, c.isDigit = false := by
      intro c hc
      cases hc
      rfl
    obtain ⟨htake, hdrop⟩ :=
      Text.span_digits (spellNat n) ['U', 'L'] (fun c => isDigit_of_mem) hsuffix
    rw [spellWordLiteral, readConstant, htake, hdrop]
    simp only [spellNat, Text.ofDigits_toDigits, h, and_self, if_true]
  have hdigits : ∀ c ∈ spellNat n, c.isDigit = true := fun c => isDigit_of_mem
  unfold spellWordLiteral at hread ⊢
  -- there is a first digit, and digits and letters continue it
  cases hn : spellNat n with
  | nil => exact absurd hn Nat.toDigits_ne_nil
  | cons first rest =>
    rw [hn] at hread hdigits
    obtain ⟨hfirst, hrest⟩ := List.forall_mem_cons.mp hdigits
    refine .constant hfirst (continueNumber_of_plain fun c hc => .inl ?_) hread
    rcases List.mem_append.mp hc with hdigit | hsuffix
    · exact isWordChar_of_isDigit (hrest c hdigit)
    · have hsuffixes : ∀ c ∈ ['U', 'L'], isWordChar c = true :=
        List.forall_iff_forall_mem.mp (by decide)
      exact hsuffixes c hsuffix

/-! ## Names -/

namespace Name

/-- The letters of a name. -/
def stem : Name → List Char
  | gid => "gid".toList
  | count => "n".toList
  | out => "out".toList
  | iteration => "l".toList
  | rest => "rest".toList
  | column _ => "a".toList
  | scalar _ => "x".toList
  | input _ => "in".toList
  | base _ => "base".toList
  | index _ => "i".toList
  | total _ => "acc".toList

/-- The digits of a name. -/
def digits : Name → List Char
  | gid | count | out | iteration | rest => []
  | column k | scalar k | input k | base k | index k | total k => spellNat k

theorem spell_eq (name : Name) : name.spell = name.stem ++ name.digits := by
  cases name <;> rfl

theorem isDigit_of_mem_digits {name : Name} {c : Char} (h : c ∈ name.digits) :
    c.isDigit = true := by
  cases name
  all_goals first
    | exact isDigit_of_mem h
    | exact absurd h List.not_mem_nil

/-- The names with a stem, by their number. -/
def ofStem : List (List Char × (Nat → Name)) :=
  [("gid".toList, fun _ => gid), ("n".toList, fun _ => count), ("out".toList, fun _ => out),
   ("l".toList, fun _ => iteration), ("rest".toList, fun _ => rest), ("a".toList, column),
   ("x".toList, scalar), ("in".toList, input), ("base".toList, base), ("i".toList, index),
   ("acc".toList, total)]

theorem ofStem_stem (name : Name) :
    (ofStem.lookup name.stem).map (· (Text.ofDigits name.digits)) = some name := by
  have hnumber : ∀ k, Text.ofDigits (spellNat k) = k := Text.ofDigits_toDigits
  cases name
  all_goals first
    | rfl
    | rw [digits, hnumber]; rfl

def stems : List (List Char) := ofStem.map Prod.fst

theorem stem_mem_stems (name : Name) : name.stem ∈ stems := by
  cases name <;> simp only [stem, stems, ofStem, List.map_cons, List.mem_cons, true_or, or_true]

theorem stem_letters {name : Name} {c : Char} (h : c ∈ name.stem) :
    c.isDigit = false ∧ isWordChar c = true := by
  have hstems : ∀ stem ∈ stems, stem.Forall fun c => c.isDigit = false ∧ isWordChar c = true := by
    decide
  exact List.forall_iff_forall_mem.mp (hstems name.stem name.stem_mem_stems) c h

/-- The stem of a name is the text up to the first digit. -/
theorem takeWhile_spell (name : Name) : name.spell.takeWhile (!·.isDigit) = name.stem := by
  rw [spell_eq, List.takeWhile_append_of_pos]
  · cases hdigits : name.digits with
    | nil => exact List.append_nil _
    | cons c rest =>
      have hc : c.isDigit = true := isDigit_of_mem_digits (hdigits ▸ List.mem_cons_self)
      rw [List.takeWhile_cons_of_neg (by rw [hc]; decide), List.append_nil]
  · intro c hc
    rw [(stem_letters hc).1]
    rfl

/-- **The text tells the name.** -/
theorem spell_injective {a b : Name} (h : a.spell = b.spell) : a = b := by
  -- the stem ends at the first digit, and the digits are what is left
  have hstem : a.stem = b.stem := by rw [← takeWhile_spell, h, takeWhile_spell]
  have hdigits : a.digits = b.digits := by
    rw [spell_eq, spell_eq, hstem] at h
    exact List.append_cancel_left h
  refine Option.some.inj ?_
  rw [← ofStem_stem a, hstem, hdigits, ofStem_stem b]

theorem isWord (name : Name) : IsWord name.spell := by
  refine ⟨?_, fun c hc => ?_⟩
  · cases name
    all_goals exact ⟨_, rfl, rfl⟩
  · rw [spell_eq] at hc
    rcases List.mem_append.mp hc with hstem | hdigit
    · exact (stem_letters hstem).2
    · exact isWordChar_of_isDigit (isDigit_of_mem_digits hdigit)

/-- A name is no word of letters, unless it is one of the stems. -/
theorem spell_ne {text : List Char} (hletters : ∀ c ∈ text, (!c.isDigit) = true)
    (hstem : text ∉ stems) (name : Name) : name.spell ≠ text := by
  intro heq
  have htake : text.takeWhile (!·.isDigit) = text := by
    rw [← List.append_nil text, List.takeWhile_append_of_pos hletters, List.takeWhile_nil]
  rw [← heq, takeWhile_spell] at htake
  exact hstem (heq ▸ htake ▸ name.stem_mem_stems)

theorem readWord_spell (name : Name) : readWord name.spell = .name name.spell := by
  have hnan : name.spell ≠ "NAN".toList := spell_ne
    (List.forall_iff_forall_mem.mp (by decide)) (by decide) name
  have hinfinity : name.spell ≠ "INFINITY".toList := spell_ne
    (List.forall_iff_forall_mem.mp (by decide)) (by decide) name
  rw [readWord, if_neg hnan, if_neg hinfinity]

theorem operandText (name : Name) : OperandText name.spell (.name name.spell) := by
  have h := name.isWord.operand
  rwa [readWord_spell] at h

end Name

/-! ## Positions -/

namespace Word

/-- A product that is added. -/
def addTerm (sum : Term) (term : Name × Nat) : Term :=
  .binary .plus sum (.binary .times (.name term.1.spell) (.word term.2))

/-- What the text of a position reads as. -/
def term : Word → Term
  | globalId => .call "get_global_id".toList (.int 0)
  | zero => .int 0
  | var name => .name name.spell
  | times name factor => .binary .times (.name name.spell) (.word factor)
  | quotient name divisor => .binary .dividedBy (.name name.spell) (.word divisor)
  | remainder name divisor => .binary .modulo (.name name.spell) (.word divisor)
  | offset base terms => terms.foldl addTerm (.name base.spell)

/-- The numbers in the position are words. -/
def Fits : Word → Prop
  | globalId | zero | var _ => True
  | times _ n | quotient _ n | remainder _ n => n < wordBound
  | offset _ terms => ∀ term ∈ terms, term.2 < wordBound

theorem operandText_zero : OperandText ['0'] (.int 0) := .constant rfl trivial rfl

theorem sumText_terms {terms : List (Name × Nat)} (h : ∀ term ∈ terms, term.2 < wordBound) :
    SumText (spellTerms terms) fun sum => terms.foldl addTerm sum := by
  induction terms with
  | nil => exact .nil
  | cons term terms ih =>
    obtain ⟨hterm, hterms⟩ := List.forall_mem_cons.mp h
    exact .cons term.1.operandText (operandText_wordLiteral hterm) (ih hterms)

/-- An operator between a variable and a word. The text of the operator is given apart, for the
digits of the word must not be opened when the two are compared. -/
theorem termText_binary (op : Operator) {mark : List Char}
    (hmark : ∀ text, mark ++ text = ' ' :: op.mark ++ ' ' :: text) (name : Name) {n : Nat}
    (hn : n < wordBound) :
    TermText (name.spell ++ mark ++ spellWordLiteral n)
      (.binary op (.name name.spell) (.word n)) := by
  rw [List.append_assoc, hmark]
  exact (LevelText.binary op name.operandText (operandText_wordLiteral hn)).term

/-- **Positions read as the terms that they stand for.** -/
theorem termText (word : Word) (h : word.Fits) : TermText word.spell word.term := by
  cases word with
  | globalId =>
    have hword : IsWord "get_global_id".toList := by decide
    exact (OperandText.call hword operandText_zero.term).term
  | zero => exact operandText_zero.term
  | var name => exact name.operandText.term
  | times name factor =>
    change TermText (name.spell ++ " * ".toList ++ spellWordLiteral factor) _
    exact termText_binary .times (fun _ => rfl) name h
  | quotient name divisor =>
    change TermText (name.spell ++ " / ".toList ++ spellWordLiteral divisor) _
    exact termText_binary .dividedBy (fun _ => rfl) name h
  | remainder name divisor =>
    change TermText (name.spell ++ " % ".toList ++ spellWordLiteral divisor) _
    exact termText_binary .modulo (fun _ => rfl) name h
  | offset base terms => exact (base.operandText.sum (sumText_terms h)).term

end Word

/-! ## Literals -/

/-- A decimal constant: it begins with a digit, a number goes on with the rest, and it has a point or
an exponent. -/
structure IsDecimal (text : List Char) : Prop where
  scans : ∃ first rest, text = first :: rest ∧ first.isDigit = true ∧ ContinueNumber [first] rest
  reads : readConstant text = some (.decimal text)

theorem IsDecimal.operandText {text : List Char} (h : IsDecimal text) :
    OperandText text (.decimal text) := by
  obtain ⟨⟨first, rest, rfl, hfirst, hrest⟩, hreads⟩ := h
  exact .constant hfirst hrest hreads

/-- A digit, and a point or the letter of the exponent behind it. -/
theorem isDecimal_of_digit {first mark : Char} {rest : List Char} (hfirst : first.isDigit = true)
    (hmark : mark = '.' ∨ mark = 'e') (hrest : ContinueNumber [first] (mark :: rest)) :
    IsDecimal (first :: mark :: rest) := by
  refine ⟨⟨first, mark :: rest, rfl, hfirst, hrest⟩, ?_⟩
  obtain ⟨-, hdrop⟩ := Text.span_digits [first] (mark :: rest)
    (by simpa using hfirst) (by
      intro c hc
      rw [← Option.some.inj hc]
      rcases hmark with rfl | rfl
      · decide
      · decide)
  rw [List.singleton_append] at hdrop
  rw [readConstant, hdrop]
  rcases hmark with rfl | rfl
  · rfl
  · rfl

theorem isDecimal_of_plain {first mark : Char} {rest : List Char} (hfirst : first.isDigit = true)
    (hmark : mark = '.' ∨ mark = 'e')
    (hplain : (mark :: rest).Forall fun c => isWordChar c = true ∨ c = '.') :
    IsDecimal (first :: mark :: rest) :=
  isDecimal_of_digit hfirst hmark
    (continueNumber_of_plain (List.forall_iff_forall_mem.mp hplain))

theorem isDecimal_zero : IsDecimal "0.0".toList := isDecimal_of_plain rfl (.inl rfl) (by decide)

theorem isDecimal_one : IsDecimal "1.0".toList := isDecimal_of_plain rfl (.inl rfl) (by decide)

/-- The exponent may begin with a sign, for it stands behind a letter. -/
theorem continueNumber_spellInt {before : List Char} (hbefore : before.getLast? = some 'e') (n : Int) :
    ContinueNumber before (Decimal.spellInt n) := by
  have hdigits : ∀ before, ContinueNumber before (Nat.toDigits 10 n.natAbs) := fun _ =>
    continueNumber_of_plain fun c hc => .inl (isWordChar_of_isDigit (isDigit_of_mem hc))
  rw [Decimal.spellInt]
  split
  · refine ⟨?_, hdigits _⟩
    rw [continuesNumber, hbefore]
    rfl
  · exact hdigits _

/-- A number in scientific notation is a decimal constant. -/
theorem isDecimal_spellNumeral (d : Decimal.Numeral) : IsDecimal (Decimal.spellNumeral d) := by
  have hdigits : ∀ c ∈ Nat.toDigits 10 d.digits, c.isDigit = true := fun c => isDigit_of_mem
  rw [Decimal.spellNumeral]
  split
  · next heq => exact absurd heq Nat.toDigits_ne_nil
  next first rest heq =>
    rw [heq] at hdigits
    obtain ⟨hfirst, hrest⟩ := List.forall_mem_cons.mp hdigits
    cases rest with
    | nil => exact isDecimal_of_digit hfirst (.inr rfl) ⟨rfl, continueNumber_spellInt rfl _⟩
    | cons second rest =>
      -- the fraction is plain, and the exponent behind it may begin with a sign
      have hfraction : ∀ c ∈ '.' :: second :: rest, isWordChar c = true ∨ c = '.' := by
        intro c hc
        rcases List.mem_cons.mp hc with rfl | hc
        · exact .inr rfl
        · exact .inl (isWordChar_of_isDigit (hrest c hc))
      have hpoint : ContinueNumber [first] ('.' :: second :: rest) :=
        continueNumber_of_plain hfraction
      refine isDecimal_of_digit hfirst (.inl rfl) (hpoint.append ?_)
      refine ⟨?_, continueNumber_spellInt List.getLast?_concat _⟩
      rw [continuesNumber]
      rfl

/-- The term of a number in scientific notation: a sign in front of it is an operator. -/
def numeralTerm : List Char → Term
  | '-' :: digits => .negated (.decimal digits)
  | digits => .decimal digits

/-- What the text of a number reads as. -/
def literalTerm (x : Float) : Term :=
  if x.isNaN then .nan
  else if x == 1.0 / 0.0 then .infinity
  else if x == -1.0 / 0.0 then .negated .infinity
  else numeralTerm (Decimal.spellFloat x)

theorem IsDecimal.termText {text : List Char} (h : IsDecimal text) :
    TermText text (numeralTerm text) := by
  have hterm := h.operandText.term
  obtain ⟨⟨first, rest, rfl, hfirst, -⟩, -⟩ := h
  rw [numeralTerm]
  · exact hterm
  · rintro digits ⟨⟩
    cases hfirst

/-- A finite number is a decimal constant, or the negation of one. -/
theorem termText_spellFloat (x : Float) :
    TermText (Decimal.spellFloat x) (numeralTerm (Decimal.spellFloat x)) := by
  rw [Decimal.spellFloat, Decimal.spellBits]
  have hunsigned : ∀ b : Decimal.Binary, ∀ zero : Prop, [Decidable zero] →
      IsDecimal (if zero then ['0', 'e', '0'] else Decimal.spellNumeral (Decimal.shortest b)) := by
    intro b zero _
    split
    · exact isDecimal_of_plain rfl (.inr rfl) (by decide)
    · exact isDecimal_spellNumeral _
  split
  · exact LevelText.negated (hunsigned _ _).operandText
  · exact (hunsigned _ _).termText

theorem operandText_nan : OperandText "NAN".toList .nan :=
  IsWord.operand (by decide)

theorem operandText_infinity : OperandText "INFINITY".toList .infinity :=
  IsWord.operand (by decide)

theorem operandText_literal (x : Float) : OperandText (spellLiteral x) (literalTerm x) := by
  rw [spellLiteral, literalTerm]
  split
  · exact operandText_nan
  split
  · exact operandText_infinity
  split
  · exact .parens (LevelText.negated operandText_infinity)
  · exact .parens (termText_spellFloat x)

/-! ## Values -/

/-- What a function of one value reads as. -/
def unaryTerm : UnaryOp → Term → Term
  | .neg, a => .negated a
  | .abs, a => .call "fabs".toList a
  | .sqrt, a => .call "sqrt".toList a
  | .exp, a => .call "exp".toList a
  | .ln, a => .call "log".toList a
  | .sin, a => .call "sin".toList a
  | .cos, a => .call "cos".toList a
  | .tanh, a => .call "tanh".toList a
  | .floor, a => .call "floor".toList a

/-- What a comparison reads as, whose value is one or zero. -/
def comparisonTerm (op : Operator) (a b : Term) : Term :=
  .choice (.binary op a b) (.decimal "1.0".toList) (.decimal "0.0".toList)

/-- What a function of two values reads as. -/
def binaryTerm : BinaryOp → Term → Term → Term
  | .add, a, b => .binary .plus a b
  | .sub, a, b => .binary .minus a b
  | .mul, a, b => .binary .times a b
  | .div, a, b => .binary .dividedBy a b
  | .pow, a, b => .callTwo "pow".toList a b
  | .min, a, b => .callTwo "fmin".toList a b
  | .max, a, b => .callTwo "fmax".toList a b
  | .lt, a, b => comparisonTerm .below a b
  | .le, a, b => comparisonTerm .atMost a b
  | .gt, a, b => comparisonTerm .above a b
  | .ge, a, b => comparisonTerm .atLeast a b
  | .eq, a, b => comparisonTerm .equal a b

section Values

variable {text other third : List Char} {a b c : Term}

theorem operandText_unary (op : UnaryOp) (h : OperandText text a) :
    OperandText (unaryOpening op ++ (text ++ [')'])) (unaryTerm op a) := by
  have hcall : ∀ function, IsWord function →
      OperandText (function ++ '(' :: (text ++ [')'])) (.call function a) :=
    fun function hword => .call hword h.term
  cases op with
  | neg => exact .parens (LevelText.negated h)
  | abs => exact hcall "fabs".toList (by decide)
  | sqrt => exact hcall "sqrt".toList (by decide)
  | exp => exact hcall "exp".toList (by decide)
  | ln => exact hcall "log".toList (by decide)
  | sin => exact hcall "sin".toList (by decide)
  | cos => exact hcall "cos".toList (by decide)
  | tanh => exact hcall "tanh".toList (by decide)
  | floor => exact hcall "floor".toList (by decide)

/-- The operands between the pieces of a frame. -/
def BinaryFrame.around (frame : BinaryFrame) (text other : List Char) : List Char :=
  frame.opening ++ (text ++ (frame.middle ++ (other ++ frame.closing)))

theorem operandText_operator (op : Operator) {sign : String} (hsign : sign.toList = op.mark)
    (ha : OperandText text a) (hb : OperandText other b) :
    OperandText ((BinaryFrame.ofOperator sign).around text other) (.binary op a b) := by
  have hparens := OperandText.parens (LevelText.binary op ha hb).term
  rw [BinaryFrame.around, BinaryFrame.ofOperator, hsign]
  simpa only [List.append_assoc, List.cons_append, List.nil_append] using hparens

theorem operandText_comparison (op : Operator) {sign : String} (hsign : sign.toList = op.mark)
    (ha : OperandText text a) (hb : OperandText other b) :
    OperandText ((BinaryFrame.ofComparison sign).around text other) (comparisonTerm op a b) := by
  have hparens := OperandText.parens (LevelText.choice (LevelText.binary op ha hb)
    isDecimal_one.operandText.term isDecimal_zero.operandText.term)
  have hclosing : " ? 1.0 : 0.0)".toList =
      " ? ".toList ++ ("1.0".toList ++ (" : ".toList ++ ("0.0".toList ++ [')']))) := by decide
  rw [BinaryFrame.around, BinaryFrame.ofComparison, hsign, hclosing, comparisonTerm]
  simpa only [List.append_assoc, List.cons_append, List.nil_append] using hparens

theorem operandText_function {function : String} (hword : IsWord function.toList)
    (ha : OperandText text a) (hb : OperandText other b) :
    OperandText ((BinaryFrame.ofFunction function).around text other)
      (.callTwo function.toList a b) := by
  have hcall := OperandText.callTwo hword ha.term hb.term
  rw [BinaryFrame.around, BinaryFrame.ofFunction]
  simpa only [List.append_assoc, List.cons_append, List.nil_append] using hcall

theorem operandText_binary (op : BinaryOp) (ha : OperandText text a) (hb : OperandText other b) :
    OperandText ((BinaryFrame.ofOp op).around text other) (binaryTerm op a b) := by
  cases op with
  | add => exact operandText_operator .plus rfl ha hb
  | sub => exact operandText_operator .minus rfl ha hb
  | mul => exact operandText_operator .times rfl ha hb
  | div => exact operandText_operator .dividedBy rfl ha hb
  | pow => exact operandText_function (by decide) ha hb
  | min => exact operandText_function (by decide) ha hb
  | max => exact operandText_function (by decide) ha hb
  | lt => exact operandText_comparison .below rfl ha hb
  | le => exact operandText_comparison .atMost rfl ha hb
  | gt => exact operandText_comparison .above rfl ha hb
  | ge => exact operandText_comparison .atLeast rfl ha hb
  | eq => exact operandText_comparison .equal rfl ha hb

/-- What a choice between two values reads as. -/
def selectTerm (c a b : Term) : Term :=
  .choice (.binary .unequal c (.decimal "0.0".toList)) a b

theorem operandText_select (hc : OperandText text c) (ha : OperandText other a)
    (hb : OperandText third b) :
    OperandText
      ('(' :: (text ++ (" != 0.0 ? ".toList ++ (other ++ (" : ".toList ++ (third ++ [')']))))))
      (selectTerm c a b) := by
  have hparens := OperandText.parens (LevelText.choice
    (LevelText.binary .unequal hc isDecimal_zero.operandText) ha.term hb.term)
  have hmiddle : " != 0.0 ? ".toList =
      ' ' :: (Operator.unequal.mark ++ ' ' :: ("0.0".toList ++ " ? ".toList)) := by decide
  rw [hmiddle, selectTerm]
  simpa only [List.append_assoc, List.cons_append, List.nil_append] using hparens

end Values

namespace Value

/-- What the text of a value reads as. -/
def term : Value → Term
  | literal x => literalTerm x
  | var name => .name name.spell
  | unary op a => unaryTerm op a.term
  | binary op a b => binaryTerm op a.term b.term
  | select c t o => selectTerm c.term t.term o.term
  | element array position => .item array.spell position.term

/-- The numbers in the positions are words. -/
def Fits : Value → Prop
  | literal _ | var _ => True
  | unary _ a => a.Fits
  | binary _ a b => a.Fits ∧ b.Fits
  | select c t o => c.Fits ∧ t.Fits ∧ o.Fits
  | element _ position => position.Fits

/-- **Values read as the terms that they stand for.** -/
theorem operandText (value : Value) (h : value.Fits) : OperandText value.spell value.term := by
  rw [spell]
  induction value with
  | literal x =>
    rw [spellBefore, List.append_nil]
    exact operandText_literal x
  | var name =>
    rw [spellBefore, List.append_nil]
    exact name.operandText
  | unary op a ih =>
    rw [spellBefore, spellBefore_eq]
    exact operandText_unary op (ih h)
  | binary op a b iha ihb =>
    simp only [spellBefore, spellBefore_eq, List.append_nil]
    exact operandText_binary op (iha h.1) (ihb h.2)
  | select c t o ihc iht iho =>
    simp only [spellBefore, spellBefore_eq]
    exact operandText_select (ihc h.1) (iht h.2.1) (iho h.2.2)
  | element array position =>
    rw [spellBefore, List.append_assoc, List.cons_append]
    exact .item array.isWord (position.termText h)

end Value

end Device

end ArrayKernels
