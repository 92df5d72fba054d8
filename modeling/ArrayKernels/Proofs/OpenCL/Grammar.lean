import ArrayKernels.Proofs.OpenCL.Reader

/-!
# Texts that read as expressions

How the text of an expression is composed of the texts of its parts. For each construct there is one
rule, which has both sides of reading in it: into which tokens the text falls, whatever stands behind
it, and what the reader makes of these tokens, if it may go deep enough.

## Layers

- **Texts**: tokens of pieces of text, one after the other.
- **Tokens**: what the readers make of pieces of a token sequence.
- **Expressions**: texts that read as operands, as chains of operators and as expressions.

## Main results

- `OperandText.parens`, `OperandText.item`, `OperandText.call`, `OperandText.negated`: operands.
- `LevelText.binary`, `LevelText.sum`: operators between operands.
- `TermText.choice`: choices.
-/

namespace ArrayKernels.OpenCL

/-! ## Texts -/

/-- Characters that no token but a directive goes on with. -/
def closers : List Char := [' ', '\n', '(', ')', '[', ']', '\x7b', '\x7d', ',', ';']

/-- The characters with which a punctuator can go on. -/
def seconds : List Char := pairs.filterMap List.getLast?

theorem not_pair_of_second {c d : Char} (h : d ∉ seconds) : [c, d] ∉ pairs :=
  fun hpair => h (List.mem_filterMap.mpr ⟨[c, d], hpair, rfl⟩)

theorem not_pair_of_first {c d : Char} (h : c ∉ pairs.filterMap List.head?) : [c, d] ∉ pairs :=
  fun hpair => h (List.mem_filterMap.mpr ⟨[c, d], hpair, rfl⟩)

/-- What follows in the text is no part of the token before it. -/
def Closes (rest : List Char) : Prop := ∀ c ∈ rest.head?, c ∈ closers

theorem Closes.cons {c : Char} (h : c ∈ closers) (rest : List Char) : Closes (c :: rest) := by
  intro d hd
  rwa [← Option.some.inj hd]

theorem Closes.append {text rest : List Char} (htext : Closes text) (hrest : Closes rest) :
    Closes (text ++ rest) := by
  cases text with
  | nil => exact hrest
  | cons c text => exact htext

section Closes

variable {rest : List Char}

theorem Closes.ends_word (h : Closes rest) (text : List Char) : Ends (.word text) rest := by
  have hclosers : ∀ c ∈ closers, isWordChar c = false :=
    List.forall_iff_forall_mem.mp (by decide)
  intro c hc
  rw [Scan.continue?, hclosers c (h c hc)]
  rfl

theorem Closes.ends_number (h : Closes rest) (text : List Char) : Ends (.number text) rest := by
  have hclosers : ∀ c ∈ closers, isWordChar c = false ∧ (c == '.') = false ∧
      (c == '+' || c == '-') = false := List.forall_iff_forall_mem.mp (by decide)
  intro c hc
  obtain ⟨hword, hpoint, hsign⟩ := hclosers c (h c hc)
  rw [Scan.continue?, continuesNumber, hword, hpoint, hsign]
  rfl

theorem Closes.ends_mark (h : Closes rest) (mark : Char) : Ends (.mark mark) rest := by
  have hclosers : ∀ c ∈ closers, c ∉ seconds := List.forall_iff_forall_mem.mp (by decide)
  intro c hc
  exact if_neg (not_pair_of_second (hclosers c (h c hc)))

end Closes

/-- The text falls into the tokens, if what follows is no part of the last one. -/
def Lexes (text : List Char) (ts : List Token) : Prop :=
  ∀ rest more, Closes rest → tokens rest = some more → tokens (text ++ rest) = some (ts ++ more)

namespace Lexes

variable {text after : List Char} {ts us : List Token} {c d : Char}

theorem nil : Lexes [] [] := fun _ _ _ hmore => hmore

theorem append (htext : Lexes text ts) (hafter : Lexes after us) (hcloses : Closes after) :
    Lexes (text ++ after) (ts ++ us) := by
  intro rest more hrest hmore
  rw [List.append_assoc, List.append_assoc]
  exact htext _ _ (hcloses.append hrest) (hafter rest more hrest hmore)

theorem word (h : IsWord text) : Lexes text [.word text] :=
  fun _ _ hrest hmore => tokens_word h (hrest.ends_word text) hmore

theorem number (hc : c.isDigit = true) (h : ContinueNumber [c] text) :
    Lexes (c :: text) [.number (c :: text)] :=
  fun _ _ hrest hmore => tokens_number hc h (hrest.ends_number (c :: text)) hmore

theorem blank (h : Lexes text ts) : Lexes (' ' :: text) ts :=
  fun rest more hrest hmore => tokens_blank rfl (h rest more hrest hmore)

/-- A punctuator with which the text does not go on. -/
theorem mark (hc : Scan.start? c = some (.mark c)) (hpair : ∀ d ∈ text.head?, [c, d] ∉ pairs)
    (h : Lexes text ts) : Lexes (c :: text) (.mark [c] :: ts) := by
  intro rest more hrest hmore
  refine tokens_mark hc ?_ (h rest more hrest hmore)
  cases text with
  | nil => exact hrest.ends_mark c
  | cons d text => exact .cons (if_neg (hpair d rfl))

/-- A punctuator that is never the first part of a longer one. -/
theorem bracket (hc : Scan.start? c = some (.mark c)) (hfirst : c ∉ pairs.filterMap List.head?)
    (h : Lexes text ts) : Lexes (c :: text) (.mark [c] :: ts) :=
  h.mark hc fun _ _ => not_pair_of_first hfirst

theorem pair (hc : Scan.start? c = some (.mark c)) (hpair : [c, d] ∈ pairs) (h : Lexes text ts) :
    Lexes (c :: d :: text) (.mark [c, d] :: ts) :=
  fun rest more hrest hmore => tokens_pair hc hpair (h rest more hrest hmore)

/-- An operator with blanks on both sides. -/
theorem operator (op : Operator) (h : Lexes text ts) :
    Lexes (' ' :: op.mark ++ ' ' :: text) (.mark op.mark :: ts) := by
  have hblank : ∀ {c : Char}, ∀ d ∈ (' ' :: text).head?, [c, d] ∉ pairs := by
    intro c d hd
    rw [← Option.some.inj hd]
    exact not_pair_of_second (by decide)
  cases op with
  | times => exact (h.blank.mark rfl hblank).blank
  | dividedBy => exact (h.blank.mark rfl hblank).blank
  | modulo => exact (h.blank.mark rfl hblank).blank
  | plus => exact (h.blank.mark rfl hblank).blank
  | minus => exact (h.blank.mark rfl hblank).blank
  | below => exact (h.blank.mark rfl hblank).blank
  | above => exact (h.blank.mark rfl hblank).blank
  | atMost => exact (h.blank.pair rfl (by decide)).blank
  | atLeast => exact (h.blank.pair rfl (by decide)).blank
  | equal => exact (h.blank.pair rfl (by decide)).blank
  | unequal => exact (h.blank.pair rfl (by decide)).blank

end Lexes

/-! ## Tokens -/

/-- What follows does not turn a word into a call or an item. -/
def AfterOperand (rest : List Token) : Prop :=
  ∀ t ∈ rest.head?, t ≠ .mark ['('] ∧ t ≠ .mark ['[']

/-- What follows is no operator, and does not turn a word into a call or an item. -/
def AfterLevel (rest : List Token) : Prop := AfterOperand rest ∧ Operator.read? rest = none

/-- What follows does not go on with an expression. -/
def AfterTerm (rest : List Token) : Prop := AfterLevel rest ∧ ∀ t ∈ rest.head?, t ≠ .mark ['?']

/-- The tokens are an operand. The reader spends at most four steps on each of them. -/
def ReadsOperand (ts : List Token) (term : Term) : Prop :=
  ∀ depth rest, 4 * ts.length ≤ depth → AfterOperand rest →
    readOperand depth (ts ++ rest) = some (term, rest)

/-- The tokens are operands with operators between them. -/
def ReadsLevel (ts : List Token) (term : Term) : Prop :=
  ∀ depth rest, 4 * ts.length + 2 ≤ depth → AfterLevel rest →
    readLevel depth 0 (ts ++ rest) = some (term, rest)

/-- The tokens are an expression. -/
def ReadsTerm (ts : List Token) (term : Term) : Prop :=
  ∀ depth rest, 4 * ts.length + 3 ≤ depth → AfterTerm rest →
    readTerm depth (ts ++ rest) = some (term, rest)

section Tokens

variable {ts us : List Token} {a b c : Term}

theorem expect_append (expected found : List Token) :
    expect expected (expected ++ found) = some found := by
  induction expected with
  | nil => rfl
  | cons token expected ih => rwa [List.cons_append, expect, if_pos rfl]

theorem Operator.read?_mark (op : Operator) (rest : List Token) :
    read? (.mark op.mark :: rest) = some (op, rest) := by
  cases op <;> rfl

/-- An operand ends where no operator follows that binds as tightly as the level asks. -/
theorem readChain_stop {depth level : Nat} {rest : List Token} (hdepth : 0 < depth)
    (hrest : ∀ op more, Operator.read? rest = some (op, more) → op.level < level) :
    readChain depth level a rest = some (a, rest) := by
  obtain ⟨depth, rfl⟩ := Nat.exists_eq_succ_of_ne_zero (Nat.ne_of_gt hdepth)
  rw [readChain]
  cases hop : Operator.read? rest with
  | none => rfl
  | some found =>
    obtain ⟨op, more⟩ := found
    exact if_neg (Nat.not_le.mpr (hrest op more hop))

theorem readLevel_operand {depth level : Nat} {found rest : List Token}
    (h : readOperand depth found = some (a, rest)) :
    readLevel (depth + 1) level found = readChain depth level a rest := by
  rw [readLevel, h]
  rfl

/-- An operator that binds tightly enough takes the next operand. -/
theorem readChain_operator {depth level : Nat} {op : Operator} {found rest : List Token}
    (hlevel : level ≤ op.level) (hrhs : readLevel depth (op.level + 1) found = some (b, rest)) :
    readChain (depth + 1) level a (.mark op.mark :: found) =
      readChain depth level (.binary op a b) rest := by
  rw [readChain, Operator.read?_mark]
  simp only [if_pos hlevel, hrhs, Option.bind_eq_bind, Option.bind_some]

theorem ReadsOperand.readLevel_stop (h : ReadsOperand ts a) {depth level : Nat} {rest : List Token}
    (hdepth : 4 * ts.length + 2 ≤ depth) (hafter : AfterOperand rest)
    (hrest : ∀ op more, Operator.read? rest = some (op, more) → op.level < level) :
    readLevel depth level (ts ++ rest) = some (a, rest) := by
  obtain ⟨depth, rfl⟩ := Nat.exists_eq_add_of_le' (show 1 ≤ depth by omega)
  rw [readLevel_operand (h depth rest (by omega) hafter)]
  exact readChain_stop (by omega) hrest

theorem ReadsOperand.level (h : ReadsOperand ts a) : ReadsLevel ts a := by
  intro depth rest hdepth hafter
  refine h.readLevel_stop hdepth hafter.1 fun op more hop => ?_
  rw [hafter.2] at hop
  cases hop

theorem ReadsLevel.term (h : ReadsLevel ts a) : ReadsTerm ts a := by
  intro depth rest hdepth hafter
  obtain ⟨depth, rfl⟩ := Nat.exists_eq_add_of_le' (show 1 ≤ depth by omega)
  rw [readTerm, h depth rest (by omega) hafter.1]
  cases rest with
  | nil => rfl
  | cons t rest =>
    -- the next token is no question mark, so this is all
    have hnext := hafter.2 t rfl
    simp only [Option.bind_eq_bind, Option.bind_some]
    split
    · next heq => cases heq; exact absurd rfl hnext
    · rfl

theorem afterOperand_operator (op : Operator) (rest : List Token) :
    AfterOperand (.mark op.mark :: rest) := by
  intro t ht
  rw [← Option.some.inj ht]
  cases op <;> decide

/-- The punctuators that end an expression. -/
theorem afterTerm_mark {c : Char} (hc : c ∈ [')', ']', ',', ';', ':']) (rest : List Token) :
    AfterTerm (.mark [c] :: rest) := by
  have hends : ∀ c ∈ [')', ']', ',', ';', ':'],
      (Operator.all.find? (·.mark = [c])).isNone = true ∧
        c ≠ '(' ∧ c ≠ '[' ∧ c ≠ '?' := List.forall_iff_forall_mem.mp (by decide)
  -- none of them is an operator, and none of them continues an operand
  obtain ⟨hop, hparen, hbracket, hquestion⟩ := hends c hc
  have hop : Operator.all.find? (·.mark = [c]) = none := Option.isNone_iff_eq_none.mp hop
  refine ⟨⟨fun t ht => ?_, ?_⟩, fun t ht => ?_⟩
  · rw [← Option.some.inj ht]
    simp [hparen, hbracket]
  · rw [Operator.read?, hop]
    rfl
  · rw [← Option.some.inj ht]
    simp [hquestion]

theorem afterLevel_question (rest : List Token) : AfterLevel (.mark ['?'] :: rest) := by
  refine ⟨fun t ht => ?_, rfl⟩
  rw [← Option.some.inj ht]
  decide

namespace ReadsOperand

theorem parens (h : ReadsTerm ts a) :
    ReadsOperand (.mark ['('] :: (ts ++ [.mark [')']])) a := by
  intro depth rest hdepth _
  rw [List.length_cons, List.length_append, List.length_singleton] at hdepth
  obtain ⟨depth, rfl⟩ := Nat.exists_eq_add_of_le' (show 1 ≤ depth by omega)
  have hterm := h depth (.mark [')'] :: rest) (by omega) (afterTerm_mark (by decide) rest)
  rw [List.cons_append, List.append_assoc, List.singleton_append, readOperand, hterm]
  rfl

theorem item (array : List Char) (h : ReadsTerm ts a) :
    ReadsOperand (.word array :: .mark ['['] :: (ts ++ [.mark [']']])) (.item array a) := by
  intro depth rest hdepth _
  rw [List.length_cons, List.length_cons, List.length_append, List.length_singleton] at hdepth
  obtain ⟨depth, rfl⟩ := Nat.exists_eq_add_of_le' (show 1 ≤ depth by omega)
  have hterm := h depth (.mark [']'] :: rest) (by omega) (afterTerm_mark (by decide) rest)
  rw [List.cons_append, List.cons_append, List.append_assoc, List.singleton_append, readOperand,
    hterm]
  rfl

theorem call (function : List Char) (h : ReadsTerm ts a) :
    ReadsOperand (.word function :: .mark ['('] :: (ts ++ [.mark [')']])) (.call function a) := by
  intro depth rest hdepth _
  rw [List.length_cons, List.length_cons, List.length_append, List.length_singleton] at hdepth
  obtain ⟨depth, rfl⟩ := Nat.exists_eq_add_of_le' (show 1 ≤ depth by omega)
  have hterm := h depth (.mark [')'] :: rest) (by omega) (afterTerm_mark (by decide) rest)
  rw [List.cons_append, List.cons_append, List.append_assoc, List.singleton_append, readOperand,
    hterm]
  rfl

theorem callTwo (function : List Char) (ha : ReadsTerm ts a) (hb : ReadsTerm us b) :
    ReadsOperand (.word function :: .mark ['('] :: (ts ++ .mark [','] :: (us ++ [.mark [')']])))
      (.callTwo function a b) := by
  intro depth rest hdepth _
  simp only [List.length_cons, List.length_append, List.length_nil] at hdepth
  obtain ⟨depth, rfl⟩ := Nat.exists_eq_add_of_le' (show 1 ≤ depth by omega)
  have hfirst := ha depth (.mark [','] :: (us ++ .mark [')'] :: rest)) (by omega)
    (afterTerm_mark (by decide) _)
  have hsecond := hb depth (.mark [')'] :: rest) (by omega) (afterTerm_mark (by decide) rest)
  simp only [List.cons_append, List.append_assoc, List.nil_append, readOperand, hfirst,
    Option.bind_eq_bind, Option.bind_some, hsecond]
  rfl

theorem constant {text : List Char} (h : readConstant text = some a) :
    ReadsOperand [.number text] a := by
  intro depth rest hdepth _
  obtain ⟨depth, rfl⟩ := Nat.exists_eq_add_of_le' (show 1 ≤ depth by
    rw [List.length_singleton] at hdepth; omega)
  rw [List.singleton_append, readOperand, h]
  rfl

theorem word (text : List Char) : ReadsOperand [.word text] (readWord text) := by
  intro depth rest hdepth hafter
  obtain ⟨depth, rfl⟩ := Nat.exists_eq_add_of_le' (show 1 ≤ depth by
    rw [List.length_singleton] at hdepth; omega)
  rw [List.singleton_append]
  cases rest with
  | nil => rw [readOperand.eq_def]
  | cons t rest =>
    -- no bracket follows
    obtain ⟨hparen, hbracket⟩ := hafter t rfl
    rw [readOperand.eq_def]
    simp only
    split <;> simp_all

theorem negated (h : ReadsOperand ts a) : ReadsOperand (.mark ['-'] :: ts) (.negated a) := by
  intro depth rest hdepth hafter
  rw [List.length_cons] at hdepth
  obtain ⟨depth, rfl⟩ := Nat.exists_eq_add_of_le' (show 1 ≤ depth by omega)
  rw [List.cons_append, readOperand, h depth rest (by omega) hafter]
  rfl

end ReadsOperand

/-- An operand, an operator and an operand. -/
theorem ReadsOperand.binary (op : Operator) (ha : ReadsOperand ts a) (hb : ReadsOperand us b) :
    ReadsLevel (ts ++ .mark op.mark :: us) (.binary op a b) := by
  intro depth rest hdepth hafter
  rw [List.length_append, List.length_cons] at hdepth
  obtain ⟨depth, rfl⟩ := Nat.exists_eq_add_of_le' (show 3 ≤ depth by omega)
  have hfirst := ha (depth + 2) (.mark op.mark :: (us ++ rest)) (by omega)
    (afterOperand_operator op _)
  -- what follows is no operator, so the right operand ends there, and so does the chain
  have hsecond : readLevel (depth + 1) (op.level + 1) (us ++ rest) = some (b, rest) := by
    refine hb.readLevel_stop (by omega) hafter.1 fun op more hop => ?_
    rw [hafter.2] at hop
    cases hop
  have hstop : readChain (depth + 1) 0 (.binary op a b) rest = some (.binary op a b, rest) := by
    refine readChain_stop (by omega) fun op more hop => ?_
    rw [hafter.2] at hop
    cases hop
  rw [List.append_assoc, List.cons_append, readLevel_operand hfirst,
    readChain_operator (Nat.zero_le _) hsecond, hstop]

/-- Products that are added to what stands before them, as a function of that. -/
structure ReadsSum (ts : List Token) (add : Term → Term) : Prop where
  reads : ∀ depth rest lhs, 4 * ts.length + 1 ≤ depth → AfterLevel rest →
    readChain depth 0 lhs (ts ++ rest) = some (add lhs, rest)
  /-- No operator comes first that binds more tightly than a sum. -/
  first : ∀ rest, AfterLevel rest → AfterOperand (ts ++ rest) ∧
    ∀ op more, Operator.read? (ts ++ rest) = some (op, more) → op.level < 3

theorem ReadsSum.nil : ReadsSum [] id where
  reads depth rest lhs hdepth hafter := by
    refine readChain_stop (by omega) fun op more hop => ?_
    rw [List.nil_append, hafter.2] at hop
    cases hop
  first rest hafter := by
    refine ⟨hafter.1, fun op more hop => ?_⟩
    rw [List.nil_append, hafter.2] at hop
    cases hop

theorem ReadsSum.cons {vs : List Token} {add : Term → Term} (ha : ReadsOperand ts a)
    (hb : ReadsOperand us b) (h : ReadsSum vs add) :
    ReadsSum (.mark Operator.plus.mark :: (ts ++ .mark Operator.times.mark :: (us ++ vs)))
      (fun lhs => add (.binary .plus lhs (.binary .times a b))) where
  reads depth rest lhs hdepth hafter := by
    simp only [List.length_cons, List.length_append] at hdepth
    obtain ⟨depth, rfl⟩ := Nat.exists_eq_add_of_le' (show 5 ≤ depth by omega)
    obtain ⟨hoperand, hlevel⟩ := h.first rest hafter
    have hfirst := ha (depth + 3) (.mark Operator.times.mark :: (us ++ (vs ++ rest))) (by omega)
      (afterOperand_operator .times _)
    -- the second factor ends before the next sum, and so does the product
    have hsecond : readLevel (depth + 2) (Operator.times.level + 1) (us ++ (vs ++ rest)) =
        some (b, vs ++ rest) :=
      hb.readLevel_stop (by omega) hoperand fun op more hop =>
        Nat.lt_succ_of_lt (hlevel op more hop)
    have hstop : readChain (depth + 2) (Operator.plus.level + 1) (.binary .times a b) (vs ++ rest) =
        some (.binary .times a b, vs ++ rest) :=
      readChain_stop (by omega) hlevel
    have hproduct : readLevel (depth + 4) (Operator.plus.level + 1)
        (ts ++ .mark Operator.times.mark :: (us ++ (vs ++ rest))) =
          some (.binary .times a b, vs ++ rest) := by
      have hlevel : Operator.plus.level + 1 ≤ Operator.times.level := by decide
      rw [readLevel_operand hfirst, readChain_operator hlevel hsecond, hstop]
    have hrest := h.reads (depth + 4) rest (.binary .plus lhs (.binary .times a b)) (by omega) hafter
    simp only [List.cons_append, List.append_assoc]
    rw [readChain_operator (Nat.zero_le _) hproduct, hrest]
  first rest hafter := by
    refine ⟨afterOperand_operator .plus _, fun op more hop => ?_⟩
    rw [List.cons_append, Operator.read?_mark] at hop
    cases hop
    decide

theorem ReadsOperand.sum {add : Term → Term} (ha : ReadsOperand ts a) (h : ReadsSum us add) :
    ReadsLevel (ts ++ us) (add a) := by
  intro depth rest hdepth hafter
  rw [List.length_append] at hdepth
  obtain ⟨depth, rfl⟩ := Nat.exists_eq_add_of_le' (show 1 ≤ depth by omega)
  rw [List.append_assoc, readLevel_operand (ha depth _ (by omega) (h.first rest hafter).1)]
  exact h.reads depth rest a (by omega) hafter

theorem ReadsLevel.choice {vs : List Token} (hc : ReadsLevel ts c) (ha : ReadsTerm us a)
    (hb : ReadsTerm vs b) :
    ReadsTerm (ts ++ .mark ['?'] :: (us ++ .mark [':'] :: vs)) (.choice c a b) := by
  intro depth rest hdepth hafter
  simp only [List.length_append, List.length_cons] at hdepth
  obtain ⟨depth, rfl⟩ := Nat.exists_eq_add_of_le' (show 1 ≤ depth by omega)
  have hcond := hc depth (.mark ['?'] :: (us ++ .mark [':'] :: (vs ++ rest))) (by omega)
    (afterLevel_question _)
  have hchosen := ha depth (.mark [':'] :: (vs ++ rest)) (by omega) (afterTerm_mark (by decide) _)
  have hotherwise := hb depth rest (by omega) hafter
  have hcolon : expect [.mark [':']] (.mark [':'] :: (vs ++ rest)) = some (vs ++ rest) := rfl
  simp only [List.append_assoc, List.cons_append, readTerm, hcond, hchosen, hcolon, hotherwise,
    Option.bind_eq_bind, Option.bind_some]
  rfl

end Tokens

/-! ## Expressions -/

/-- The text is an operand. A sign in front of it makes no other punctuator of its beginning. -/
structure OperandText (text : List Char) (term : Term) : Prop where
  start : ∀ d ∈ text.head?, d ∉ seconds
  reads : ∃ ts, Lexes text ts ∧ ReadsOperand ts term

/-- The text consists of operands and operators. -/
def LevelText (text : List Char) (term : Term) : Prop := ∃ ts, Lexes text ts ∧ ReadsLevel ts term

/-- The text is an expression. -/
def TermText (text : List Char) (term : Term) : Prop := ∃ ts, Lexes text ts ∧ ReadsTerm ts term

/-- The text adds products to what stands before it. -/
def SumText (text : List Char) (add : Term → Term) : Prop :=
  Closes text ∧ ∃ ts, Lexes text ts ∧ ReadsSum ts add

section Expressions

variable {text other third function array : List Char} {a b c : Term}

theorem OperandText.level (h : OperandText text a) : LevelText text a := by
  obtain ⟨ts, hlexes, hreads⟩ := h.reads
  exact ⟨ts, hlexes, hreads.level⟩

theorem LevelText.term (h : LevelText text a) : TermText text a := by
  obtain ⟨ts, hlexes, hreads⟩ := h
  exact ⟨ts, hlexes, hreads.term⟩

theorem OperandText.term (h : OperandText text a) : TermText text a := h.level.term

namespace IsWord

theorem start_not_second (h : IsWord text) : ∀ d ∈ text.head?, d ∉ seconds := by
  have hseconds : ∀ d ∈ seconds, Scan.start? d = some (.mark d) :=
    List.forall_iff_forall_mem.mp (by decide)
  obtain ⟨⟨c, hc, hstart⟩, -⟩ := h
  intro d hd hmem
  obtain rfl : c = d := Option.some.inj (hc.symm.trans hd)
  rw [hseconds c hmem] at hstart
  cases hstart

theorem start_append (h : IsWord text) (rest : List Char) :
    ∀ d ∈ (text ++ rest).head?, d ∉ seconds := by
  cases text with
  | nil =>
    obtain ⟨⟨c, hc, -⟩, -⟩ := h
    cases hc
  | cons c text => exact h.start_not_second

theorem operand (h : IsWord text) : OperandText text (readWord text) :=
  ⟨h.start_not_second, _, .word h, .word text⟩

end IsWord

namespace OperandText

/-- A constant begins with a digit. -/
theorem constant {first : Char} (hfirst : first.isDigit = true) (h : ContinueNumber [first] text)
    (hread : readConstant (first :: text) = some a) : OperandText (first :: text) a := by
  have hseconds : ∀ d ∈ seconds, d.isDigit = false := List.forall_iff_forall_mem.mp (by decide)
  refine ⟨fun d hd hmem => ?_, _, .number hfirst h, .constant hread⟩
  obtain rfl : first = d := Option.some.inj hd
  rw [hseconds first hmem] at hfirst
  cases hfirst

theorem parens (h : TermText text a) : OperandText ('(' :: (text ++ [')'])) a := by
  obtain ⟨ts, hlexes, hreads⟩ := h
  refine ⟨fun d hd => ?_, _, ?_, ReadsOperand.parens hreads⟩
  · rw [← Option.some.inj hd]
    decide
  · have hclosing : Lexes [')'] [.mark [')']] := Lexes.nil.bracket rfl (by decide)
    exact (hlexes.append hclosing (.cons (by decide) [])).bracket rfl (by decide)

theorem item (harray : IsWord array) (h : TermText text a) :
    OperandText (array ++ '[' :: (text ++ [']'])) (.item array a) := by
  obtain ⟨ts, hlexes, hreads⟩ := h
  refine ⟨harray.start_append _, _, ?_, ReadsOperand.item array hreads⟩
  · have hclosing : Lexes [']'] [.mark [']']] := Lexes.nil.bracket rfl (by decide)
    have hinside := (hlexes.append hclosing (.cons (by decide) [])).bracket (c := '[') rfl (by decide)
    exact (Lexes.word harray).append hinside (.cons (by decide) _)

theorem call (hfunction : IsWord function) (h : TermText text a) :
    OperandText (function ++ '(' :: (text ++ [')'])) (.call function a) := by
  obtain ⟨ts, hlexes, hreads⟩ := h
  refine ⟨hfunction.start_append _, _, ?_, ReadsOperand.call function hreads⟩
  · have hclosing : Lexes [')'] [.mark [')']] := Lexes.nil.bracket rfl (by decide)
    have hinside := (hlexes.append hclosing (.cons (by decide) [])).bracket (c := '(') rfl (by decide)
    exact (Lexes.word hfunction).append hinside (.cons (by decide) _)

theorem callTwo (hfunction : IsWord function) (ha : TermText text a) (hb : TermText other b) :
    OperandText (function ++ '(' :: (text ++ ',' :: ' ' :: (other ++ [')'])))
      (.callTwo function a b) := by
  obtain ⟨ts, hlexes, hreads⟩ := ha
  obtain ⟨us, hlexes', hreads'⟩ := hb
  refine ⟨hfunction.start_append _, _, ?_, ReadsOperand.callTwo function hreads hreads'⟩
  · have hclosing : Lexes [')'] [.mark [')']] := Lexes.nil.bracket rfl (by decide)
    have hsecond := (hlexes'.append hclosing (.cons (by decide) [])).blank.bracket (c := ',') rfl
      (by decide)
    have hinside := (hlexes.append hsecond (.cons (by decide) _)).bracket (c := '(') rfl (by decide)
    exact (Lexes.word hfunction).append hinside (.cons (by decide) _)

end OperandText

theorem LevelText.negated (h : OperandText text a) : TermText ('-' :: text) (.negated a) := by
  obtain ⟨ts, hlexes, hreads⟩ := h.reads
  exact ⟨_, hlexes.mark rfl fun d hd => not_pair_of_second (h.start d hd), hreads.negated.level.term⟩

theorem LevelText.binary (op : Operator) (ha : OperandText text a) (hb : OperandText other b) :
    LevelText (text ++ (' ' :: op.mark ++ ' ' :: other)) (.binary op a b) := by
  obtain ⟨ts, hlexes, hreads⟩ := ha.reads
  obtain ⟨us, hlexes', hreads'⟩ := hb.reads
  exact ⟨_, hlexes.append (hlexes'.operator op) (.cons (by decide) _), hreads.binary op hreads'⟩

theorem LevelText.choice (hc : LevelText text c) (ha : TermText other a) (hb : TermText third b) :
    TermText (text ++ " ? ".toList ++ other ++ " : ".toList ++ third) (.choice c a b) := by
  obtain ⟨ts, hlexes, hreads⟩ := hc
  obtain ⟨us, hlexes', hreads'⟩ := ha
  obtain ⟨vs, hlexes'', hreads''⟩ := hb
  -- from the last operand to the first, since a token depends on what follows it
  have hthird : Lexes (" : ".toList ++ third) (.mark [':'] :: vs) :=
    (hlexes''.blank.mark rfl fun d hd => by
      rw [← Option.some.inj hd]
      exact not_pair_of_second (by decide)).blank
  have hother := hlexes'.append hthird (.cons (by decide) _)
  have hsecond : Lexes (" ? ".toList ++ (other ++ (" : ".toList ++ third)))
      (.mark ['?'] :: (us ++ .mark [':'] :: vs)) :=
    (hother.blank.bracket rfl (by decide)).blank
  refine ⟨_, ?_, hreads.choice hreads' hreads''⟩
  simp only [List.append_assoc]
  exact hlexes.append hsecond (.cons (by decide) _)

theorem SumText.nil : SumText [] id := by
  refine ⟨?_, [], .nil, .nil⟩
  intro c hc
  cases hc

theorem SumText.cons {add : Term → Term} (ha : OperandText text a) (hb : OperandText other b)
    (h : SumText third add) :
    SumText (" + ".toList ++ text ++ " * ".toList ++ other ++ third)
      (fun lhs => add (.binary .plus lhs (.binary .times a b))) := by
  obtain ⟨ts, hlexes, hreads⟩ := ha.reads
  obtain ⟨us, hlexes', hreads'⟩ := hb.reads
  obtain ⟨hcloses, vs, hlexes'', hreads''⟩ := h
  have hproduct := (hlexes'.append hlexes'' hcloses).operator .times
  have hsum := (hlexes.append hproduct (.cons (by decide) _)).operator .plus
  refine ⟨.cons (by decide) _, _, ?_, .cons hreads hreads' hreads''⟩
  simp only [List.append_assoc]
  exact hsum

theorem OperandText.sum {add : Term → Term} (ha : OperandText text a) (h : SumText other add) :
    LevelText (text ++ other) (add a) := by
  obtain ⟨ts, hlexes, hreads⟩ := ha.reads
  obtain ⟨hcloses, us, hlexes', hreads'⟩ := h
  exact ⟨_, hlexes.append hlexes' hcloses, hreads.sum hreads'⟩

end Expressions

end ArrayKernels.OpenCL
