import ArrayKernels.Device.Emission
import ArrayKernels.Proofs.OpenCL.PrintedTerms
import ArrayKernels.Proofs.OpenCL.Statements

/-!
# Printed kernels read back

What the text of a device program is read as: every statement as the statement of the language that
it stands for, with the terms of its positions and values. The numbers in a program have to be words,
for their texts are word literals.

## Main results

- `Block.codeText`: the lines of a block read as its statements.
- `Source.read?_text`: the text of a kernel reads as the kernel.
-/

namespace ArrayKernels.Device

open OpenCL

/-! ## Names -/

/-- No name is a keyword. -/
theorem Name.spell_not_keyword (name : Name) : name.spell ∉ keywords := by
  have hkeywords : ∀ word ∈ keywords, (word.Forall fun c => (!c.isDigit) = true) ∧ word ∉ stems := by
    decide
  intro hmem
  obtain ⟨hletters, hstem⟩ := hkeywords _ hmem
  exact spell_ne (List.forall_iff_forall_mem.mp hletters) hstem name rfl

/-- The name of a kernel is a word. -/
theorem isWord_kernelName (name : String) : IsWord (kernelName name) := by
  refine ⟨⟨'v', rfl, rfl⟩, fun c hc => ?_⟩
  rcases List.mem_append.mp hc with hprefix | hmapped
  · have hwords : ∀ c ∈ "vec_".toList, isWordChar c = true :=
      List.forall_iff_forall_mem.mp (by decide)
    exact hwords c hprefix
  · obtain ⟨d, -, rfl⟩ := List.mem_map.mp hmapped
    split
    · next hd => rw [isWordChar, hd, Bool.true_or]
    · decide

/-! ## Statements -/

/-- The statements that a block stands for. -/
def Block.code : Block → Code
  | done => .done
  | declareWord constant name value next =>
    .declare constant .ulong name.spell value.term next.code
  | stopUnlessBelow name bound next =>
    .returnIf (.binary .atLeast (.name name.spell) (.name bound.spell)) next.code
  | divide name divisor next => .update name.spell .dividedBy (.word divisor) next.code
  | declareValue name value next => .declare true .double name.spell value.term next.code
  | declareTotal name next =>
    .declare false .double name.spell (.decimal "0.0".toList) next.code
  | addTo name value next => .update name.spell .plus value.term next.code
  | loop index bound body next =>
    .loop index.spell (.int 0) (.binary .below (.name index.spell) (.word bound)) body.code
      next.code
  | store array position value next => .store array.spell position.term value.term next.code

/-- The numbers in a block are words. -/
def Block.Fits : Block → Prop
  | done => True
  | declareWord _ _ value next => value.Fits ∧ next.Fits
  | stopUnlessBelow _ _ next => next.Fits
  | divide _ divisor next => divisor < wordBound ∧ next.Fits
  | declareValue _ value next => value.Fits ∧ next.Fits
  | declareTotal _ next => next.Fits
  | addTo _ value next => value.Fits ∧ next.Fits
  | loop _ bound body next => bound < wordBound ∧ body.Fits ∧ next.Fits
  | store _ position value next => position.Fits ∧ value.Fits ∧ next.Fits

/-- Lines as one text. -/
def joined (lines : List (List Char)) : List Char := (lines.map (· ++ ['\n'])).flatten

theorem joined_cons (text : List Char) (lines : List (List Char)) :
    joined (text :: lines) = text ++ '\n' :: joined lines := by
  rw [joined, List.map_cons, List.flatten_cons, List.append_assoc]
  rfl

theorem joined_append (lines more : List (List Char)) :
    joined (lines ++ more) = joined lines ++ joined more := by
  rw [joined, List.map_append, List.flatten_append]
  rfl

/-- A statement on a line of its own. -/
theorem codeText_line {text : List Char} {lines : List (List Char)} {make : Code → Code} {next : Code}
    (depth : Nat) (hstatement : StatementText text make) (hnext : CodeText (joined lines) next) :
    CodeText (joined (line depth text :: lines)) (make next) := by
  rw [joined_cons, line, List.append_assoc]
  exact (CodeText.append hstatement hnext.newline (.cons (by decide) _)).indent _

/-- **The lines of a block read as its statements.** -/
theorem Block.codeText (block : Block) (depth : Nat) (h : block.Fits) :
    CodeText (joined (block.lines depth)) block.code := by
  -- the texts of the printer are cut where the rules of the grammar cut them
  induction block generalizing depth with
  | done => exact .done
  | declareWord constant name value next ih =>
    have hstatement := StatementText.declare constant .ulong name.isWord (value.termText h.1)
    refine codeText_line depth ?_ (ih depth h.2)
    have hulong : "ulong ".toList = Kind.ulong.text ++ [' '] := by decide
    rw [hulong]
    simpa only [List.append_assoc, List.cons_append, List.nil_append] using hstatement
  | stopUnlessBelow name bound next ih =>
    have hcond := (LevelText.binary .atLeast name.operandText bound.operandText).term
    refine codeText_line depth ?_ (ih depth h)
    have hsign : " >= ".toList = ' ' :: Operator.atLeast.mark ++ [' '] := by decide
    rw [hsign]
    simpa only [List.append_assoc, List.cons_append, List.nil_append]
      using StatementText.returnIf hcond
  | divide name divisor next ih =>
    have hstatement := StatementText.divide name.isWord name.spell_not_keyword
      (operandText_wordLiteral h.1).term
    refine codeText_line depth ?_ (ih depth h.2)
    simpa only [List.append_assoc] using hstatement
  | declareValue name value next ih =>
    have hstatement := StatementText.declare true .double name.isWord (value.operandText h.1).term
    refine codeText_line depth ?_ (ih depth h.2)
    have hdouble : "const double ".toList = "const ".toList ++ (Kind.double.text ++ [' ']) := by
      decide
    rw [hdouble]
    simpa only [List.append_assoc, List.cons_append, List.nil_append, if_true] using hstatement
  | declareTotal name next ih =>
    have hstatement := StatementText.declare false .double name.isWord
      isDecimal_zero.operandText.term
    refine codeText_line depth ?_ (ih depth h)
    have hdouble : "double ".toList = Kind.double.text ++ [' '] := by decide
    have hzero : " = 0.0;".toList = " = ".toList ++ ("0.0".toList ++ [';']) := by decide
    rw [hdouble, hzero]
    simpa only [List.append_assoc, List.cons_append, List.nil_append, Bool.false_eq_true, if_false]
      using hstatement
  | addTo name value next ih =>
    have hstatement := StatementText.add name.isWord name.spell_not_keyword
      (value.operandText h.1).term
    refine codeText_line depth ?_ (ih depth h.2)
    simpa only [List.append_assoc] using hstatement
  | loop index bound body next ihbody ihnext =>
    have hcond := (LevelText.binary .below index.operandText (operandText_wordLiteral h.1)).term
    have hbody := (ihbody (depth + 1) h.2.1).blanks (4 * depth)
    have hnext := (ihnext depth h.2.2).newline
    have hloop := CodeText.loop index.isWord Word.operandText_zero.term hcond hbody hnext
    have hfirst : " = 0; ".toList = " = ".toList ++ ('0' :: "; ".toList) := by decide
    have hsign : " < ".toList = ' ' :: Operator.below.mark ++ [' '] := by decide
    have hclose : ([')', ' ', '\x7b'] : List Char) = ") \x7b".toList := by decide
    rw [lines, code, joined_cons, joined_append, joined_cons, line, line, List.append_assoc, hfirst,
      hsign, hclose]
    refine .indent _ ?_
    simpa only [List.append_assoc, List.cons_append, List.nil_append] using hloop
  | store array position value next ih =>
    have hstatement := StatementText.store array.isWord array.spell_not_keyword
      (position.termText h.1) (value.operandText h.2.1).term
    refine codeText_line depth ?_ (ih depth h.2.2)
    simpa only [List.append_assoc, List.cons_append] using hstatement

/-! ## Kernels -/

/-- The parameters of a kernel: its arrays, the result and the number of elements. -/
def Source.parameters (s : Source) : List Parameter :=
  s.arrays.map (fun array => ⟨.source, array.spell⟩) ++
    [⟨.target, Name.out.spell⟩, ⟨.word, Name.count.spell⟩]

/-- The kernel that a device program stands for. -/
def Source.kernel (s : Source) : OpenCL.Kernel := ⟨s.name, s.parameters, s.body.code⟩

theorem parametersText_indent {text : List Char} {parameters : List Parameter} (n : Nat)
    (h : ParametersText text parameters) :
    ParametersText (List.replicate n ' ' ++ text) parameters := by
  induction n with
  | zero => exact h
  | succ n ih =>
    rw [List.replicate_succ, List.cons_append]
    exact ih.blank

/-- The lines of the parameters, without the line feed at their end. -/
theorem Source.parametersText (s : Source) :
    ParametersText
      (joined (s.arrays.map fun array =>
          line 1 ("__global const double* ".toList ++ array.spell ++ [','])) ++
        (line 1 "__global double* out,".toList ++ '\n' :: line 1 "const ulong n)".toList))
      s.parameters := by
  have hcount : ParametersText (line 1 "const ulong n)".toList) [⟨.word, Name.count.spell⟩] := by
    have htext : "const ulong n)".toList =
        "const ".toList ++ ("ulong ".toList ++ (Name.count.spell ++ [')'])) := by decide
    rw [line, htext]
    exact parametersText_indent _ (.word Name.count.isWord)
  have hout : ParametersText
      (line 1 "__global double* out,".toList ++ '\n' :: line 1 "const ulong n)".toList)
      [⟨.target, Name.out.spell⟩, ⟨.word, Name.count.spell⟩] := by
    have htext : "__global double* out,".toList =
        "__global ".toList ++ ("double* ".toList ++ (Name.out.spell ++ [','])) := by decide
    have htarget := parametersText_indent (4 * 1) (ParametersText.target Name.out.isWord hcount.newline)
    rw [line, htext]
    simpa only [List.append_assoc, List.cons_append, List.nil_append] using htarget
  have htype : "__global const double* ".toList =
      "__global ".toList ++ ("const ".toList ++ "double* ".toList) := by decide
  rw [parameters, htype]
  -- from the last parameter to the first
  induction s.arrays with
  | nil => exact hout
  | cons array arrays ih =>
    have harray := parametersText_indent (4 * 1) (ParametersText.source array.isWord ih.newline)
    rw [List.map_cons, joined_cons, line]
    simpa only [List.append_assoc, List.cons_append, List.nil_append, List.map_cons] using harray

/-- **The text of a kernel reads as the kernel.** -/
theorem Source.read?_text (s : Source) (hname : IsWord s.name) (h : s.body.Fits) :
    OpenCL.read? s.text = some s.kernel := by
  have hread := read?_kernel hname s.parametersText (s.body.codeText 1 h)
  have hhead : "__kernel void ".toList = "__kernel ".toList ++ "void ".toList := by decide
  have htext : s.text = joined s.lines := rfl
  rw [kernel, ← hread, htext, lines, hhead]
  refine congrArg OpenCL.read? ?_
  simp only [joined_append, joined_cons, List.cons_append, List.nil_append, List.append_assoc]
  rfl

end ArrayKernels.Device
