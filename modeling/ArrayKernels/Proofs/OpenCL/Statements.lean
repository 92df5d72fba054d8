import ArrayKernels.Proofs.OpenCL.Grammar

/-!
# Texts that read as statements

How the text of a block is composed of the texts of its statements. A statement is read in front of
others, so its text stands for a function of what follows it. Blanks and line feeds may stand between
statements.

## Main results

- `StatementText.declare`, `StatementText.returnIf`, `StatementText.update`, `StatementText.store`:
  statements.
- `CodeText.append`, `CodeText.loop`: blocks of them.
-/

namespace ArrayKernels.OpenCL

/-! ## Tokens -/

/-- The tokens are the statements of a block. -/
def ReadsCode (ts : List Token) (code : Code) : Prop :=
  ∀ depth rest, 4 * ts.length + 1 ≤ depth →
    readCode depth (ts ++ .mark ['\x7d'] :: rest) = some (code, .mark ['\x7d'] :: rest)

/-- The tokens are a statement, as a function of what follows it. -/
def ReadsStatement (ts : List Token) (make : Code → Code) : Prop :=
  ∀ us next, ReadsCode us next → ReadsCode (ts ++ us) (make next)

/-- The keyword of a type. -/
def Kind.text : Kind → List Char
  | ulong => "ulong".toList
  | double => "double".toList

/-- The words with which statements begin that are no assignments. -/
def keywords : List (List Char) := ["if", "for", "const", "ulong", "double"].map String.toList

section Tokens

variable {ts us vs : List Token} {a b : Term} {name array counter : List Char}

theorem ReadsCode.done : ReadsCode [] .done := by
  intro depth rest hdepth
  obtain ⟨depth, rfl⟩ := Nat.exists_eq_add_of_le' (show 1 ≤ depth by omega)
  rw [List.nil_append, readCode]

theorem readKind_text (kind : Kind) (rest : List Token) :
    readKind (.word kind.text :: rest) = some (kind, rest) := by
  cases kind <;> rfl

theorem ReadsTerm.readInitializer (h : ReadsTerm ts a) (name : List Char) {depth : Nat}
    (hdepth : 4 * ts.length + 3 ≤ depth) (rest : List Token) :
    readInitializer depth (.word name :: .mark ['='] :: (ts ++ .mark [';'] :: rest)) =
      some (name, a, rest) := by
  have hterm := h depth (.mark [';'] :: rest) hdepth (afterTerm_mark (by decide) rest)
  rw [OpenCL.readInitializer, hterm]
  rfl

theorem ReadsStatement.declareConstant (kind : Kind) (h : ReadsTerm ts a) :
    ReadsStatement
      (keyword "const" :: .word kind.text :: .word name :: .mark ['='] :: (ts ++ [.mark [';']]))
      (.declare true kind name a) := by
  intro us next hnext depth rest hdepth
  simp only [List.length_cons, List.length_append, List.length_nil] at hdepth
  obtain ⟨depth, rfl⟩ := Nat.exists_eq_add_of_le' (show 1 ≤ depth by omega)
  have hinit := h.readInitializer name (show 4 * ts.length + 3 ≤ depth by omega)
    (us ++ .mark ['\x7d'] :: rest)
  have hrest := hnext depth rest (by omega)
  have hif : "const".toList ≠ "if".toList := by decide
  have hfor : "const".toList ≠ "for".toList := by decide
  simp only [List.cons_append, List.append_assoc, List.nil_append, keyword, readCode, if_neg hif,
    if_neg hfor, if_true, readKind_text, hinit, hrest, Option.bind_eq_bind, Option.bind_some]
  rfl

theorem ReadsStatement.declareVariable (kind : Kind) (h : ReadsTerm ts a) :
    ReadsStatement (.word kind.text :: .word name :: .mark ['='] :: (ts ++ [.mark [';']]))
      (.declare false kind name a) := by
  intro us next hnext depth rest hdepth
  simp only [List.length_cons, List.length_append, List.length_nil] at hdepth
  obtain ⟨depth, rfl⟩ := Nat.exists_eq_add_of_le' (show 1 ≤ depth by omega)
  have hinit := h.readInitializer name (show 4 * ts.length + 3 ≤ depth by omega)
    (us ++ .mark ['\x7d'] :: rest)
  have hrest := hnext depth rest (by omega)
  have hwords : kind.text ≠ "if".toList ∧ kind.text ≠ "for".toList ∧ kind.text ≠ "const".toList := by
    cases kind <;> decide
  obtain ⟨hif, hfor, hconst⟩ := hwords
  -- the first word is none of the keywords that are looked for before types
  simp only [List.cons_append, List.append_assoc, List.nil_append, readCode, if_neg hif, if_neg hfor,
    if_neg hconst, readKind_text, hinit, hrest, Option.bind_eq_bind, Option.bind_some]
  rfl

theorem ReadsStatement.returnIf (h : ReadsTerm ts a) :
    ReadsStatement
      (keyword "if" :: .mark ['('] :: (ts ++ [.mark [')'], keyword "return", .mark [';']]))
      (.returnIf a) := by
  intro us next hnext depth rest hdepth
  simp only [List.length_cons, List.length_append, List.length_nil] at hdepth
  obtain ⟨depth, rfl⟩ := Nat.exists_eq_add_of_le' (show 1 ≤ depth by omega)
  have hcond := h depth
    (.mark [')'] :: keyword "return" :: .mark [';'] :: (us ++ .mark ['\x7d'] :: rest)) (by omega)
    (afterTerm_mark (by decide) _)
  have hrest := hnext depth rest (by omega)
  have hopen := expect_append [.mark ['(']]
    (ts ++ .mark [')'] :: keyword "return" :: .mark [';'] :: (us ++ .mark ['\x7d'] :: rest))
  have hclose := expect_append [.mark [')'], keyword "return", .mark [';']]
    (us ++ .mark ['\x7d'] :: rest)
  simp only [List.cons_append, List.append_assoc, List.nil_append] at hopen hclose ⊢
  rw [keyword, readCode.eq_def]
  simp only [if_true, hopen, hcond, hclose, hrest, Option.bind_eq_bind, Option.bind_some]
  rfl

/-- Assignments that divide a variable or add to it. -/
theorem ReadsStatement.update {op : Operator} (hop : op = .plus ∨ op = .dividedBy)
    (hname : name ∉ keywords) (h : ReadsTerm ts a) :
    ReadsStatement (.word name :: .mark (op.mark ++ ['=']) :: (ts ++ [.mark [';']]))
      (.update name op a) := by
  intro us next hnext depth rest hdepth
  simp only [List.length_cons, List.length_append, List.length_nil] at hdepth
  obtain ⟨depth, rfl⟩ := Nat.exists_eq_add_of_le' (show 1 ≤ depth by omega)
  have hvalue := h depth (.mark [';'] :: (us ++ .mark ['\x7d'] :: rest)) (by omega)
    (afterTerm_mark (by decide) _)
  have hrest := hnext depth rest (by omega)
  simp only [keywords, List.map_cons, List.map_nil, List.mem_cons, List.not_mem_nil, or_false,
    not_or] at hname
  -- the name is no keyword, so the punctuator behind it decides
  obtain ⟨hif, hfor, hconst, hulong, hdouble⟩ := hname
  have hsemicolon := expect_append [.mark [';']] (us ++ .mark ['\x7d'] :: rest)
  simp only [List.cons_append, List.append_assoc, List.nil_append] at hsemicolon ⊢
  rcases hop with rfl | rfl
  all_goals
    simp only [Operator.mark, List.cons_append, List.nil_append, readCode, if_neg hif, if_neg hfor,
      if_neg hconst, readKind, if_neg hulong, if_neg hdouble, hvalue, hsemicolon, hrest,
      Option.bind_eq_bind, Option.bind_some]
    rfl

theorem ReadsStatement.store (harray : array ∉ keywords) (ha : ReadsTerm ts a)
    (hb : ReadsTerm us b) :
    ReadsStatement (.word array :: .mark ['['] :: (ts ++ .mark [']'] :: .mark ['='] ::
      (us ++ [.mark [';']]))) (.store array a b) := by
  intro vs next hnext depth rest hdepth
  simp only [List.length_cons, List.length_append, List.length_nil] at hdepth
  obtain ⟨depth, rfl⟩ := Nat.exists_eq_add_of_le' (show 1 ≤ depth by omega)
  have hposition := ha depth
    (.mark [']'] :: .mark ['='] :: (us ++ .mark [';'] :: (vs ++ .mark ['\x7d'] :: rest))) (by omega)
    (afterTerm_mark (by decide) _)
  have hvalue := hb depth (.mark [';'] :: (vs ++ .mark ['\x7d'] :: rest)) (by omega)
    (afterTerm_mark (by decide) _)
  have hrest := hnext depth rest (by omega)
  simp only [keywords, List.map_cons, List.map_nil, List.mem_cons, List.not_mem_nil, or_false,
    not_or] at harray
  obtain ⟨hif, hfor, hconst, hulong, hdouble⟩ := harray
  have hclose := expect_append [.mark [']'], .mark ['=']]
    (us ++ .mark [';'] :: (vs ++ .mark ['\x7d'] :: rest))
  have hsemicolon := expect_append [.mark [';']] (vs ++ .mark ['\x7d'] :: rest)
  simp only [List.cons_append, List.append_assoc, List.nil_append] at hclose hsemicolon ⊢
  simp only [readCode, if_neg hif, if_neg hfor, if_neg hconst, readKind, if_neg hulong,
    if_neg hdouble, hposition, hclose, hvalue, hsemicolon, hrest, Option.bind_eq_bind,
    Option.bind_some]
  rfl

/-- The head of a loop, its body between braces, and what follows. -/
theorem ReadsCode.loop {ws : List Token} {body next : Code} (hfirst : ReadsTerm ts a)
    (hcond : ReadsTerm us b) (hbody : ReadsCode vs body) (hnext : ReadsCode ws next) :
    ReadsCode (keyword "for" :: .mark ['('] :: keyword "ulong" :: .word counter :: .mark ['='] ::
        (ts ++ .mark [';'] :: (us ++ .mark [';'] :: .mark ['+', '+'] :: .word counter ::
          .mark [')'] :: .mark ['\x7b'] :: (vs ++ .mark ['\x7d'] :: ws))))
      (.loop counter a b body next) := by
  intro depth rest hdepth
  simp only [List.length_cons, List.length_append] at hdepth
  obtain ⟨depth, rfl⟩ := Nat.exists_eq_add_of_le' (show 1 ≤ depth by omega)
  -- the text behind the braces, behind the condition and behind the first value
  let after := ws ++ .mark ['\x7d'] :: rest
  let inside := vs ++ .mark ['\x7d'] :: after
  let behind := .mark [';'] :: .mark ['+', '+'] :: .word counter :: .mark [')'] ::
    .mark ['\x7b'] :: inside
  have hinit := hfirst.readInitializer counter (show 4 * ts.length + 3 ≤ depth by omega)
    (us ++ behind)
  have hcond := hcond depth behind (by omega) (afterTerm_mark (by decide) _)
  have hopen := expect_append [.mark ['('], keyword "ulong"]
    (.word counter :: .mark ['='] :: (ts ++ .mark [';'] :: (us ++ behind)))
  have hclose : expect [.mark [';'], .mark ['+', '+'], .word counter, .mark [')'], .mark ['\x7b']]
      behind = some inside := expect_append _ _
  have hhead : readHead depth (.mark ['('] :: keyword "ulong" :: .word counter :: .mark ['='] ::
      (ts ++ .mark [';'] :: (us ++ behind))) = some (counter, a, b, inside) := by
    simp only [List.cons_append, List.nil_append] at hopen
    simp only [readHead, hopen, hinit, hcond, hclose, Option.bind_eq_bind, Option.bind_some]
    rfl
  have hbody := hbody depth after (by omega)
  have hbrace := expect_append [.mark ['\x7d']] after
  have hrest := hnext depth rest (by omega)
  have hif : "for".toList ≠ "if".toList := by decide
  simp only [List.cons_append, List.append_assoc, List.nil_append] at hbrace ⊢
  rw [keyword, readCode.eq_def]
  simp only [if_neg hif, if_true]
  rw [hhead]
  simp only [inside, hbody, hbrace, hrest, after, Option.bind_eq_bind, Option.bind_some]
  rfl

end Tokens

/-! ## Texts -/

/-- The text is the statements of a block. -/
def CodeText (text : List Char) (code : Code) : Prop := ∃ ts, Lexes text ts ∧ ReadsCode ts code

/-- The text is a statement, as a function of what follows it. -/
def StatementText (text : List Char) (make : Code → Code) : Prop :=
  ∃ ts, Lexes text ts ∧ ReadsStatement ts make

section Texts

variable {text other name array counter cond first body after : List Char} {ts : List Token}
variable {a b : Term} {code next : Code} {make : Code → Code}

/-- A word with a blank behind it. -/
theorem Lexes.spaced (hword : IsWord name) (h : Lexes text ts) :
    Lexes (name ++ ' ' :: text) (.word name :: ts) :=
  (Lexes.word hword).append h.blank (.cons (by decide) _)

theorem Lexes.newline (h : Lexes text ts) : Lexes ('\n' :: text) ts :=
  fun rest more hrest hmore => tokens_blank rfl (h rest more hrest hmore)

/-- The sign of an assignment, with blanks around it. -/
theorem Lexes.assign (h : Lexes text ts) : Lexes (" = ".toList ++ text) (.mark ['='] :: ts) := by
  have hblank : ∀ d ∈ (' ' :: text).head?, ['=', d] ∉ pairs := by
    intro d hd
    rw [← Option.some.inj hd]
    exact not_pair_of_second (by decide)
  exact (h.blank.mark rfl hblank).blank

theorem Lexes.semicolon (h : Lexes text ts) :
    Lexes (text ++ [';']) (ts ++ [.mark [';']]) :=
  h.append (Lexes.nil.bracket rfl (by decide)) (.cons (by decide) [])

theorem lexes_initializer (hname : IsWord name) (h : Lexes text ts) :
    Lexes (name ++ (" = ".toList ++ (text ++ [';'])))
      (.word name :: .mark ['='] :: (ts ++ [.mark [';']])) :=
  (Lexes.word hname).append h.semicolon.assign (.cons (by decide) _)

theorem Kind.isWord (kind : Kind) : IsWord kind.text := by
  cases kind
  · decide
  · decide

namespace StatementText

theorem declare (constant : Bool) (kind : Kind) (hname : IsWord name) (h : TermText text a) :
    StatementText
      ((if constant then "const ".toList else []) ++ (kind.text ++ ' ' ::
        (name ++ (" = ".toList ++ (text ++ [';'])))))
      (.declare constant kind name a) := by
  obtain ⟨ts, hlexes, hreads⟩ := h
  have hdeclaration := (lexes_initializer hname hlexes).spaced kind.isWord
  cases constant with
  | true =>
    have hconst : IsWord "const".toList := by decide
    exact ⟨_, hdeclaration.spaced hconst, .declareConstant kind hreads⟩
  | false => exact ⟨_, hdeclaration, .declareVariable kind hreads⟩

theorem returnIf (h : TermText text a) :
    StatementText ("if (".toList ++ (text ++ ") return;".toList)) (.returnIf a) := by
  obtain ⟨ts, hlexes, hreads⟩ := h
  have hif : IsWord "if".toList := by decide
  have hreturn : IsWord "return".toList := by decide
  have hclose : Lexes ") return;".toList [.mark [')'], keyword "return", .mark [';']] :=
    (Lexes.word hreturn).semicolon.blank.bracket rfl (by decide)
  have hcond := (hlexes.append hclose (.cons (by decide) _)).bracket (c := '(') rfl (by decide)
  exact ⟨_, hcond.spaced hif, .returnIf hreads⟩

theorem divide (hname : IsWord name) (hword : name ∉ keywords) (h : TermText text a) :
    StatementText (name ++ (" /= ".toList ++ (text ++ [';']))) (.update name .dividedBy a) := by
  obtain ⟨ts, hlexes, hreads⟩ := h
  have hsign := hlexes.semicolon.blank.pair (c := '/') (d := '=') rfl (by decide)
  exact ⟨_, hsign.spaced hname, .update (.inr rfl) hword hreads⟩

theorem add (hname : IsWord name) (hword : name ∉ keywords) (h : TermText text a) :
    StatementText (name ++ (" += ".toList ++ (text ++ [';']))) (.update name .plus a) := by
  obtain ⟨ts, hlexes, hreads⟩ := h
  have hsign := hlexes.semicolon.blank.pair (c := '+') (d := '=') rfl (by decide)
  exact ⟨_, hsign.spaced hname, .update (.inl rfl) hword hreads⟩

theorem store (harray : IsWord array) (hword : array ∉ keywords) (ha : TermText text a)
    (hb : TermText other b) :
    StatementText (array ++ '[' :: (text ++ ("] = ".toList ++ (other ++ [';']))))
      (.store array a b) := by
  obtain ⟨ts, hlexes, hreads⟩ := ha
  obtain ⟨us, hlexes', hreads'⟩ := hb
  have hclose := hlexes'.semicolon.assign.bracket (c := ']') rfl (by decide)
  have hopen := (hlexes.append hclose (.cons (by decide) _)).bracket (c := '[') rfl (by decide)
  exact ⟨_, (Lexes.word harray).append hopen (.cons (by decide) _),
    .store hword hreads hreads'⟩

end StatementText

namespace CodeText

theorem done : CodeText [] .done := ⟨[], .nil, .done⟩

theorem blank (h : CodeText text code) : CodeText (' ' :: text) code := by
  obtain ⟨ts, hlexes, hreads⟩ := h
  exact ⟨ts, hlexes.blank, hreads⟩

theorem newline (h : CodeText text code) : CodeText ('\n' :: text) code := by
  obtain ⟨ts, hlexes, hreads⟩ := h
  exact ⟨ts, hlexes.newline, hreads⟩

theorem indent (n : Nat) (h : CodeText text code) :
    CodeText (List.replicate n ' ' ++ text) code := by
  induction n with
  | zero => exact h
  | succ n ih =>
    rw [List.replicate_succ, List.cons_append]
    exact ih.blank

/-- Blanks behind the last statement. -/
theorem blanks (n : Nat) (h : CodeText text code) : CodeText (text ++ List.replicate n ' ') code := by
  obtain ⟨ts, hlexes, hreads⟩ := h
  have hblanks : ∀ n, Lexes (List.replicate n ' ') [] ∧ Closes (List.replicate n ' ') := by
    intro n
    induction n with
    | zero => exact ⟨.nil, by intro c hc; cases hc⟩
    | succ n ih => exact ⟨ih.1.blank, .cons (by decide) _⟩
  have hall := hlexes.append (hblanks n).1 (hblanks n).2
  rw [List.append_nil] at hall
  exact ⟨ts, hall, hreads⟩

/-- A statement in front of others. -/
theorem append (hstatement : StatementText text make) (hcode : CodeText after next)
    (hcloses : Closes after) : CodeText (text ++ after) (make next) := by
  obtain ⟨ts, hlexes, hreads⟩ := hstatement
  obtain ⟨us, hlexes', hreads'⟩ := hcode
  exact ⟨ts ++ us, hlexes.append hlexes' hcloses, hreads us next hreads'⟩

theorem loop (hcounter : IsWord counter) (hfirst : TermText first a) (hcond : TermText cond b)
    (hbody : CodeText body code) (hafter : CodeText after next) :
    CodeText
      ("for (ulong ".toList ++ (counter ++ (" = ".toList ++ (first ++ ("; ".toList ++ (cond ++
        ("; ++".toList ++ (counter ++ (") \x7b".toList ++ ('\n' :: body ++
          '\x7d' :: after))))))))))
      (.loop counter a b code next) := by
  obtain ⟨ts, hfirst, hreadsFirst⟩ := hfirst
  obtain ⟨us, hcond, hreadsCond⟩ := hcond
  obtain ⟨vs, hbody, hreadsBody⟩ := hbody.newline
  obtain ⟨ws, hafter, hreadsAfter⟩ := hafter
  have hfor : IsWord "for".toList := by decide
  have hulong : IsWord "ulong".toList := by decide
  -- from the closing brace to the front
  have hbrace := hafter.bracket (c := '\x7d') rfl (by decide)
  have hinside := (hbody.append hbrace (.cons (by decide) _)).bracket (c := '\x7b') rfl (by decide)
  have hclose := hinside.blank.bracket (c := ')') rfl (by decide)
  have hstep := ((Lexes.word hcounter).append hclose (.cons (by decide) _)).pair (c := '+')
    (d := '+') rfl (by decide)
  have hsecond := hcond.append (hstep.blank.bracket (c := ';') rfl (by decide))
    (.cons (by decide) _)
  have hvalue := hfirst.append (hsecond.blank.bracket (c := ';') rfl (by decide))
    (.cons (by decide) _)
  have hinit := (Lexes.word hcounter).append hvalue.assign (.cons (by decide) _)
  have hopen := (hinit.spaced hulong).bracket (c := '(') rfl (by decide)
  exact ⟨_, hopen.spaced hfor, .loop hreadsFirst hreadsCond hreadsBody hreadsAfter⟩

end CodeText

end Texts

/-! ## Kernels -/

/-- The text is the parameters of a kernel, up to the closing parenthesis. -/
def ParametersText (text : List Char) (parameters : List Parameter) : Prop :=
  ∃ ts, Lexes text ts ∧ ∀ rest, readParameters (ts ++ rest) = some (parameters, rest)

section Kernels

variable {text name body : List Char} {ts : List Token} {parameters : List Parameter} {code : Code}

/-- The type of an array in front of its name. -/
theorem lexes_pointer (hname : IsWord name) (h : Lexes text ts) :
    Lexes ("double* ".toList ++ (name ++ ',' :: text))
      (keyword "double" :: .mark ['*'] :: .word name :: .mark [','] :: ts) := by
  have hdouble : IsWord "double".toList := by decide
  have hblank : ∀ {rest : List Char}, ∀ d ∈ (' ' :: rest).head?, ['*', d] ∉ pairs := by
    intro rest d hd
    rw [← Option.some.inj hd]
    exact not_pair_of_second (by decide)
  have hrest := (Lexes.word hname).append (h.bracket (c := ',') rfl (by decide)) (.cons (by decide) _)
  have hstar := hrest.blank.mark (c := '*') rfl hblank
  -- the star is no blank, but a word does not go on with it either
  intro rest more hclosed hmore
  exact tokens_word hdouble (.cons rfl) (hstar rest more hclosed hmore)

namespace ParametersText

theorem blank (h : ParametersText text parameters) : ParametersText (' ' :: text) parameters := by
  obtain ⟨ts, hlexes, hreads⟩ := h
  exact ⟨ts, hlexes.blank, hreads⟩

theorem newline (h : ParametersText text parameters) :
    ParametersText ('\n' :: text) parameters := by
  obtain ⟨ts, hlexes, hreads⟩ := h
  exact ⟨ts, hlexes.newline, hreads⟩

theorem source (hname : IsWord name) (h : ParametersText text parameters) :
    ParametersText ("__global ".toList ++ ("const ".toList ++ ("double* ".toList ++
      (name ++ ',' :: text)))) (⟨.source, name⟩ :: parameters) := by
  obtain ⟨ts, hlexes, hreads⟩ := h
  have hglobal : IsWord "__global".toList := by decide
  have hconst : IsWord "const".toList := by decide
  refine ⟨_, ((lexes_pointer hname hlexes).spaced hconst).spaced hglobal, fun rest => ?_⟩
  simp only [List.cons_append, keyword, readParameters, List.map_cons, List.map_nil, if_true,
    hreads rest, Option.bind_eq_bind, Option.bind_some]
  rfl

theorem target (hname : IsWord name) (h : ParametersText text parameters) :
    ParametersText ("__global ".toList ++ ("double* ".toList ++ (name ++ ',' :: text)))
      (⟨.target, name⟩ :: parameters) := by
  obtain ⟨ts, hlexes, hreads⟩ := h
  have hglobal : IsWord "__global".toList := by decide
  refine ⟨_, (lexes_pointer hname hlexes).spaced hglobal, fun rest => ?_⟩
  simp only [List.cons_append, keyword, readParameters, List.map_cons, List.map_nil, if_true,
    hreads rest, Option.bind_eq_bind, Option.bind_some]
  rfl

theorem word (hname : IsWord name) :
    ParametersText ("const ".toList ++ ("ulong ".toList ++ (name ++ [')'])))
      [⟨.word, name⟩] := by
  have hconst : IsWord "const".toList := by decide
  have hulong : IsWord "ulong".toList := by decide
  have hclose := (Lexes.word hname).append (Lexes.nil.bracket (c := ')') rfl (by decide))
    (.cons (by decide) [])
  exact ⟨_, (hclose.spaced hulong).spaced hconst, fun rest => rfl⟩

end ParametersText

/-- **A text with the parts of a kernel reads as the kernel.** -/
theorem read?_kernel (hname : IsWord name) (hparameters : ParametersText text parameters)
    (hbody : CodeText body code) :
    read? (precision ++ '\n' :: '\n' :: ("__kernel ".toList ++ ("void ".toList ++ (name ++
      '(' :: '\n' :: (text ++ '\n' :: '\x7b' :: '\n' :: (body ++ ['\x7d', '\n'])))))) =
        some ⟨name, parameters, code⟩ := by
  obtain ⟨ts, hlexes, hreads⟩ := hparameters
  obtain ⟨us, hbody, hcode⟩ := hbody.newline
  have hkernel : IsWord "__kernel".toList := by decide
  have hvoid : IsWord "void".toList := by decide
  -- from the last line to the first
  have hclose := hbody.append (Lexes.nil.newline.bracket (c := '\x7d') rfl (by decide))
    (.cons (by decide) _)
  have hopen := hclose.bracket (c := '\x7b') rfl (by decide)
  have hinside := (hlexes.append hopen.newline (.cons (by decide) _)).newline.bracket (c := '(') rfl
    (by decide)
  have hhead := (((Lexes.word hname).append hinside (.cons (by decide) _)).spaced hvoid).spaced
    hkernel
  have htokens := hhead.newline [] [] (by intro c hc; cases hc) rfl
  rw [List.append_nil, List.append_nil] at htokens
  have hline : '\n' ∉ precision.tail := by decide
  have hall := tokens_directive hline htokens
  have hcode := hcode (4 * (us ++ [Token.mark ['\x7d']]).length + 4) [] (by
    rw [List.length_append]
    omega)
  refine (congrArg (Option.bind · readKernel) hall).trans ?_
  have hfirst := expect_append [.directive precision, keyword "__kernel", keyword "void"]
    (.word name :: .mark ['('] :: (ts ++ .mark ['\x7b'] :: (us ++ [.mark ['\x7d']])))
  have hbrace := expect_append [.mark ['\x7b']] (us ++ [.mark ['\x7d']])
  simp only [List.cons_append, List.nil_append] at hfirst hbrace
  rw [Option.bind_some, readKernel]
  refine (congrArg (Option.bind · _) hfirst).trans ?_
  simp only [hreads, hbrace, hcode, Option.bind_eq_bind, Option.bind_some]
  rfl

end Kernels

end ArrayKernels.OpenCL
