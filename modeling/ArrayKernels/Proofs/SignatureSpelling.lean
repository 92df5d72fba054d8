import ArrayKernels.Proofs.SignatureReading

/-!
# The written form of a signature

Reading takes white space out and then accepts a grammar in which nothing is optional. So a text
that is read is the written form of its signature except for white space, the written form is read
as the same signature, and texts that differ in white space only have the same outcome.

## Layers

- **Grammar**: a text of the grammar is the written form of what it stands for.
- **White space**: an outcome depends on the text without white space, and on the text itself only
  where an error quotes it.

## Main results

- `Signature.compact_eq_spell`: a text that is read is the written form of its signature.
- `Signature.render_canonical`: writing and reading are inverse to each other.
-/

namespace ArrayKernels

open SignatureGrammar Signature

/-! ## Texts of the grammar -/

theorem Signature.spellNames_cons (name : String) {names : List String} (h : names ≠ []) :
    spellNames (name :: names) = name.toList ++ ',' :: spellNames names := by
  obtain ⟨second, others, rfl⟩ := List.exists_cons_of_ne_nil h
  rfl

theorem Signature.spellGroups_cons (group : List String) {groups : List (List String)}
    (h : groups ≠ []) :
    spellGroups (group :: groups) = spellGroup group ++ ',' :: spellGroups groups := by
  obtain ⟨second, others, rfl⟩ := List.exists_cons_of_ne_nil h
  rfl

theorem SignatureGrammar.Names.names_ne_nil {cs : List Char} {names : List String}
    (h : Names cs names) : names ≠ [] := by
  cases h with
  | one => exact List.cons_ne_nil _ _
  | more => exact List.cons_ne_nil _ _

theorem SignatureGrammar.Names.eq_spell {cs : List Char} {names : List String}
    (h : Names cs names) : cs = spellNames names := by
  induction h with
  | one => rw [spellNames, String.toList_ofList]
  | more _ hrest ih =>
    rw [spellNames_cons _ hrest.names_ne_nil, String.toList_ofList, ← ih]

theorem SignatureGrammar.Group.eq_spell {cs : List Char} {group : List String}
    (h : Group cs group) : cs = spellGroup group := by
  cases h with
  | empty => rfl
  | named hnames => rw [spellGroup, ← hnames.eq_spell]

theorem SignatureGrammar.Groups.eq_spell {cs : List Char} {groups : List (List String)}
    (h : Groups cs groups) : cs = spellGroups groups := by
  induction h with
  | one hgroup => rw [spellGroups, hgroup.eq_spell]
  | more hgroup hrest ih =>
    rw [spellGroups_cons _ hrest.ne_nil.2, ← hgroup.eq_spell, ← ih]

/-! ## White space -/

theorem Text.compact_compact (cs : List Char) : compact (compact cs) = compact cs := by
  rw [compact, compact, List.filter_filter]
  simp

/-- The error with that text in the place of the one that it quotes. -/
def SignatureError.quoting (text : String) : SignatureError → SignatureError
  | .malformed _ reason => .malformed text reason
  | fault => fault

namespace Signature

theorem ofGroups_quoting (text : String) (inputs outputs : List (List String)) :
    (ofGroups inputs outputs).mapError (·.quoting text) = ofGroups inputs outputs := by
  rcases ofGroups_cases inputs outputs with ⟨-, h⟩ | ⟨-, -, h⟩ |
    ⟨-, front, name, rest, fault, -, -, hname, h⟩ | ⟨-, output, -, -, h⟩
  · rw [h]
    rfl
  · rw [h]
    rfl
  · -- none of the rules for output names quotes the text
    rw [h]
    cases hname with
    | undeclared => rfl
    | repeated => rfl
  · rw [h]
    rfl

/-- Texts that agree except for white space have the same outcome, except for the text that an
error quotes. -/
theorem parse_of_compact_eq {a b : String} (h : Text.compact a.toList = Text.compact b.toList) :
    parse b = (parse a).mapError (·.quoting b) := by
  rw [parse, parse, h, readCompact, readCompact]
  cases harrow : splitArrow (Text.compact b.toList) with
  | none => rfl
  | some sides =>
    obtain ⟨left, right⟩ := sides
    cases hleft : readGroups left with
    | error fault =>
      simp only [hleft]
      rfl
    | ok inputs =>
      cases hright : readGroups right with
      | error fault =>
        simp only [hleft, hright]
        rfl
      | ok outputs =>
        simp only [hleft, hright]
        exact (ofGroups_quoting b inputs outputs).symm

/-! ## Writing and reading -/

section

variable {text : String} {s : Signature}

/-- **A text that is read is the written form of its signature**, except for white space. -/
theorem compact_eq_spell (h : parse text = .ok s) : Text.compact text.toList = s.spell := by
  obtain ⟨left, right, hcompact, hleft, hright, -⟩ := parse_eq_ok_iff.mp h
  rw [hcompact, spell, ← hleft.eq_spell, ← hright.eq_spell]

theorem render_eq_of_parse (h : parse text = .ok s) :
    s.render = String.ofList (Text.compact text.toList) := by
  rw [compact_eq_spell h, render]

/-- The written form of a signature that has been read is read as the same signature. -/
theorem parse_render (h : parse text = .ok s) : parse s.render = .ok s := by
  have hsame : Text.compact text.toList = Text.compact s.render.toList := by
    rw [render_eq_of_parse h, String.toList_ofList, Text.compact_compact]
  rw [parse_of_compact_eq hsame, h]
  rfl

end

/-- **Writing and reading are inverse to each other.** The written form of a signature that has been
read is read as this signature, and it is the text without its white space. So of texts that can be
read, those have one signature that have one written form, and these are the ones that differ in
white space only. Texts that differ in white space only have the same outcome, whether they can be
read or not, except that an error may quote the text. -/
theorem render_canonical :
    (∀ (text : String) (s : Signature), parse text = .ok s →
      parse s.render = .ok s ∧ s.render = String.ofList (Text.compact text.toList)) ∧
    (∀ (a b : String) (s t : Signature), parse a = .ok s → parse b = .ok t →
      (s = t ↔ s.render = t.render) ∧
        (s.render = t.render ↔ Text.compact a.toList = Text.compact b.toList)) ∧
    ∀ a b : String, Text.compact a.toList = Text.compact b.toList →
      (∃ s, parse a = .ok s ∧ parse b = .ok s) ∨
        ∃ fault : SignatureError, parse a = .error (fault.quoting a) ∧
          parse b = .error (fault.quoting b) := by
  refine ⟨fun text s h => ⟨parse_render h, render_eq_of_parse h⟩, fun a b s t hs ht => ⟨?_, ?_⟩,
    fun a b hsame => ?_⟩
  · constructor
    · rintro rfl
      rfl
    · intro hrender
      have hread := parse_render hs
      rw [hrender, parse_render ht] at hread
      exact (Except.ok.inj hread).symm
  · rw [render_eq_of_parse hs, render_eq_of_parse ht, String.ofList_inj]
  · have hb := parse_of_compact_eq hsame
    cases ha : parse a with
    | ok s =>
      rw [ha] at hb
      exact .inl ⟨s, rfl, hb⟩
    | error fault =>
      -- what an error quotes is the text that has been read
      have hself := parse_of_compact_eq (a := a) (b := a) rfl
      rw [ha] at hb hself
      exact .inr ⟨fault, hself, hb⟩

/-- White space inside a name and inside the arrow, and in a text that has no arrow. -/
theorem render_canonical_across_names :
    (∃ s, parse "(m, n n),\u3000()- >(m)" = .ok s ∧ parse s.render = .ok s ∧
      s.render = "(m,nn),()->(m)") ∧
    ∃ fault : SignatureError, parse "(m) \u0085- ()" = .error (fault.quoting "(m) \u0085- ()") ∧
      parse "(m)-()" = .error (fault.quoting "(m)-()") := by
  have hs : parse "(m, n n),\u3000()- >(m)" = .ok ⟨[["m", "nn"], []], ["m"]⟩ := by cbv
  obtain ⟨hread, hrender⟩ := render_canonical.1 _ _ hs
  refine ⟨⟨_, hs, hread, hrender.trans (by decide)⟩, ?_⟩
  rcases render_canonical.2.2 "(m) \u0085- ()" "(m)-()" (by decide) with ⟨s, -, hok⟩ | hfault
  · have herror : parse "(m)-()" = .error (.malformed "(m)-()" "missing '->'") := by cbv
    cases herror.symm.trans hok
  · exact hfault

end Signature

end ArrayKernels
