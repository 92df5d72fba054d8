import ArrayKernels.Proofs.SignatureGrammar

/-!
# Reading signatures

What reading makes of every text. A text is cut at its first arrow; if the parts around it are lists
of groups, the groups decide what the text amounts to. The rules are looked at in a fixed order, and
of the output names the leftmost one that offends a rule is to blame.

## Layers

- **Output names**: the first offence among them.
- **Groups**: what the groups around the arrow amount to.
- **Texts**: which of them split into groups.

## Main results

- `Signature.parse_decides_grammar`: which texts are accepted, and the error of each of the others.
-/

namespace ArrayKernels

open SignatureGrammar

/-! ## Output names -/

namespace Signature

/-- The names may stand in the output: every one of them is in some input, and none occurs twice. -/
structure Allowed (inputs : List (List String)) (names : List String) : Prop where
  declared : ∀ name ∈ names, ∃ group ∈ inputs, name ∈ group
  nodup : names.Nodup

/-- What is wrong with a name that stands in the output after others. -/
inductive Offends (inputs : List (List String)) (earlier : List String) (name : String) :
    SignatureError → Prop where
  | undeclared : (∀ group ∈ inputs, name ∉ group) →
    Offends inputs earlier name (.outputOnlyDimension name)
  | repeated : (∃ group ∈ inputs, name ∈ group) → name ∈ earlier →
    Offends inputs earlier name (.repeatedOutputDimension name)

section OutputNames

variable {inputs : List (List String)} {before names : List String} {name : String}
  {fault : SignatureError}

theorem outputFault?_cons_of_offends (h : Offends inputs before name fault)
    (names : List String) :
    outputFault? inputs before (name :: names) = some fault := by
  cases h with
  | undeclared hunknown =>
    have hany : inputs.any (·.contains name) = false := by simpa using hunknown
    simp only [outputFault?, hany, Bool.not_false, if_true]
  | repeated hknown hmem =>
    have hany : inputs.any (·.contains name) = true := by simpa using hknown
    simp only [outputFault?, hany, Bool.not_true, Bool.false_eq_true, if_false, if_pos hmem]

theorem outputFault?_cons_of_fine (hknown : ∃ group ∈ inputs, name ∈ group)
    (hnew : name ∉ before) :
    outputFault? inputs before (name :: names) = outputFault? inputs (before ++ [name]) names := by
  have hany : inputs.any (·.contains name) = true := by simpa using hknown
  simp only [outputFault?, hany, Bool.not_true, Bool.false_eq_true, if_false, if_neg hnew]

theorem offends_or_fine (inputs : List (List String)) (before : List String) (name : String) :
    (∃ fault, Offends inputs before name fault) ∨
      (∃ group ∈ inputs, name ∈ group) ∧ name ∉ before := by
  by_cases hknown : ∃ group ∈ inputs, name ∈ group
  · by_cases hmem : name ∈ before
    · exact .inl ⟨_, .repeated hknown hmem⟩
    · exact .inr ⟨hknown, hmem⟩
  · refine .inl ⟨_, .undeclared fun group hgroup hmem => hknown ⟨group, hgroup, hmem⟩⟩

theorem Offends.not_fine (h : Offends inputs before name fault) :
    ¬((∃ group ∈ inputs, name ∈ group) ∧ name ∉ before) := by
  rintro ⟨⟨group, hgroup, hname⟩, hnew⟩
  cases h with
  | undeclared hunknown => exact hunknown group hgroup hname
  | repeated _ hmem => exact hnew hmem

theorem outputFault?_eq_none_iff :
    outputFault? inputs before names = none ↔
      Allowed inputs names ∧ ∀ name ∈ names, name ∉ before := by
  induction names generalizing before with
  | nil =>
    simp only [outputFault?, List.not_mem_nil, false_implies, implies_true, and_true, true_iff]
    exact ⟨by simp, List.nodup_nil⟩
  | cons name names ih =>
    rcases offends_or_fine inputs before name with ⟨fault, hoffends⟩ | ⟨hknown, hnew⟩
    · rw [outputFault?_cons_of_offends hoffends]
      simp only [reduceCtorEq, false_iff]
      rintro ⟨⟨hdeclared, -⟩, hfresh⟩
      exact hoffends.not_fine
        ⟨hdeclared name List.mem_cons_self, hfresh name List.mem_cons_self⟩
    · rw [outputFault?_cons_of_fine hknown hnew, ih]
      constructor
      · rintro ⟨⟨hdeclared, hnodup⟩, hfresh⟩
        -- the names after this one have been read with it among those before them
        have hnot : name ∉ names := fun hmem => hfresh name hmem (by simp)
        refine ⟨⟨List.forall_mem_cons.mpr ⟨hknown, hdeclared⟩,
          List.nodup_cons.mpr ⟨hnot, hnodup⟩⟩, List.forall_mem_cons.mpr ⟨hnew, ?_⟩⟩
        intro other hmem hbefore
        exact hfresh other hmem (List.mem_append_left _ hbefore)
      · rintro ⟨⟨hdeclared, hnodup⟩, hfresh⟩
        obtain ⟨hnot, hnodup⟩ := List.nodup_cons.mp hnodup
        refine ⟨⟨(List.forall_mem_cons.mp hdeclared).2, hnodup⟩, fun other hmem hbefore => ?_⟩
        rcases List.mem_append.mp hbefore with hbefore | hlast
        · exact hfresh other (List.mem_cons_of_mem _ hmem) hbefore
        · exact hnot (List.mem_singleton.mp hlast ▸ hmem)

/-- The fault of the output is that of its leftmost name that offends a rule. -/
theorem outputFault?_eq_some_iff :
    outputFault? inputs before names = some fault ↔
      ∃ front name rest, names = front ++ name :: rest ∧ outputFault? inputs before front = none ∧
        Offends inputs (before ++ front) name fault := by
  induction names generalizing before with
  | nil => simp [outputFault?]
  | cons first names ih =>
    rcases offends_or_fine inputs before first with ⟨other, hoffends⟩ | ⟨hknown, hnew⟩
    · -- the first name offends, and no name after it counts
      rw [outputFault?_cons_of_offends hoffends]
      constructor
      · rintro ⟨⟩
        exact ⟨[], first, names, rfl, rfl, by rwa [List.append_nil]⟩
      · rintro ⟨front, name, rest, heq, hnone, hname⟩
        cases front with
        | nil =>
          cases heq
          rw [List.append_nil] at hname
          exact (outputFault?_cons_of_offends hoffends names).symm.trans
            (outputFault?_cons_of_offends hname names)
        | cons d front =>
          cases heq
          rw [outputFault?_cons_of_offends hoffends] at hnone
          cases hnone
    · rw [outputFault?_cons_of_fine hknown hnew, ih]
      constructor
      · rintro ⟨front, name, rest, rfl, hnone, hname⟩
        refine ⟨first :: front, name, rest, rfl, ?_, ?_⟩
        · rwa [outputFault?_cons_of_fine hknown hnew]
        · simpa using hname
      · rintro ⟨front, name, rest, heq, hnone, hname⟩
        cases front with
        | nil =>
          cases heq
          rw [List.append_nil] at hname
          exact absurd ⟨hknown, hnew⟩ hname.not_fine
        | cons d front =>
          cases heq
          rw [outputFault?_cons_of_fine hknown hnew] at hnone
          exact ⟨front, name, rest, rfl, hnone, by simpa using hname⟩

/-- The first offence among the output names, read off the group. -/
theorem outputFault?_nil_eq_some_iff :
    outputFault? inputs [] names = some fault ↔
      ∃ front name rest, names = front ++ name :: rest ∧ Allowed inputs front ∧
        Offends inputs front name fault := by
  rw [outputFault?_eq_some_iff]
  simp only [outputFault?_eq_none_iff, List.nil_append, List.not_mem_nil, not_false_eq_true,
    implies_true, and_true]

end OutputNames

/-! ## Groups around the arrow -/

/-- What groups before and after the arrow amount to, in the order in which it is decided. -/
theorem ofGroups_cases (inputs outputs : List (List String)) :
    (inputs = [] ∧ ofGroups inputs outputs = .error .noInputs) ∨
    (inputs ≠ [] ∧ outputs.length ≠ 1 ∧
      ofGroups inputs outputs = .error (.multipleOutputs outputs.length)) ∨
    (inputs ≠ [] ∧ ∃ front name rest fault, outputs = [front ++ name :: rest] ∧
      Allowed inputs front ∧ Offends inputs front name fault ∧
      ofGroups inputs outputs = .error fault) ∨
    (inputs ≠ [] ∧ ∃ output, outputs = [output] ∧ Allowed inputs output ∧
      ofGroups inputs outputs = .ok ⟨inputs, output⟩) := by
  cases inputs with
  | nil => exact .inl ⟨rfl, rfl⟩
  | cons input inputs =>
    right
    match outputs with
    | [] => exact .inl ⟨List.cons_ne_nil _ _, by simp, rfl⟩
    | first :: second :: others => exact .inl ⟨List.cons_ne_nil _ _, by simp, rfl⟩
    | [output] =>
      right
      cases hfault : outputFault? (input :: inputs) [] output with
      | some fault =>
        obtain ⟨front, name, rest, rfl, hfront, hname⟩ := outputFault?_nil_eq_some_iff.mp hfault
        refine .inl ⟨List.cons_ne_nil _ _, front, name, rest, fault, rfl, hfront, hname, ?_⟩
        simp only [ofGroups, hfault]
      | none =>
        refine .inr ⟨List.cons_ne_nil _ _, output, rfl, (outputFault?_eq_none_iff.mp hfault).1, ?_⟩
        simp only [ofGroups, hfault]

section OfGroups

variable {inputs outputs : List (List String)}

theorem ofGroups_eq_ok_iff {s : Signature} :
    ofGroups inputs outputs = .ok s ↔
      inputs ≠ [] ∧ s.inputs = inputs ∧ outputs = [s.output] ∧ Allowed inputs s.output := by
  obtain ⟨sInputs, sOutput⟩ := s
  rcases ofGroups_cases inputs outputs with ⟨rfl, h⟩ | ⟨hne, hcount, h⟩ |
    ⟨hne, front, name, rest, fault, rfl, hfront, hname, h⟩ | ⟨hne, output, rfl, hallowed, h⟩
  · simp [h]
  · rw [h]
    simp only [reduceCtorEq, false_iff]
    rintro ⟨-, -, rfl, -⟩
    exact hcount rfl
  · rw [h]
    simp only [reduceCtorEq, false_iff]
    rintro ⟨-, -, heq, hallowed⟩
    cases heq
    have hnone := outputFault?_eq_none_iff.mpr
      ⟨hallowed, fun name _ => List.not_mem_nil (a := name)⟩
    have hsome := outputFault?_nil_eq_some_iff.mpr ⟨front, name, rest, rfl, hfront, hname⟩
    rw [hnone] at hsome
    cases hsome
  · rw [h]
    simp only [Except.ok.injEq, Signature.mk.injEq, List.cons.injEq, and_true]
    constructor
    · rintro ⟨rfl, rfl⟩
      exact ⟨hne, rfl, rfl, hallowed⟩
    · rintro ⟨-, rfl, rfl, -⟩
      exact ⟨rfl, rfl⟩

theorem ofGroups_eq_noInputs_iff : ofGroups inputs outputs = .error .noInputs ↔ inputs = [] := by
  rcases ofGroups_cases inputs outputs with ⟨rfl, h⟩ | ⟨hne, -, h⟩ |
    ⟨hne, _, _, _, _, -, -, hname, h⟩ | ⟨hne, _, -, -, h⟩
  · simp [h]
  · simp [h, hne]
  · cases hname <;> simp [h, hne]
  · simp [h, hne]

theorem ofGroups_eq_multipleOutputs_iff {n : Nat} :
    ofGroups inputs outputs = .error (.multipleOutputs n) ↔
      inputs ≠ [] ∧ outputs.length = n ∧ n ≠ 1 := by
  rcases ofGroups_cases inputs outputs with ⟨rfl, h⟩ | ⟨hne, hcount, h⟩ |
    ⟨hne, _, _, _, _, rfl, -, hname, h⟩ | ⟨hne, _, rfl, -, h⟩
  · simp [h]
  · rw [h]
    simp only [Except.error.injEq, SignatureError.multipleOutputs.injEq]
    constructor
    · rintro rfl
      exact ⟨hne, rfl, hcount⟩
    · rintro ⟨-, rfl, -⟩
      rfl
  · cases hname <;> simp +contextual [h, eq_comm]
  · simp +contextual [h, eq_comm]

/-- An output name is to blame exactly if it is the leftmost one that offends a rule. -/
theorem ofGroups_eq_error_of_offends_iff {fault : SignatureError}
    (hinputs : fault ≠ .noInputs) (hcount : ∀ n, fault ≠ .multipleOutputs n) :
    ofGroups inputs outputs = .error fault ↔
      inputs ≠ [] ∧ ∃ front name rest, outputs = [front ++ name :: rest] ∧ Allowed inputs front ∧
        Offends inputs front name fault := by
  constructor
  · intro herror
    rcases ofGroups_cases inputs outputs with ⟨-, h⟩ | ⟨-, -, h⟩ |
      ⟨hne, front, name, rest, other, heq, hfront, hname, h⟩ | ⟨-, _, -, -, h⟩
    · rw [h, Except.error.injEq] at herror
      exact absurd herror.symm hinputs
    · rw [h, Except.error.injEq] at herror
      exact absurd herror.symm (hcount _)
    · rw [h] at herror
      cases herror
      exact ⟨hne, front, name, rest, heq, hfront, hname⟩
    · rw [h] at herror
      cases herror
  · rintro ⟨hne, front, name, rest, rfl, hfront, hname⟩
    obtain ⟨input, inputs, rfl⟩ := List.exists_cons_of_ne_nil hne
    have hsome := outputFault?_nil_eq_some_iff.mpr ⟨front, name, rest, rfl, hfront, hname⟩
    simp only [ofGroups, hsome]

end OfGroups

/-! ## Texts -/

section Parse

variable {text : String} {left right : List Char} {inputs outputs : List (List String)}

/-- A text that splits into lists of groups is judged by its groups. -/
theorem parse_of_splits (h : Splits (Text.compact text.toList) left right inputs outputs) :
    parse text = ofGroups inputs outputs := by
  rw [parse, readCompact, splitArrow_eq_some_iff.mpr h.arrow]
  simp only [readGroups_eq_ok_iff.mpr h.inputs, readGroups_eq_ok_iff.mpr h.outputs]

/-- A text that does not is malformed. -/
theorem parse_of_not_splits
    (h : ¬∃ left right inputs outputs, Splits (Text.compact text.toList) left right inputs outputs) :
    ∃ reason, parse text = .error (.malformed text reason) := by
  rw [parse, readCompact]
  cases harrow : splitArrow (Text.compact text.toList) with
  | none => exact ⟨_, rfl⟩
  | some sides =>
    obtain ⟨left, right⟩ := sides
    cases hleft : readGroups left with
    | error fault => exact ⟨fault.reason, by simp only [hleft]⟩
    | ok inputs =>
      cases hright : readGroups right with
      | error fault => exact ⟨fault.reason, by simp only [hleft, hright]⟩
      | ok outputs =>
        exact absurd ⟨left, right, inputs, outputs, splitArrow_eq_some_iff.mp harrow,
          readGroups_eq_ok_iff.mp hleft, readGroups_eq_ok_iff.mp hright⟩ h

theorem parse_eq_ok_iff {s : Signature} :
    parse text = .ok s ↔
      ∃ left right, Text.compact text.toList = left ++ '-' :: '>' :: right ∧
        Groups left s.inputs ∧ Group right s.output ∧ Allowed s.inputs s.output := by
  constructor
  · intro h
    by_cases hsplits :
        ∃ left right inputs outputs, Splits (Text.compact text.toList) left right inputs outputs
    · obtain ⟨left, right, inputs, outputs, hsplits⟩ := hsplits
      rw [parse_of_splits hsplits, ofGroups_eq_ok_iff] at h
      obtain ⟨hne, hinputs, rfl, hallowed⟩ := h
      subst hinputs
      have hleft : Groups left s.inputs := hsplits.inputs.resolve_left fun hnil => hne hnil.2
      have hright : Groups right [s.output] :=
        hsplits.outputs.resolve_left fun hnil => List.cons_ne_nil _ _ hnil.2
      refine ⟨left, right, hsplits.arrow.1, hleft, ?_, hallowed⟩
      generalize houtputs : [s.output] = outputs at hright
      cases hright with
      | one hgroup =>
        cases houtputs
        exact hgroup
      | more _ hmore =>
        cases houtputs
        exact absurd rfl hmore.ne_nil.2
    · obtain ⟨reason, herror⟩ := parse_of_not_splits hsplits
      rw [herror] at h
      cases h
  · rintro ⟨left, right, hcompact, hleft, hright, hallowed⟩
    have hsplits : Splits (Text.compact text.toList) left right s.inputs [s.output] :=
      ⟨hcompact ▸ firstArrow_of_not_mem hleft.dash_not_mem right, .inr hleft, .inr (.one hright)⟩
    rw [parse_of_splits hsplits, ofGroups_eq_ok_iff]
    exact ⟨hleft.ne_nil.2, rfl, rfl, hallowed⟩

/-- Only a text that does not split is malformed. -/
theorem parse_eq_malformed_iff :
    (∃ reason, parse text = .error (.malformed text reason)) ↔
      ¬∃ left right inputs outputs,
        Splits (Text.compact text.toList) left right inputs outputs := by
  refine ⟨?_, parse_of_not_splits⟩
  rintro ⟨reason, herror⟩ ⟨left, right, inputs, outputs, hsplits⟩
  rw [parse_of_splits hsplits] at herror
  rcases ofGroups_cases inputs outputs with ⟨-, h⟩ | ⟨-, -, h⟩ |
    ⟨-, _, _, _, _, -, -, hname, h⟩ | ⟨-, _, -, -, h⟩
  · simp [h] at herror
  · simp [h] at herror
  · cases hname <;> simp [h] at herror
  · simp [h] at herror

theorem left_eq_nil_iff {cs : List Char} (h : Splits cs left right inputs outputs) :
    inputs = [] ↔ left = [] := by
  rcases h.inputs with ⟨rfl, rfl⟩ | hgroups
  · simp
  · simp [hgroups.ne_nil]

end Parse

/-- **Reading decides the grammar.** With the white space taken out, a text is accepted exactly if it
consists of groups, an arrow and a group whose names are allowed, and it stands for these groups. A
text is malformed exactly if it has no arrow or one of the parts around the first arrow is not a
list of groups. Of all other texts, those with nothing before the arrow have no inputs; else those
with more or fewer groups than one after it have that many outputs; else the leftmost output name
that offends a rule is to blame, where a name that is in no input counts as such even if it has
occurred before. -/
theorem parse_decides_grammar (text : String) :
    (∀ s, parse text = .ok s ↔
      ∃ left right, Text.compact text.toList = left ++ '-' :: '>' :: right ∧
        Groups left s.inputs ∧ Group right s.output ∧
        (∀ name ∈ s.output, ∃ group ∈ s.inputs, name ∈ group) ∧ s.output.Nodup) ∧
    ((∃ reason, parse text = .error (.malformed text reason)) ↔
      ¬∃ left right inputs outputs, FirstArrow (Text.compact text.toList) left right ∧
        GroupList left inputs ∧ GroupList right outputs) ∧
    ∀ left right inputs outputs, FirstArrow (Text.compact text.toList) left right →
      GroupList left inputs → GroupList right outputs →
      (parse text = .error .noInputs ↔ left = []) ∧
      (∀ n, parse text = .error (.multipleOutputs n) ↔
        left ≠ [] ∧ outputs.length = n ∧ n ≠ 1) ∧
      (∀ name, parse text = .error (.outputOnlyDimension name) ↔
        left ≠ [] ∧ ∃ before after, outputs = [before ++ name :: after] ∧ Allowed inputs before ∧
          ∀ group ∈ inputs, name ∉ group) ∧
      ∀ name, parse text = .error (.repeatedOutputDimension name) ↔
        left ≠ [] ∧ ∃ before after, outputs = [before ++ name :: after] ∧ Allowed inputs before ∧
          (∃ group ∈ inputs, name ∈ group) ∧ name ∈ before := by
  refine ⟨fun s => ?_, ?_, fun left right inputs outputs harrow hinputs houtputs => ?_⟩
  · rw [parse_eq_ok_iff]
    constructor
    · rintro ⟨left, right, hcompact, hleft, hright, hallowed⟩
      exact ⟨left, right, hcompact, hleft, hright, hallowed.declared, hallowed.nodup⟩
    · rintro ⟨left, right, hcompact, hleft, hright, hdeclared, hnodup⟩
      exact ⟨left, right, hcompact, hleft, hright, hdeclared, hnodup⟩
  · rw [parse_eq_malformed_iff]
    refine not_congr ⟨?_, ?_⟩
    · rintro ⟨left, right, inputs, outputs, hsplits⟩
      exact ⟨left, right, inputs, outputs, hsplits.arrow, hsplits.inputs, hsplits.outputs⟩
    · rintro ⟨left, right, inputs, outputs, harrow, hinputs, houtputs⟩
      exact ⟨left, right, inputs, outputs, harrow, hinputs, houtputs⟩
  · have hsplits : Splits (Text.compact text.toList) left right inputs outputs :=
      ⟨harrow, hinputs, houtputs⟩
    have hleft := left_eq_nil_iff hsplits
    rw [parse_of_splits hsplits]
    refine ⟨ofGroups_eq_noInputs_iff.trans hleft, fun n => ?_, fun name => ?_, fun name => ?_⟩
    · rw [ofGroups_eq_multipleOutputs_iff, ne_eq, hleft]
    · rw [ofGroups_eq_error_of_offends_iff (by simp) (by simp), ne_eq, hleft]
      refine and_congr_right fun _ => ⟨?_, ?_⟩
      · rintro ⟨before, _, after, houtput, hbefore, hname⟩
        cases hname with
        | undeclared hunknown => exact ⟨before, after, houtput, hbefore, hunknown⟩
      · rintro ⟨before, after, houtput, hbefore, hunknown⟩
        exact ⟨before, name, after, houtput, hbefore, .undeclared hunknown⟩
    · rw [ofGroups_eq_error_of_offends_iff (by simp) (by simp), ne_eq, hleft]
      refine and_congr_right fun _ => ⟨?_, ?_⟩
      · rintro ⟨before, _, after, houtput, hbefore, hname⟩
        cases hname with
        | repeated hknown hmem => exact ⟨before, after, houtput, hbefore, hknown, hmem⟩
      · rintro ⟨before, after, houtput, hbefore, hknown, hmem⟩
        exact ⟨before, name, after, houtput, hbefore, .repeated hknown hmem⟩

/-- White space inside the arrow and inside a name, and an output in which an undeclared name stands
before one that occurs twice. -/
theorem parse_decides_grammar_before_repetition :
    FirstArrow (Text.compact "(m, n n),\u3000(m)- >(m,k,m)".toList) "(m,nn),(m)".toList
        "(m,k,m)".toList ∧
      parse "(m, n n),\u3000(m)- >(m,k,m)" = .error (.outputOnlyDimension "k") := by
  have harrow : FirstArrow (Text.compact "(m, n n),\u3000(m)- >(m,k,m)".toList)
      "(m,nn),(m)".toList "(m,k,m)".toList := splitArrow_eq_some_iff.mp (by cbv)
  have hinputs : GroupList "(m,nn),(m)".toList [["m", "nn"], ["m"]] :=
    readGroups_eq_ok_iff.mp (by cbv)
  have houtputs : GroupList "(m,k,m)".toList [["m", "k", "m"]] := readGroups_eq_ok_iff.mp (by cbv)
  obtain ⟨-, -, hundeclared, -⟩ :=
    (parse_decides_grammar "(m, n n),\u3000(m)- >(m,k,m)").2.2 _ _ _ _ harrow hinputs houtputs
  refine ⟨harrow, (hundeclared "k").mpr ⟨by decide, ["m"], ["m"], rfl, ⟨?_, by decide⟩, by decide⟩⟩
  intro name hname
  rw [List.mem_singleton.mp hname]
  exact ⟨["m", "nn"], by decide, by decide⟩

end Signature

end ArrayKernels
