import ArrayKernels.Signature.Reader
import Mathlib.Data.List.Basic

/-!
# The grammar of signatures

The parts of a signature as a grammar, over texts without white space. The reader of a group looks
for a closing parenthesis and splits what stands before it at commas; the reader of a list of groups
takes one comma after each group. Here they are shown to accept the grammar and nothing else.

## Layers

- **Grammar**: identifiers, names, groups and lists of groups, each as a relation between a text and
  what it stands for.
- **Reading parts**: one lemma per reader, each an equivalence with its part of the grammar.

## Main results

- `readGroups_eq_ok_iff`: the lists of groups that are read are those of the grammar.
- `splitArrow_eq_some_iff`: a text is cut at its first arrow.
-/

namespace ArrayKernels

/-! ## Grammar -/

namespace SignatureGrammar

/-- A letter of the ASCII range or an underscore. -/
def Letter (c : Char) : Prop := ('A' ≤ c ∧ c ≤ 'Z') ∨ ('a' ≤ c ∧ c ≤ 'z') ∨ c = '_'

/-- A digit of the ASCII range. -/
def Digit (c : Char) : Prop := '0' ≤ c ∧ c ≤ '9'

/-- A letter, and then letters and digits. -/
inductive Identifier : List Char → Prop where
  | mk {c : Char} {cs : List Char} (first : Letter c) (others : ∀ d ∈ cs, Letter d ∨ Digit d) :
    Identifier (c :: cs)

/-- Identifiers with commas between them. -/
inductive Names : List Char → List String → Prop where
  | one {cs : List Char} : Identifier cs → Names cs [String.ofList cs]
  | more {cs rest : List Char} {names : List String} :
    Identifier cs → Names rest names → Names (cs ++ ',' :: rest) (String.ofList cs :: names)

/-- A pair of parentheses, with names between them or with nothing. -/
inductive Group : List Char → List String → Prop where
  | empty : Group ['(', ')'] []
  | named {cs : List Char} {names : List String} :
    Names cs names → Group ('(' :: cs ++ [')']) names

/-- Groups with commas between them. -/
inductive Groups : List Char → List (List String) → Prop where
  | one {cs : List Char} {group : List String} : Group cs group → Groups cs [group]
  | more {cs rest : List Char} {group : List String} {groups : List (List String)} :
    Group cs group → Groups rest groups → Groups (cs ++ ',' :: rest) (group :: groups)

/-- Nothing, or groups with commas between them. -/
def GroupList (cs : List Char) (groups : List (List String)) : Prop :=
  (cs = [] ∧ groups = []) ∨ Groups cs groups

/-- The parts of a text before and after its first arrow. -/
def FirstArrow (cs left right : List Char) : Prop :=
  cs = left ++ '-' :: '>' :: right ∧
    ∀ left' right', cs = left' ++ '-' :: '>' :: right' → left.length ≤ left'.length

/-- The text has an arrow, and the parts around the first one are lists of groups. -/
structure Splits (cs left right : List Char) (inputs outputs : List (List String)) : Prop where
  arrow : FirstArrow cs left right
  inputs : GroupList left inputs
  outputs : GroupList right outputs

end SignatureGrammar

open SignatureGrammar

/-! ## Identifiers -/

private theorem isUpper_iff {c : Char} : c.isUpper = true ↔ 'A' ≤ c ∧ c ≤ 'Z' :=
  decide_eq_true_iff

private theorem isLower_iff {c : Char} : c.isLower = true ↔ 'a' ≤ c ∧ c ≤ 'z' := by
  show (decide _ && decide _) = true ↔ _
  rw [Bool.and_eq_true, decide_eq_true_iff, decide_eq_true_iff]
  exact Iff.rfl

private theorem isDigit_iff {c : Char} : c.isDigit = true ↔ Digit c := by
  show (decide _ && decide _) = true ↔ _
  rw [Bool.and_eq_true, decide_eq_true_iff, decide_eq_true_iff]
  exact Iff.rfl

theorem isNameStart_iff {c : Char} : isNameStart c = true ↔ Letter c := by
  show ((c.isUpper || c.isLower) || c == '_') = true ↔ _
  rw [Bool.or_eq_true, Bool.or_eq_true, isUpper_iff, isLower_iff, beq_iff_eq, or_assoc]
  exact Iff.rfl

theorem isNameChar_iff {c : Char} : isNameChar c = true ↔ Letter c ∨ Digit c := by
  rw [← isNameStart_iff, ← isDigit_iff]
  simp only [isNameChar, isNameStart, Char.isAlphanum, Bool.or_eq_true, or_right_comm]

theorem isName_iff {cs : List Char} : isName cs = true ↔ Identifier cs := by
  cases cs with
  | nil =>
    simp only [isName, Bool.false_eq_true, false_iff]
    rintro ⟨⟩
  | cons c cs =>
    simp only [isName, Bool.and_eq_true, List.all_eq_true, isNameStart_iff, isNameChar_iff]
    constructor
    · rintro ⟨hfirst, hothers⟩
      exact ⟨hfirst, hothers⟩
    · rintro ⟨hfirst, hothers⟩
      exact ⟨hfirst, hothers⟩

/-- Identifiers have no punctuation in them. -/
theorem SignatureGrammar.Identifier.not_mem {cs : List Char} (h : Identifier cs) {mark : Char}
    (hmark : isNameChar mark = false) : mark ∉ cs := by
  obtain ⟨hfirst, hothers⟩ := h
  intro hmem
  rcases List.mem_cons.mp hmem with rfl | hmem
  · rw [isNameChar_iff.mpr (.inl hfirst)] at hmark
    cases hmark
  · rw [isNameChar_iff.mpr (hothers mark hmem)] at hmark
    cases hmark

/-! ## Names -/

namespace Text

theorem splitAtChar_ne_nil (mark : Char) (cs : List Char) : splitAtChar mark cs ≠ [] := by
  cases cs with
  | nil => exact List.cons_ne_nil _ _
  | cons c cs =>
    rw [splitAtChar]
    split
    · exact List.cons_ne_nil _ _
    · split <;> exact List.cons_ne_nil _ _

theorem splitAtChar_of_not_mem {mark : Char} {cs : List Char} (h : mark ∉ cs) :
    splitAtChar mark cs = [cs] := by
  induction cs with
  | nil => rfl
  | cons c cs ih =>
    rw [List.mem_cons, not_or] at h
    rw [splitAtChar, if_neg (Ne.symm h.1), ih h.2]

theorem splitAtChar_append {mark : Char} {cs : List Char} (h : mark ∉ cs) (rest : List Char) :
    splitAtChar mark (cs ++ mark :: rest) = cs :: splitAtChar mark rest := by
  induction cs with
  | nil => rw [List.nil_append, splitAtChar, if_pos rfl]
  | cons c cs ih =>
    rw [List.mem_cons, not_or] at h
    rw [List.cons_append, splitAtChar, if_neg (Ne.symm h.1), ih h.2]

/-- A text consists of the parts between its marks. -/
theorem eq_of_splitAtChar {mark : Char} {cs part : List Char} {parts : List (List Char)}
    (h : splitAtChar mark cs = part :: parts) :
    (parts = [] ∧ cs = part) ∨ ∃ rest, cs = part ++ mark :: rest ∧ splitAtChar mark rest = parts := by
  induction cs generalizing part with
  | nil =>
    cases h
    exact .inl ⟨rfl, rfl⟩
  | cons c cs ih =>
    rw [splitAtChar] at h
    split at h
    · next hmark =>
      cases h
      exact .inr ⟨cs, by rw [hmark]; rfl, rfl⟩
    · split at h
      · next hnil => exact absurd hnil (splitAtChar_ne_nil mark cs)
      · next first others hparts =>
        cases h
        rcases ih hparts with ⟨rfl, rfl⟩ | ⟨rest, rfl, hrest⟩
        · exact .inl ⟨rfl, rfl⟩
        · exact .inr ⟨rest, rfl, hrest⟩

end Text

theorem checkNames_cons_eq_ok_iff {part : List Char} {parts : List (List Char)}
    {names : List String} :
    checkNames (part :: parts) = .ok names ↔
      ∃ others, Identifier part ∧ checkNames parts = .ok others ∧
        names = String.ofList part :: others := by
  rw [checkNames]
  split
  · next hname =>
    cases checkNames parts with
    | error fault => simp [Except.map]
    | ok others => simp [Except.map, isName_iff.mp hname, eq_comm]
  · next hname =>
    simp only [reduceCtorEq, false_iff]
    rintro ⟨_, hpart, _⟩
    exact hname (isName_iff.mpr hpart)

/-- The parts between commas are names exactly if the text is a list of names. -/
theorem checkNames_eq_ok_iff {cs : List Char} {names : List String} :
    checkNames (Text.splitAtChar ',' cs) = .ok names ↔ Names cs names := by
  constructor
  · intro h
    obtain ⟨part, parts, hparts⟩ := List.exists_cons_of_ne_nil (Text.splitAtChar_ne_nil ',' cs)
    rw [hparts] at h
    induction parts generalizing cs part names with
    | nil =>
      obtain ⟨others, hpart, hothers, rfl⟩ := checkNames_cons_eq_ok_iff.mp h
      cases hothers
      rcases Text.eq_of_splitAtChar hparts with ⟨-, rfl⟩ | ⟨rest, -, hrest⟩
      · exact .one hpart
      · exact absurd hrest (Text.splitAtChar_ne_nil ',' rest)
    | cons second parts ih =>
      obtain ⟨others, hpart, hothers, rfl⟩ := checkNames_cons_eq_ok_iff.mp h
      rcases Text.eq_of_splitAtChar hparts with ⟨hnil, -⟩ | ⟨rest, rfl, hrest⟩
      · cases hnil
      · exact .more hpart (ih second hothers hrest)
  · intro h
    induction h with
    | one hid =>
      rw [Text.splitAtChar_of_not_mem (hid.not_mem (by decide))]
      exact checkNames_cons_eq_ok_iff.mpr ⟨[], hid, rfl, rfl⟩
    | more hid _ ih =>
      rw [Text.splitAtChar_append (hid.not_mem (by decide))]
      exact checkNames_cons_eq_ok_iff.mpr ⟨_, hid, ih, rfl⟩

theorem SignatureGrammar.Names.ne_nil {cs : List Char} {names : List String} (h : Names cs names) :
    cs ≠ [] := by
  cases h with
  | one hid =>
    cases hid
    exact List.cons_ne_nil _ _
  | more => simp

/-- The only punctuation of a list of names is the comma. -/
theorem SignatureGrammar.Names.not_mem {cs : List Char} {names : List String}
    (h : Names cs names) {mark : Char} (hmark : isNameChar mark = false) (hcomma : mark ≠ ',') :
    mark ∉ cs := by
  induction h with
  | one hid => exact hid.not_mem hmark
  | more hid _ ih =>
    have hfirst := hid.not_mem hmark
    simp [hfirst, ih, hcomma]

theorem readNames_eq_ok_iff {inside : List Char} {names : List String} :
    readNames inside = .ok names ↔ (inside = [] ∧ names = []) ∨ Names inside names := by
  cases inside with
  | nil =>
    simp only [readNames, Except.ok.injEq, true_and]
    constructor
    · rintro rfl
      exact .inl rfl
    · rintro (rfl | h)
      · rfl
      · exact absurd rfl h.ne_nil
  | cons c cs => simp [readNames, checkNames_eq_ok_iff]

/-! ## Groups -/

/-- A group ends at the first closing parenthesis. -/
theorem readGroup_eq_ok_iff {cs after : List Char} {group : List String} :
    readGroup cs = .ok (group, after) ↔ ∃ text, Group text group ∧ cs = text ++ after := by
  constructor
  · intro h
    unfold readGroup at h
    split at h
    · next inside =>
      split at h
      · cases h
      · next close rest hdrop =>
        obtain ⟨names, hnames, heq⟩ : ∃ names, readNames (inside.takeWhile (· ≠ ')')) = .ok names ∧
            (names, rest) = (group, after) := by
          cases hnames : readNames (inside.takeWhile (· ≠ ')')) with
          | error fault => rw [hnames] at h; cases h
          | ok names =>
            rw [hnames] at h
            exact ⟨names, rfl, Except.ok.inj h⟩
        cases heq
        -- what the search stopped at is the parenthesis
        have hclose : close = ')' := by
          have hhead := List.head?_dropWhile_not (· ≠ ')') inside
          rw [hdrop] at hhead
          simpa using hhead
        have hinside : inside = inside.takeWhile (· ≠ ')') ++ ')' :: after := by
          have happend := List.takeWhile_append_dropWhile (p := (· ≠ ')')) (l := inside)
          rw [hdrop, hclose] at happend
          exact happend.symm
        rcases readNames_eq_ok_iff.mp hnames with ⟨hnil, rfl⟩ | hnamed
        · rw [hnil] at hinside
          exact ⟨_, .empty, by rw [hinside]; rfl⟩
        · refine ⟨_, .named hnamed, ?_⟩
          rw [List.append_assoc, List.singleton_append, List.cons_append, ← hinside]
    · cases h
  · rintro ⟨text, hgroup, rfl⟩
    cases hgroup with
    | empty => rfl
    | @named inside _ hnames =>
      have hall : ∀ c ∈ inside, (decide (c ≠ ')')) = true := by
        intro c hc
        rw [decide_eq_true_iff]
        rintro rfl
        exact hnames.not_mem (by decide) (by decide) hc
      have hread : readNames inside = .ok group := readNames_eq_ok_iff.mpr (.inr hnames)
      simp only [List.cons_append, List.append_assoc, readGroup,
        List.dropWhile_append_of_pos hall, List.takeWhile_append_of_pos hall]
      simp [hread, Except.map]

theorem SignatureGrammar.Group.ne_nil {cs : List Char} {group : List String} (h : Group cs group) :
    cs ≠ [] := by
  cases h <;> exact List.cons_ne_nil _ _

theorem SignatureGrammar.Groups.ne_nil {cs : List Char} {groups : List (List String)}
    (h : Groups cs groups) : cs ≠ [] ∧ groups ≠ [] := by
  cases h with
  | one hgroup => exact ⟨hgroup.ne_nil, List.cons_ne_nil _ _⟩
  | more hgroup _ => exact ⟨by simp, List.cons_ne_nil _ _⟩

private theorem readGroups_of_last {cs : List Char} {group : List String}
    (h : readGroup cs = .ok (group, [])) : readGroups cs = .ok [group] := by
  cases cs with
  | nil => cases h
  | cons c cs =>
    rw [readGroups]
    split <;> simp_all

private theorem readGroups_of_more {cs rest : List Char} {group : List String}
    (h : readGroup cs = .ok (group, ',' :: rest)) (hrest : rest ≠ []) :
    readGroups cs = (readGroups rest).map (group :: ·) := by
  obtain ⟨d, more, rfl⟩ := List.exists_cons_of_ne_nil hrest
  cases cs with
  | nil => cases h
  | cons c cs =>
    rw [readGroups]
    split <;> simp_all

/-- **The lists of groups that are read are those of the grammar.** -/
theorem readGroups_eq_ok_iff {cs : List Char} {groups : List (List String)} :
    readGroups cs = .ok groups ↔ GroupList cs groups := by
  constructor
  · intro h
    fun_induction readGroups cs generalizing groups with
    | case1 =>
      cases h
      exact .inl ⟨rfl, rfl⟩
    | case2 c cs fault hfault => cases h
    | case3 c cs group hgroup =>
      -- the last group
      cases h
      obtain ⟨text, htext, heq⟩ := readGroup_eq_ok_iff.mp hgroup
      rw [List.append_nil] at heq
      exact .inr (heq ▸ .one htext)
    | case4 c cs group hgroup => cases h
    | case5 c cs group d more hgroup ih =>
      -- a group, a comma and more groups
      obtain ⟨text, htext, heq⟩ := readGroup_eq_ok_iff.mp hgroup
      cases hmore : readGroups (d :: more) with
      | error fault => rw [hmore] at h; cases h
      | ok others =>
        rw [hmore] at h
        cases h
        rcases ih hmore with ⟨hnil, -⟩ | hothers
        · cases hnil
        · exact .inr (heq ▸ .more htext hothers)
    | case6 => cases h
  · rintro (⟨rfl, rfl⟩ | h)
    · rw [readGroups]
    · induction h with
      | one hgroup =>
        exact readGroups_of_last (readGroup_eq_ok_iff.mpr ⟨_, hgroup, (List.append_nil _).symm⟩)
      | more hgroup hgroups ih =>
        rw [readGroups_of_more (readGroup_eq_ok_iff.mpr ⟨_, hgroup, rfl⟩) hgroups.ne_nil.1, ih]
        rfl

/-! ## The arrow -/

/-- Splitting finds the first arrow. -/
theorem splitArrow_eq_some_iff {cs left right : List Char} :
    splitArrow cs = some (left, right) ↔ FirstArrow cs left right := by
  fun_induction splitArrow cs generalizing left right with
  | case1 rest =>
    simp only [Option.some.injEq, Prod.mk.injEq, FirstArrow]
    constructor
    · rintro ⟨rfl, rfl⟩
      exact ⟨rfl, by simp⟩
    · rintro ⟨heq, hfirst⟩
      have hle := hfirst [] rest rfl
      obtain rfl : left = [] := List.length_eq_zero_iff.mp (Nat.le_zero.mp hle)
      simpa using heq
  | case2 =>
    simp [FirstArrow]
  | case3 c cs hne ih =>
    simp only [Option.map_eq_some_iff, Prod.mk.injEq, Prod.exists, ih]
    constructor
    · rintro ⟨left, right, ⟨rfl, hfirst⟩, rfl, rfl⟩
      refine ⟨rfl, fun left' right' heq => ?_⟩
      cases left' with
      | nil =>
        -- the text does not begin with an arrow
        simp only [List.nil_append, List.cons.injEq] at heq
        exact (hne right' heq.1 heq.2).elim
      | cons d left' =>
        simp only [List.cons_append, List.cons.injEq] at heq
        exact Nat.succ_le_succ (hfirst left' right' heq.2)
    · rintro ⟨heq, hfirst⟩
      cases left with
      | nil =>
        simp only [List.nil_append, List.cons.injEq] at heq
        exact (hne right heq.1 heq.2).elim
      | cons d left =>
        simp only [List.cons_append, List.cons.injEq] at heq
        obtain ⟨rfl, rfl⟩ := heq
        refine ⟨left, right, ⟨rfl, fun left' right' heq => ?_⟩, rfl, rfl⟩
        exact Nat.le_of_succ_le_succ (hfirst (c :: left') right' (by rw [heq]; rfl))

/-- No arrow begins inside a group. -/
theorem SignatureGrammar.Group.dash_not_mem {cs : List Char} {group : List String}
    (h : Group cs group) : '-' ∉ cs := by
  cases h with
  | empty => decide
  | named hnames =>
    have hinside : '-' ∉ _ := hnames.not_mem (by decide) (by decide)
    simp [hinside]

theorem SignatureGrammar.Groups.dash_not_mem {cs : List Char} {groups : List (List String)}
    (h : Groups cs groups) : '-' ∉ cs := by
  induction h with
  | one hgroup => exact hgroup.dash_not_mem
  | more hgroup _ ih =>
    have hfirst := hgroup.dash_not_mem
    simp [hfirst, ih]

theorem firstArrow_of_not_mem {left : List Char} (h : '-' ∉ left) (right : List Char) :
    FirstArrow (left ++ '-' :: '>' :: right) left right := by
  refine ⟨rfl, ?_⟩
  induction left with
  | nil => simp
  | cons c left ih =>
    rw [List.mem_cons, not_or] at h
    intro left' right' heq
    cases left' with
    | nil =>
      simp only [List.cons_append, List.nil_append, List.cons.injEq] at heq
      exact absurd heq.1.symm h.1
    | cons d left' =>
      simp only [List.cons_append, List.cons.injEq] at heq
      exact Nat.succ_le_succ (ih h.2 left' right' heq.2)

end ArrayKernels
