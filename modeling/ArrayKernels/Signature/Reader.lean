import ArrayKernels.Signature
import ArrayKernels.Error
import ArrayKernels.Text.Blank
import ArrayKernels.Text.Split

/-!
# Reading signatures

White space is taken out first, wherever it stands. What is left has to be two lists of groups with
`->` between them, at least one group before it and exactly one after it. A group is a list of names
between parentheses. Every name of the output has to occur in some input, and only once in the
output.
-/

namespace ArrayKernels

/-! ## Groups of names -/

/-- Why a list of groups cannot be read. -/
inductive GroupFault where
  /-- A group does not start with a parenthesis. -/
  | expectedOpen (rest : List Char)
  /-- A group has no closing parenthesis. -/
  | unbalanced
  /-- A name is not an identifier. -/
  | invalidName (name : List Char)
  /-- The list ends with a comma. -/
  | trailingComma
  /-- A group is followed by something other than a comma. -/
  | unexpected (rest : List Char)
deriving DecidableEq

/-- The wording of the fault. -/
def GroupFault.reason : GroupFault → String
  | expectedOpen rest => "expected '(' at '" ++ String.ofList rest ++ "'"
  | unbalanced => "unbalanced parentheses"
  | invalidName name => "invalid dimension name '" ++ String.ofList name ++ "'"
  | trailingComma => "trailing ','"
  | unexpected rest => "unexpected '" ++ String.ofList rest ++ "'"

/-- Whether the character can start a name. -/
def isNameStart (c : Char) : Bool := c.isAlpha || c == '_'

/-- Whether the character can stand inside a name. -/
def isNameChar (c : Char) : Bool := c.isAlphanum || c == '_'

/-- Whether the characters form a name: a letter or an underscore, and then letters, digits and
underscores, all of them in the ASCII range. -/
def isName : List Char → Bool
  | [] => false
  | c :: cs => isNameStart c && cs.all isNameChar

/-- The names, or the first part that is none. -/
def checkNames : List (List Char) → Except GroupFault (List String)
  | [] => .ok []
  | part :: parts =>
    if isName part then (checkNames parts).map (String.ofList part :: ·)
    else .error (.invalidName part)

/-- The names between two parentheses. -/
def readNames (inside : List Char) : Except GroupFault (List String) :=
  match inside with
  | [] => .ok []
  | _ :: _ => checkNames (Text.splitAtChar ',' inside)

/-- The first group, and the text after it. -/
def readGroup : List Char → Except GroupFault (List String × List Char)
  | '(' :: inside =>
    match inside.dropWhile (· ≠ ')') with
    | [] => .error .unbalanced
    | _ :: after => (readNames (inside.takeWhile (· ≠ ')'))).map (·, after)
  | rest => .error (.expectedOpen rest)

/-- A group that has been read is not empty, so less text is left. -/
theorem length_lt_of_readGroup {cs after : List Char} {group : List String}
    (h : readGroup cs = .ok (group, after)) : after.length < cs.length := by
  unfold readGroup at h
  split at h
  · next inside =>
    split at h
    · cases h
    · next c rest hdrop =>
      have hle := (List.dropWhile_sublist (· ≠ ')') (l := inside)).length_le
      rw [hdrop] at hle
      cases hnames : readNames (inside.takeWhile (· ≠ ')')) with
      | error fault => rw [hnames] at h; cases h
      | ok names =>
        rw [hnames] at h
        cases h
        simp only [List.length_cons] at hle ⊢
        omega
  · cases h

/-- The groups of a list. An empty text is the empty list. -/
def readGroups (cs : List Char) : Except GroupFault (List (List String)) :=
  match cs with
  | [] => .ok []
  | c :: cs =>
    match _h : readGroup (c :: cs) with
    | .error fault => .error fault
    | .ok (group, []) => .ok [group]
    | .ok (_, [',']) => .error .trailingComma
    | .ok (group, ',' :: d :: more) => (readGroups (d :: more)).map (group :: ·)
    | .ok (_, rest) => .error (.unexpected rest)
termination_by cs.length
decreasing_by
  have hlt := length_lt_of_readGroup _h
  simp only [List.length_cons] at hlt ⊢
  omega

/-! ## Signatures -/

/-- The text before the first arrow and the text after it. -/
def splitArrow : List Char → Option (List Char × List Char)
  | '-' :: '>' :: rest => some ([], rest)
  | [] => none
  | c :: cs => (splitArrow cs).map fun (left, right) => (c :: left, right)

namespace Signature

/-- The first fault of the output names: one that no input has, or one that came before. -/
def outputFault? (inputs : List (List String)) (before : List String) :
    List String → Option SignatureError
  | [] => none
  | name :: names =>
    if !inputs.any (·.contains name) then some (.outputOnlyDimension name)
    else if name ∈ before then some (.repeatedOutputDimension name)
    else outputFault? inputs (before ++ [name]) names

/-- The signature with those groups, if they form one. -/
def ofGroups (inputs outputs : List (List String)) : Except SignatureError Signature :=
  match inputs, outputs with
  | [], _ => .error .noInputs
  | _ :: _, [output] =>
    match outputFault? inputs [] output with
    | some fault => .error fault
    | none => .ok ⟨inputs, output⟩
  | _ :: _, outputs => .error (.multipleOutputs outputs.length)

/-- The signature that a text without white space stands for. `text` is what errors quote. -/
def readCompact (text : String) (cs : List Char) : Except SignatureError Signature :=
  match splitArrow cs with
  | none => .error (.malformed text "missing '->'")
  | some (left, right) =>
    match readGroups left, readGroups right with
    | .error fault, _ => .error (.malformed text fault.reason)
    | .ok _, .error fault => .error (.malformed text fault.reason)
    | .ok inputs, .ok outputs => ofGroups inputs outputs

/-- The signature that a text stands for. -/
def parse (text : String) : Except SignatureError Signature :=
  readCompact text (Text.compact text.toList)

end Signature

end ArrayKernels
