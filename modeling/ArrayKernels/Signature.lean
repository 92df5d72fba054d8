/-!
# Signatures

A signature such as `(m,n),(n,p)->(m,p)` names the core dimensions of every input and of the single
output of a core function. Dimensions of one name have one extent.
-/

namespace ArrayKernels

/-- The dimension names of the inputs and of the output. -/
structure Signature where
  inputs : List (List String)
  output : List String
deriving DecidableEq

namespace Signature

/-- The names of the inputs and then of the output, with their repetitions. -/
def occurrences (s : Signature) : List String := s.inputs.flatten ++ s.output

/-- The names without repetitions, in the order in which they first appear. -/
def dimensions (s : Signature) : List String := s.occurrences.eraseDups

/-! ## Written form -/

/-- The names with commas between them. -/
def spellNames : List String → List Char
  | [] => []
  | [name] => name.toList
  | name :: names => name.toList ++ ',' :: spellNames names

/-- The names between parentheses. -/
def spellGroup (names : List String) : List Char := '(' :: spellNames names ++ [')']

/-- The groups with commas between them. -/
def spellGroups : List (List String) → List Char
  | [] => []
  | [group] => spellGroup group
  | group :: groups => spellGroup group ++ ',' :: spellGroups groups

/-- The written form of a signature, without white space. -/
def spell (s : Signature) : List Char :=
  spellGroups s.inputs ++ '-' :: '>' :: spellGroup s.output

/-- The written form of a signature as a text. -/
def render (s : Signature) : String := String.ofList s.spell

end Signature

end ArrayKernels
