import ArrayKernels.Text.Quoted

/-!
# Outlines

A description of a value as a tree: texts, and groups of labelled members inside brackets. An
outline is written on one line, or with every member on a line of its own, indented by four blanks
for each group around it.
-/

namespace ArrayKernels.Text

/-! ## Trees -/

/-- The brackets of a group. -/
inductive Enclosure where
  /-- Braces, with a blank inside each when all is on one line. -/
  | record
  /-- Braces. -/
  | map
  /-- Parentheses. -/
  | tuple
deriving DecidableEq

mutual

/-- A description of a value. -/
inductive Outline where
  | text (chars : List Char)
  | group (name : List Char) (enclosure : Enclosure) (members : Members)

/-- The members of a group, each with a label before it. -/
inductive Members where
  | done
  | member (label : List Char) (value : Outline) (next : Members)

end

/-- Members from a list. -/
def Members.ofList : List (List Char × Outline) → Members
  | [] => .done
  | (label, value) :: rest => .member label value (ofList rest)

/-! ## Kinds of values -/

/-- A text between quotes. -/
def Outline.quoted (text : String) : Outline := .text (quote text)

/-- A word. -/
def Outline.word (text : String) : Outline := .text text.toList

/-- The members of a record. -/
def Members.ofFields (fields : List (String × Outline)) : Members :=
  .ofList (fields.map fun (name, value) => (name.toList ++ [':', ' '], value))

/-- A record with named fields. -/
def Outline.record (name : String) (fields : List (String × Outline)) : Outline :=
  .group name.toList .record (.ofFields fields)

/-- A map from keys to values. -/
def Outline.map (entries : List (List Char × Outline)) : Outline :=
  .group [] .map (.ofList (entries.map fun (key, value) => (key ++ [':', ' '], value)))

/-- A constructor with one value. -/
def Outline.tagged (name : String) (value : Outline) : Outline :=
  .group name.toList .tuple (.ofList [([], value)])

/-- A value that may be missing. -/
def Outline.optional : Option Outline → Outline
  | none => word "None"
  | some value => tagged "Some" value

/-! ## Brackets -/

namespace Enclosure

/-- The opening bracket. -/
def opening : Enclosure → Char
  | record => '\x7b'
  | map => '\x7b'
  | tuple => '('

/-- The closing bracket. -/
def closing : Enclosure → Char
  | record => '\x7d'
  | map => '\x7d'
  | tuple => ')'

/-- What stands before the opening bracket, and around the members on one line. -/
def padding : Enclosure → List Char
  | record => [' ']
  | map => []
  | tuple => []

end Enclosure

/-! ## One line -/

mutual

/-- The description on one line. -/
def Outline.inline : Outline → List Char
  | .text chars => chars
  | .group name enclosure members =>
    name ++ enclosure.padding ++ enclosure.opening :: enclosure.padding ++ members.inline
      ++ enclosure.padding ++ [enclosure.closing]

/-- The members on one line, with commas between them. -/
def Members.inline : Members → List Char
  | .done => []
  | .member label value .done => label ++ value.inline
  | .member label value (.member label' value' next) =>
    label ++ value.inline ++ ',' :: ' ' :: Members.inline (.member label' value' next)

end

/-! ## Many lines -/

/-- The blanks at the start of a line. -/
def indentation (depth : Nat) : List Char := List.replicate (4 * depth) ' '

/-- Whether there are no members. -/
def Members.isEmpty : Members → Bool
  | .done => true
  | .member _ _ _ => false

mutual

/-- The description over many lines, the last of which is at a depth. -/
def Outline.spread (depth : Nat) : Outline → List Char
  | .text chars => chars
  | .group name enclosure members =>
    let inside := if members.isEmpty then [] else members.spread depth ++ '\n' :: indentation depth
    name ++ enclosure.padding ++ enclosure.opening :: inside ++ [enclosure.closing]

/-- The members of a group whose last line is at a depth, each on a line of its own and with a comma
after it. -/
def Members.spread (depth : Nat) : Members → List Char
  | .done => []
  | .member label value next =>
    '\n' :: indentation (depth + 1) ++ label ++ value.spread (depth + 1) ++ ',' ::
      next.spread depth

end

end ArrayKernels.Text
