/-!
# Writing JSON

Compact JSON text of flat records. In a string the quote, the backslash and the control characters
are escaped, the common ones by a letter and the others by their code; all else stands as it is.
-/

namespace ArrayKernels.Json

/-- The digit of a number below sixteen. -/
def hexDigit (n : Nat) : Char := (Nat.digitChar n)

/-- The characters of a string that stand for one character. -/
def escapeChar (c : Char) : List Char :=
  if c = '"' then ['\\', '"']
  else if c = '\\' then ['\\', '\\']
  else if c = '\n' then ['\\', 'n']
  else if c = '\r' then ['\\', 'r']
  else if c = '\t' then ['\\', 't']
  else if c.toNat = 8 then ['\\', 'b']
  else if c.toNat = 12 then ['\\', 'f']
  else if c.toNat < 32 then
    ['\\', 'u', '0', '0', hexDigit (c.toNat / 16), hexDigit (c.toNat % 16)]
  else [c]

/-- A string between quotes. -/
def writeString (s : String) : List Char := '"' :: s.toList.flatMap escapeChar ++ ['"']

/-- A value of a flat record. -/
inductive Field where
  | text (value : String)
  | number (value : Nat)
  | truth (value : Bool)

/-- A truth value. -/
def writeBool (b : Bool) : List Char := if b then "true".toList else "false".toList

/-- The text of a value. -/
def Field.write : Field → List Char
  | text value => writeString value
  | number value => Nat.toDigits 10 value
  | truth value => writeBool value

/-- The members of a record with commas between them. -/
def writeMembers : List (String × Field) → List Char
  | [] => []
  | [(key, value)] => writeString key ++ ':' :: value.write
  | (key, value) :: members =>
    writeString key ++ ':' :: value.write ++ ',' :: writeMembers members

/-- The text of a record, its members in the order of the list. -/
def writeRecord (members : List (String × Field)) : List Char :=
  '\x7b' :: writeMembers members ++ ['\x7d']

end ArrayKernels.Json
