import ArrayKernels.Json.Token

/-!
# Passing over JSON values

A value that nobody asks for is checked for its form and left out. How deep it is nested does not
matter: the brackets that are open are kept in a list.
-/

namespace ArrayKernels.Json

/-- A bracket that is open. -/
inductive Bracket where
  | object | array
deriving DecidableEq

/-- What has to come next inside a value. -/
inductive Expected where
  /-- A value. -/
  | value
  /-- A value, or the end of an array that has just been opened. -/
  | firstItem
  /-- A key, or the end of an object that has just been opened. -/
  | firstKey
  /-- A key. -/
  | key
  /-- The colon after a key. -/
  | colon
  /-- A comma, or the end of what is open. -/
  | afterValue
deriving DecidableEq

/-- Passes over the start of a value: what is open then and what has to come next. -/
def startValue (brackets : List Bracket) : Token → Option (List Bracket × Expected)
  | .openObject => some (.object :: brackets, .firstKey)
  | .openArray => some (.array :: brackets, .firstItem)
  | .text _ => some (brackets, .afterValue)
  | .number _ => some (brackets, .afterValue)
  | .truth _ => some (brackets, .afterValue)
  | .null => some (brackets, .afterValue)
  | _ => none

/-- Passes over one token: what is open then and what has to come next. -/
def passToken : List Bracket → Expected → Token → Option (List Bracket × Expected)
  | brackets, .value, token => startValue brackets token
  | .array :: brackets, .firstItem, .closeArray => some (brackets, .afterValue)
  | brackets, .firstItem, token => startValue brackets token
  | .object :: brackets, .firstKey, .closeObject => some (brackets, .afterValue)
  | brackets, .firstKey, .text _ => some (brackets, .colon)
  | brackets, .key, .text _ => some (brackets, .colon)
  | brackets, .colon, .colon => some (brackets, .value)
  | .array :: brackets, .afterValue, .closeArray => some (brackets, .afterValue)
  | .array :: brackets, .afterValue, .comma => some (.array :: brackets, .value)
  | .object :: brackets, .afterValue, .closeObject => some (brackets, .afterValue)
  | .object :: brackets, .afterValue, .comma => some (.object :: brackets, .key)
  | _, _, _ => none

/-- Passes over tokens until nothing is open and a value is complete; gives the tokens after it. -/
def skipFrom (brackets : List Bracket) (expected : Expected) : List Token → Option (List Token)
  | [] => if brackets = [] ∧ expected = .afterValue then some [] else none
  | token :: rest =>
    if brackets = [] ∧ expected = .afterValue then some (token :: rest)
    else
      match passToken brackets expected token with
      | some (brackets, expected) => skipFrom brackets expected rest
      | none => none

/-- Passing over tokens adds none. -/
theorem length_le_of_skipFrom {brackets : List Bracket} {expected : Expected}
    {tokens rest : List Token}
    (h : skipFrom brackets expected tokens = some rest) : rest.length ≤ tokens.length := by
  fun_induction skipFrom brackets expected tokens <;> grind

/-- The tokens after a value. -/
def skipValue (tokens : List Token) : Option (List Token) := skipFrom [] .value tokens

/-- The tokens after a value are some of those that it is read from. -/
theorem length_le_of_skipValue {tokens rest : List Token}
    (h : skipValue tokens = some rest) : rest.length ≤ tokens.length := length_le_of_skipFrom h

end ArrayKernels.Json
