import ArrayKernels.Text.Printable

/-!
# Quoted text

A text between quotes, written so that it shows on one line. The quote and the backslash have a
backslash in front, the common controls are written by a letter and every other character that
cannot be shown on its own by its code point.
-/

namespace ArrayKernels.Text

/-- The characters that stand for one character between quotes. -/
def escapeChar (c : Char) : List Char :=
  if c = '"' then ['\\', '"']
  else if c = '\\' then ['\\', '\\']
  else if c = '\n' then ['\\', 'n']
  else if c = '\r' then ['\\', 'r']
  else if c = '\t' then ['\\', 't']
  else if c.toNat = 0 then ['\\', '0']
  else if isPrintable c then [c]
  else '\\' :: 'u' :: '\x7b' :: Nat.toDigits 16 c.toNat ++ ['\x7d']

/-- The text between quotes. -/
def quote (text : String) : List Char := '"' :: text.toList.flatMap escapeChar ++ ['"']

end ArrayKernels.Text
