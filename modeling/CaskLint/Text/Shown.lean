import CaskLint.Text.Extending
import CaskLint.Text.Unprintable

/-!
# Text shown inside a message

  A message quotes a text so that every character of it can be seen: the quote and the
  backslash get a backslash, the common controls their letter, and whatever prints nothing
  or would attach to the character before it is shown by its number.
-/

namespace CaskLint.Text

/-- The digit characters of a number in base 16, lower case. -/
def hexDigits (n : Nat) : List Char := Nat.toDigits 16 n

/-- How one character is shown inside quotes. -/
def shownChar (c : Char) : List Char :=
  if c = '"' ∨ c = '\\' then ['\\', c]
  else if c = '\n' then ['\\', 'n']
  else if c = '\r' then ['\\', 'r']
  else if c = '\t' then ['\\', 't']
  else if c.toNat = 0 then ['\\', '0']
  else if isExtending c || isUnprintable c then
    '\\' :: 'u' :: '\x7b' :: hexDigits c.toNat ++ ['\x7d']
  else [c]

/-- A text in quotes, with every character visible. -/
def shown (s : String) : String :=
  String.ofList ('"' :: s.toList.flatMap shownChar ++ ['"'])

end CaskLint.Text
