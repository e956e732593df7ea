import CaskLint.Json.Value
import CaskLint.Text.Hexadecimal

/-!
# Writing JSON

  A value has one written form for each **`Layout`**: `compact` puts nothing between the tokens,
  `pretty` puts every member and every item on a line of its own, two spaces deeper than
  the line that opens them. The layout decides about blanks only.

  Quotes, backslashes and control characters below U+0020 are escaped, and nothing else.
  A floating-point number that is not finite is written `null`.
-/

namespace CaskLint.Json

/-! ## Text -/

/-- A control character as an escape: a letter where there is one, else four digits. -/
def controlEscape (c : Char) : List Char :=
  if c = '\n' then ['\\', 'n']
  else if c = '\t' then ['\\', 't']
  else if c = '\r' then ['\\', 'r']
  else if c.toNat = 8 then ['\\', 'b']
  else if c.toNat = 12 then ['\\', 'f']
  else ['\\', 'u', '0', '0', Text.lowerHex (c.toNat / 16), Text.lowerHex (c.toNat % 16)]

/-- One character inside quotes. -/
def writeChar (c : Char) : List Char :=
  if c = '"' ∨ c = '\\' then ['\\', c]
  else if c.toNat < 32 then controlEscape c
  else [c]

/-- A text in quotes. -/
def writeText (s : String) : List Char :=
  '"' :: s.toList.flatMap writeChar ++ ['"']

/-! ## Numbers -/

/-- An integer in decimal digits. -/
def writeInteger : Int → List Char
  | .ofNat n => Nat.toDigits 10 n
  | .negSucc n => '-' :: Nat.toDigits 10 (n + 1)

/-- A floating-point number; one that is not finite has no digits and is written `null`. -/
def writeFloat (x : Binary64) : List Char :=
  (floatStyle.write? x).getD ['n', 'u', 'l', 'l']

/-! ## Values -/

/-- The blanks of a written form. -/
structure Layout where
  /-- What starts a line at this depth. -/
  line : Nat → List Char
  /-- What follows the colon of a member. -/
  afterColon : List Char

namespace Layout

/-- No blanks at all. -/
def compact : Layout := ⟨fun _ => [], []⟩

/-- One line for each item and member, two spaces deeper at each level. -/
def pretty : Layout := ⟨fun depth => '\n' :: List.replicate (2 * depth) ' ', [' ']⟩

end Layout

section

variable (layout : Layout)

mutual

/-- The written form of a value whose brackets stand at this depth. -/
def writeAt (depth : Nat) : Json → List Char
  | .null => ['n', 'u', 'l', 'l']
  | .flag true => ['t', 'r', 'u', 'e']
  | .flag false => ['f', 'a', 'l', 's', 'e']
  | .integer n => writeInteger n
  | .float x => writeFloat x
  | .text s => writeText s
  | .array [] => ['[', ']']
  | .array (item :: items) =>
    '[' :: layout.line (depth + 1) ++ writeAt (depth + 1) item ++
      writeItems depth items ++ layout.line depth ++ [']']
  | .object [] => ['\x7b', '\x7d']
  | .object ((name, value) :: members) =>
    '\x7b' :: layout.line (depth + 1) ++ writeText name ++ ':' :: layout.afterColon ++
      writeAt (depth + 1) value ++ writeMembers depth members ++ layout.line depth ++ ['\x7d']

/-- The items after the first one. -/
def writeItems (depth : Nat) : List Json → List Char
  | [] => []
  | item :: items =>
    ',' :: layout.line (depth + 1) ++ writeAt (depth + 1) item ++ writeItems depth items

/-- The members after the first one. -/
def writeMembers (depth : Nat) : List (String × Json) → List Char
  | [] => []
  | (name, value) :: members =>
    ',' :: layout.line (depth + 1) ++ writeText name ++ ':' :: layout.afterColon ++
      writeAt (depth + 1) value ++ writeMembers depth members

end

end

/-- The value on one line, without blanks. -/
def compact (v : Json) : String := String.ofList (writeAt .compact 0 v)

/-- The value with one line for each item and member. -/
def pretty (v : Json) : String := String.ofList (writeAt .pretty 0 v)

end CaskLint.Json
