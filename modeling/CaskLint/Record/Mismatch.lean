import CaskLint.Number.Shortest
import CaskLint.Text.Shown

/-!
# Data that do not fit

  Data that are well formed can still be the wrong data: a value of another type, a number out
  of range, a record with too few values, a member that is missing, given twice or not known.
  A **`Mismatch`** is one such cause, and **`Mismatch.message`** is its wording. How numbers
  look inside a message belongs to the format that was read, so it is an argument.
-/

namespace CaskLint

/-- The value that stood where another was expected. -/
inductive Found where
  | null
  | flag (value : Bool)
  | integer (value : Int)
  | float (value : Binary64)
  | text (value : String)
  | sequence
  | map

/-- How read data fail to be what was expected. -/
inductive Mismatch where
  | wrongType (found : Found) (expected : String)
  | wrongValue (found : Found) (expected : String)
  | wrongLength (length : Nat) (expected : String)
  | missingMember (name : String)
  | duplicateMember (name : String)
  | unknownMember (name : String) (known : List String)
  | unknownVariant (name : String) (known : List String)

/-- A text between backquotes. -/
def backquoted (s : String) : String := "`" ++ s ++ "`"

/-- What the names that would have been known are, for the end of a message. -/
def knownNames : List String → String
  | [] => "there are none"
  | [only] => "expected " ++ backquoted only
  | [first, second] => "expected " ++ backquoted first ++ " or " ++ backquoted second
  | names => "expected one of " ++ ", ".intercalate (names.map backquoted)

/-- A count of elements. -/
def countElements (n : Nat) : String :=
  toString n ++ if n == 1 then " element" else " elements"

/-- What was found, in words; `floatText` writes floating-point numbers. -/
def Found.describe (floatText : Binary64 → String) : Found → String
  | .null => "null"
  | .flag value => "boolean " ++ backquoted (if value then "true" else "false")
  | .integer value => "integer " ++ backquoted (toString value)
  | .float value => "floating point " ++ backquoted (floatText value)
  | .text value => "string " ++ Text.shown value
  | .sequence => "sequence"
  | .map => "map"

/-- The wording of a mismatch; `floatText` writes floating-point numbers. -/
def Mismatch.message (floatText : Binary64 → String) : Mismatch → String
  | .wrongType found expected =>
    "invalid type: " ++ found.describe floatText ++ ", expected " ++ expected
  | .wrongValue found expected =>
    "invalid value: " ++ found.describe floatText ++ ", expected " ++ expected
  | .wrongLength length expected =>
    "invalid length " ++ toString length ++ ", expected " ++ expected
  | .missingMember name => "missing field " ++ backquoted name
  | .duplicateMember name => "duplicate field " ++ backquoted name
  | .unknownMember name known =>
    "unknown field " ++ backquoted name ++ ", " ++ knownNames known
  | .unknownVariant name known =>
    "unknown variant " ++ backquoted name ++ ", " ++ knownNames known

end CaskLint
