/-!
# Hexadecimal digits

  **`hexValue?`** is the number that a digit in base 16 stands for, in either case, and
  **`lowerHex`** and **`upperHex`** write a number below 16 as such a digit. An upper case digit
  reads back (`hexValue?_upperHex`).
-/

namespace CaskLint.Text

/-- The number that a hexadecimal digit stands for. -/
def hexValue? (c : Char) : Option Nat :=
  if '0' ≤ c ∧ c ≤ '9' then some (c.toNat - '0'.toNat)
  else if 'a' ≤ c ∧ c ≤ 'f' then some (c.toNat - 'a'.toNat + 10)
  else if 'A' ≤ c ∧ c ≤ 'F' then some (c.toNat - 'A'.toNat + 10)
  else none

/-- A number below 16 as a lower case digit. -/
def lowerHex (n : Nat) : Char := Nat.digitChar n

/-- A number below 16 as an upper case digit. -/
def upperHex (n : Nat) : Char := (Nat.digitChar n).toUpper

theorem hexValue?_upperHex : ∀ n < 16, hexValue? (upperHex n) = some n := by decide

end CaskLint.Text
