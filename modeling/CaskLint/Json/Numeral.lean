import CaskLint.Json.Token
import CaskLint.Json.Value

/-!
# The value of a number in a JSON text

  A number without fraction and exponent that fits in 64 bits, as an unsigned number or as
  a negative one with sign, is an integer. Every other number, and `-0`, is
  floating-point, and is read in two rounding steps:

* **`Numeral.significand`** — digits are gathered into a whole number as long as it stays
  below 2^64. Of the digits left over, those before the point count as places and those
  after it are dropped.
* **`scaled?`** — that number is rounded to a floating-point number, which is then
  multiplied or divided by a rounded power of ten. A result too large to be finite is out
  of range.

  So the value may differ in its last bits from the number nearest to the text.
-/

namespace CaskLint.Json

/-! ## Gathering digits -/

/-- The number that a decimal digit stands for. -/
def digitValue (c : Char) : Nat := c.toNat - '0'.toNat

/-- A whole number, and how many digits were gathered into it or left over. -/
structure Gathered where
  value : Nat
  taken : Nat
  left : Nat

/-- Appends digits to a number as long as it stays below 2^64. -/
def gather (value : Nat) : List Char → Gathered
  | [] => ⟨value, 0, 0⟩
  | c :: cs =>
    let next := value * 10 + digitValue c
    if next < 18446744073709551616 then
      let rest := gather next cs
      { rest with taken := rest.taken + 1 }
    else ⟨value, 0, cs.length + 1⟩

/-! ## Scaling by a power of ten -/

/-- The magnitude nearest to a power of ten. -/
def powerOfTen (k : Nat) : Magnitude := (Magnitude.ofDecimal? 1 k).getD .zero

/-- Divides by 10^308 as many times as told, or until nothing is left. -/
def descend (m : Magnitude) : Nat → Magnitude
  | 0 => m
  | steps + 1 =>
    if m.isZero then m else descend ((m.div? (powerOfTen 308)).getD .zero) steps

/-- `significand · 10^exponent` by rounded steps; none when it is out of range. -/
def scaled? (significand : Nat) (exponent : Int) : Option Magnitude := do
  let m ← Magnitude.ofNat? significand
  match exponent with
  | .ofNat k => if k ≤ 308 then m.mul? (powerOfTen k) else if m.isZero then some m else none
  | .negSucc k =>
    -- The exponent is -(k + 1), of which whole steps of 308 places are taken first.
    let steps := k / 308
    (descend m steps).div? (powerOfTen (k + 1 - 308 * steps))

/-! ## Numbers -/

namespace Numeral

/-- The value of the exponent part; an absent one is zero. -/
def writtenExponent (n : Numeral) : Int :=
  match n.exponent with
  | none => 0
  | some e =>
    let value : Int := Nat.ofDigitChars 10 e.digits 0
    if e.negative then -value else value

/-- The digits gathered from the number, and the power of ten that they are scaled by. -/
def significand (n : Numeral) : Nat × Int :=
  let whole := gather 0 n.whole
  let fraction := gather whole.value n.fraction
  (fraction.value, whole.left - fraction.taken + n.writtenExponent)

/-- The number as a floating-point number; none when it is out of range. -/
def float? (n : Numeral) : Option Binary64 :=
  let (digits, exponent) := n.significand
  (scaled? digits exponent).map (.finite n.negative)

/-- The number as an integer, if its text is one from -2^63 to below 2^64. -/
def integer? (n : Numeral) : Option Int :=
  if n.fraction.isEmpty && n.exponent.isNone then
    let value := Nat.ofDigitChars 10 n.whole 0
    if n.negative then
      if 0 < value ∧ value ≤ 9223372036854775808 then some (-value) else none
    else
      if value < 18446744073709551616 then some value else none
  else none

/-- The value of the number; none when it is out of range. -/
def value? (n : Numeral) : Option Json :=
  match n.integer? with
  | some i => some (.integer i)
  | none => n.float?.map .float

end Numeral

end CaskLint.Json
