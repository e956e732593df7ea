import CaskLint.Number.Binary64

/-!
# The shortest decimal that reads back

  A number is written with the fewest digits that are still read as the same number, and
  among those digits with the nearest ones. The search is exact:

* **`leadingExponent`** — the decimal position of a number's first digit.
* **`onGrid?`** — on the grid of multiples of 10^q, the neighbour of the number that reads
  back as it, the nearer one first; an exact half between them is left to a `Tie`.
* **`shortest`** — the first hit on the grids of 1, 2, …, 17 digits.

  How digits and exponent are laid out is a **`FloatStyle`**, which belongs to the format
  that prints the number.
-/

namespace CaskLint

/-! ## Digits -/

/-- Decimal digits `d₀ d₁ …` for the number `d₀.d₁… · 10^exponent`. -/
structure Scientific where
  digits : List Char
  exponent : Int
deriving DecidableEq, Repr

namespace Magnitude

/-- The position of the first decimal digit: `e` with `10^e ≤ m < 10^(e+1)`. -/
def leadingExponent (m : Magnitude) : Int :=
  (Nat.toDigits 10 (m.units * Nat.pow 10 340 / Nat.pow 2 1074)).length - 341

/-- The neighbour of `m` among the multiples of `10^q` that reads back as `m`, nearest first. -/
def onGrid? (tie : Tie) (m : Magnitude) (q : Int) : Option Nat :=
  let num := m.units * Nat.pow 10 (-q).toNat
  let den := Nat.pow 2 1074 * Nat.pow 10 q.toNat
  let near := roundDiv tie num den
  let far := if near == num / den then near + 1 else num / den
  if ofDecimal? near q = some m then some near
  else if ofDecimal? far q = some m then some far
  else none

/-- The digits of `n · 10^q` without the zeros at the end. -/
def scientific (n : Nat) (q : Int) : Scientific :=
  let digits := Nat.toDigits 10 n
  ⟨(digits.reverse.dropWhile (· == '0')).reverse, q + digits.length - 1⟩

/-- The fewest digits that read back as `m`, and of those the nearest. -/
def shortest (tie : Tie) (m : Magnitude) : Scientific :=
  let e := m.leadingExponent
  let found := (List.range 17).findSome? fun (more : Nat) =>
    (m.onGrid? tie (e - more)).map fun n => scientific n (e - more)
  found.getD ⟨['0'], 0⟩

end Magnitude

/-! ## Layout -/

/-- How a format writes floating-point numbers. -/
structure FloatStyle where
  /-- Which digit is chosen when two are equally near. -/
  tie : Tie
  /-- The exponents that are written without an exponent. -/
  positional : Int → Bool

namespace Scientific

/-- The number written out, with at least one digit on either side of the point. -/
def positional (s : Scientific) : List Char :=
  match s.exponent with
  | .ofNat e =>
    let whole := s.digits.take (e + 1)
    let fraction := s.digits.drop (e + 1)
    whole ++ List.replicate (e + 1 - whole.length) '0' ++ '.' ::
      (if fraction.isEmpty then ['0'] else fraction)
  | .negSucc zeros => '0' :: '.' :: List.replicate zeros '0' ++ s.digits

/-- One digit, a point and the other digits if there are any, and a signed exponent. -/
def exponential (s : Scientific) : List Char :=
  let mantissa := match s.digits with
    | first :: second :: rest => first :: '.' :: second :: rest
    | digits => digits
  let sign := if s.exponent < 0 then '-' else '+'
  mantissa ++ 'e' :: sign :: Nat.toDigits 10 s.exponent.natAbs

end Scientific

/-- The text of a magnitude. -/
def FloatStyle.magnitude (style : FloatStyle) (m : Magnitude) : List Char :=
  let s := if m.isZero then ⟨['0'], 0⟩ else m.shortest style.tie
  if style.positional s.exponent then s.positional else s.exponential

/-- The text of a finite number; others have none. -/
def FloatStyle.write? (style : FloatStyle) : Binary64 → Option (List Char)
  | .finite negative m => some (if negative then '-' :: style.magnitude m else style.magnitude m)
  | _ => none

end CaskLint
