import CaskLint.Number.Rounding

/-!
# Binary floating-point numbers of 64 bits

  Every finite number of this format is a whole multiple of 2^-1074, so a **`Magnitude`** is
  kept as that whole number of units. Two conditions cut the representable ones out: at
  most 53 significant bits (`on_grid`), and less than 2^1024 (`below_limit`). The form is
  unique, so equal magnitudes are equal values.

  **`Magnitude.nearest?`** rounds an exact quotient of units to the nearest magnitude, a
  half to the even neighbour; there is none when the quotient is too large. Every other
  operation (whole numbers, products, quotients, decimals) is that one rounding, applied to
  an exact quotient of naturals.
-/

namespace CaskLint

/-! ## Magnitudes -/

/-- The exponent of the grid that numbers of this size lie on: 53 bits are kept. -/
def gridExponent (units : Nat) : Nat := units.log2 - 52

/-- A finite number without its sign, in units of 2^-1074. -/
structure Magnitude where
  units : Nat
  on_grid : Nat.pow 2 (gridExponent units) ∣ units
  below_limit : units.log2 < 2098
deriving DecidableEq

theorem pow_mul_pow (b m n : Nat) : Nat.pow b m * Nat.pow b n = Nat.pow b (m + n) :=
  (Nat.pow_add b m n).symm

/-- Numbers of at most `53 + k` bits lie on a grid of exponent at most `k`. -/
theorem gridExponent_le {units k : Nat} (h : units < Nat.pow 2 (53 + k)) :
    gridExponent units ≤ k := by
  unfold gridExponent
  by_cases h0 : units = 0
  · rw [h0, Nat.log2_zero]
    omega
  · have := (Nat.log2_lt h0).2 h
    omega

/-- A multiple `m · 2^k` with `m ≤ 2^53` lies on its grid. -/
theorem grid_dvd_mul {m k : Nat} (h : m ≤ Nat.pow 2 53) :
    Nat.pow 2 (gridExponent (m * Nat.pow 2 k)) ∣ m * Nat.pow 2 k := by
  rcases Nat.lt_or_eq_of_le h with hlt | rfl
  · have hbound : m * Nat.pow 2 k < Nat.pow 2 (53 + k) := by
      rw [← pow_mul_pow]
      exact Nat.mul_lt_mul_of_pos_right hlt (Nat.two_pow_pos k)
    exact Nat.dvd_trans (Nat.pow_dvd_pow 2 (gridExponent_le hbound)) (Nat.dvd_mul_left _ _)
  · rw [pow_mul_pow]
    refine Nat.pow_dvd_pow 2 ?_
    have hbound : Nat.pow 2 (53 + k) < Nat.pow 2 (53 + (k + 1)) :=
      Nat.pow_lt_pow_right (by omega) (by omega)
    have := gridExponent_le hbound
    omega

/-- Rounding onto the grid of a quotient keeps at most 53 bits. -/
theorem roundDiv_grid_le (tie : Tie) (num den : Nat) :
    roundDiv tie num (den * Nat.pow 2 (gridExponent (num / den))) ≤ Nat.pow 2 53 := by
  refine Nat.le_trans (roundDiv_le _ _ _) ?_
  rw [← Nat.div_div_eq_div_mul]
  have hlt : num / den < Nat.pow 2 (gridExponent (num / den)) * Nat.pow 2 53 := by
    rw [pow_mul_pow]
    refine Nat.lt_of_lt_of_le Nat.lt_log2_self (Nat.pow_le_pow_right (by omega) ?_)
    unfold gridExponent
    omega
  exact Nat.div_lt_of_lt_mul hlt

namespace Magnitude

/-- The magnitude nearest to `num / den` units, a half to even; none when it is too large. -/
def nearest? (num den : Nat) : Option Magnitude :=
  let k := gridExponent (num / den)
  let units := roundDiv .toEven num (den * Nat.pow 2 k) * Nat.pow 2 k
  if h : units.log2 < 2098 then
    some ⟨units, grid_dvd_mul (roundDiv_grid_le _ _ _), h⟩
  else none

/-- The magnitude of zero. -/
def zero : Magnitude := ⟨0, Nat.dvd_zero _, by decide⟩

/-- Whether this is zero. -/
def isZero (m : Magnitude) : Bool := m.units == 0

/-- The magnitude nearest to a whole number. -/
def ofNat? (n : Nat) : Option Magnitude := nearest? (n * Nat.pow 2 1074) 1

/-- The magnitude nearest to a product. -/
def mul? (a b : Magnitude) : Option Magnitude := nearest? (a.units * b.units) (Nat.pow 2 1074)

/-- The magnitude nearest to a quotient. -/
def div? (a b : Magnitude) : Option Magnitude := nearest? (a.units * Nat.pow 2 1074) b.units

/-- The magnitude nearest to `digits · 10^exponent`. -/
def ofDecimal? (digits : Nat) (exponent : Int) : Option Magnitude :=
  nearest? (digits * Nat.pow 10 exponent.toNat * Nat.pow 2 1074)
    (Nat.pow 10 (-exponent).toNat)

end Magnitude

/-! ## Signed numbers -/

/-- A floating-point number: a signed magnitude, a signed infinity, or not a number. -/
inductive Binary64 where
  | finite (negative : Bool) (magnitude : Magnitude)
  | infinite (negative : Bool)
  | nan
deriving DecidableEq

namespace Binary64

/-- Reads a missing magnitude as infinity. -/
def ofMagnitude? (negative : Bool) : Option Magnitude → Binary64
  | some m => .finite negative m
  | none => .infinite negative

/-- The number nearest to `± digits · 10^exponent`. What lies far outside the range is told by
its size alone, so that no power of ten grows beyond bounds. -/
def ofDecimal (negative : Bool) (digits : Nat) (exponent : Int) : Binary64 :=
  if digits = 0 ∨ exponent + digits.log2 < -400 then .finite negative .zero
  else if 400 < exponent then .infinite negative
  else ofMagnitude? negative (Magnitude.ofDecimal? digits exponent)

/-- Equality of values: the zeros are equal, and what is not a number equals nothing. -/
def sameValue : Binary64 → Binary64 → Bool
  | .finite s a, .finite t b => a.units == b.units && (s == t || a.isZero)
  | .infinite s, .infinite t => s == t
  | _, _ => false

/-- Whether the number is finite. -/
def isFinite : Binary64 → Bool
  | .finite _ _ => true
  | _ => false

end Binary64

end CaskLint
