/-!
# Rounding a quotient to a whole number

  `roundDiv` gives the whole number next to `num / den`. Only the exact halves need a rule,
  which is the argument `Tie`.
-/

namespace CaskLint

/-- Which neighbour an exact half is rounded to. -/
inductive Tie where
  | toEven
  | up
deriving DecidableEq, Repr

/-- Whether the half above `quotient` is rounded up. -/
def Tie.roundsUp : Tie → Nat → Bool
  | .toEven, quotient => quotient % 2 == 1
  | .up, _ => true

/-- The whole number nearest to `num / den`. -/
def roundDiv (tie : Tie) (num den : Nat) : Nat :=
  let quotient := num / den
  let twiceRest := 2 * (num % den)
  if twiceRest < den then quotient
  else if den < twiceRest then quotient + 1
  else if tie.roundsUp quotient then quotient + 1 else quotient

/-- Rounding goes at most one above the quotient's whole part. -/
theorem roundDiv_le (tie : Tie) (num den : Nat) : roundDiv tie num den ≤ num / den + 1 := by
  unfold roundDiv
  dsimp only
  split
  · exact Nat.le_succ _
  · split
    · exact Nat.le_refl _
    · split
      · exact Nat.le_refl _
      · exact Nat.le_succ _

end CaskLint
