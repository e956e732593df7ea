import CaskLint.Text.Hexadecimal
import CaskLint.Toml.Value

/-!
# Values that are one word

  Truth values, numbers and moments are written as one word without blanks; only a date and a
  time may have one space between them. Whatever follows a word must be a blank or a mark,
  so each form is a function on the whole word.

* **`digits?`** — digits with single underscores between them.
* **`integer?`**, **`float?`** — numbers, with the limits of 64 bits.
* **`date?`**, **`time?`** — calendar dates and times of day, alone or together.
-/

namespace CaskLint.Toml

/-! ## Digits -/

/-- Whether a character may stand in a word. -/
def isWordChar (c : Char) : Bool :=
  c.isAlphanum || c == '+' || c == '-' || c == '_' || c == '.' || c == ':'

/-- The digits of a word in which single underscores may stand between digits. -/
def digits? (isDigit : Char → Bool) : List Char → Option (List Char)
  | [] => none
  | [c] => if isDigit c then some [c] else none
  | c :: '_' :: cs => if isDigit c then (digits? isDigit cs).map (c :: ·) else none
  | c :: cs => if isDigit c then (digits? isDigit cs).map (c :: ·) else none

/-- Whether a number begins with a minus, and the number without its sign. -/
def sign : List Char → Bool × List Char
  | '-' :: cs => (true, cs)
  | '+' :: cs => (false, cs)
  | cs => (false, cs)

/-- The digits of a whole number, in which no zero leads others. -/
def wholeDigits? (cs : List Char) : Option (List Char) := do
  let ds ← digits? Char.isDigit cs
  if ds.head? = some '0' ∧ 1 < ds.length then none else some ds

/-! ## Numbers -/

/-- The value of digits in a base up to 16. -/
def ofDigits (base : Nat) (ds : List Char) : Nat :=
  ds.foldl (fun n c => n * base + (Text.hexValue? c).getD 0) 0

/-- A number that fits in 64 bits with sign, from -2^63 to below 2^63. -/
def inRange? (n : Int) : Option Value :=
  if -9223372036854775808 ≤ n ∧ n < 9223372036854775808 then some (.integer n) else none

/-- A word that is an integer, in base 10 or after a mark in base 16, 8 or 2. -/
def integer? : List Char → Option Value
  | '0' :: 'x' :: cs => do
    inRange? (ofDigits 16 (← digits? (fun c => (Text.hexValue? c).isSome) cs))
  | '0' :: 'o' :: cs => do inRange? (ofDigits 8 (← digits? (fun c => '0' ≤ c && c ≤ '7') cs))
  | '0' :: 'b' :: cs => do inRange? (ofDigits 2 (← digits? (fun c => c == '0' || c == '1') cs))
  | cs => do
    let (negative, cs) := sign cs
    let n := ofDigits 10 (← wholeDigits? cs)
    inRange? (if negative then -n else n)

/-- The exponent that stands at the end of a number; without one it is zero. -/
def exponent? : List Char → Option Int
  | [] => some 0
  | _ :: cs => do
    let (negative, cs) := sign cs
    let n := ofDigits 10 (← digits? Char.isDigit cs)
    return if negative then -n else n

/-- A finite floating-point number as digits and a power of ten. -/
def decimal? (cs : List Char) : Option (Nat × Int) := do
  let isMark (c : Char) : Bool := c == 'e' || c == 'E'
  let whole ← wholeDigits? (cs.takeWhile fun c => !(c == '.' || isMark c))
  match cs.dropWhile fun c => !(c == '.' || isMark c) with
  | [] => none
  | '.' :: cs =>
    let fraction ← digits? Char.isDigit (cs.takeWhile (!isMark ·))
    let exponent ← exponent? (cs.dropWhile (!isMark ·))
    return (ofDigits 10 (whole ++ fraction), exponent - fraction.length)
  | cs => return (ofDigits 10 whole, ← exponent? cs)

/-- A word that is a floating-point number. One too large for a finite value is refused unless
it is negative. -/
def float? (cs : List Char) : Option Value :=
  let (negative, cs) := sign cs
  if cs = ['i', 'n', 'f'] then some (.float (.infinite negative))
  else if cs = ['n', 'a', 'n'] then some (.float .nan)
  else do
    let (digits, exponent) ← decimal? cs
    match Binary64.ofDecimal negative digits exponent with
    | .infinite false => none
    | x => return .float x

/-! ## Dates and times -/

/-- The number that two digits make, if it lies between these bounds. -/
def twoDigits? (low high : Nat) (a b : Char) : Option Nat :=
  if a.isDigit && b.isDigit then
    let n := (a.toNat - 48) * 10 + (b.toNat - 48)
    if low ≤ n ∧ n ≤ high then some n else none
  else none

/-- The number of days of a month. -/
def daysInMonth (year month : Nat) : Nat :=
  if month = 2 then
    if year % 4 = 0 ∧ (year % 100 ≠ 0 ∨ year % 400 = 0) then 29 else 28
  else if month = 4 ∨ month = 6 ∨ month = 9 ∨ month = 11 then 30 else 31

/-- Takes a date off the head of a word. -/
def date? : List Char → Option (List Char)
  | y₁ :: y₂ :: y₃ :: y₄ :: '-' :: m₁ :: m₂ :: '-' :: d₁ :: d₂ :: rest => do
    let century ← twoDigits? 0 99 y₁ y₂
    let year ← twoDigits? 0 99 y₃ y₄
    let month ← twoDigits? 1 12 m₁ m₂
    let _ ← twoDigits? 1 (daysInMonth (century * 100 + year) month) d₁ d₂
    return rest
  | _ => none

/-- Takes a time of day off the head of a word. -/
def time? : List Char → Option (List Char)
  | h₁ :: h₂ :: ':' :: m₁ :: m₂ :: ':' :: s₁ :: s₂ :: rest => do
    let _ ← twoDigits? 0 23 h₁ h₂
    let _ ← twoDigits? 0 59 m₁ m₂
    let _ ← twoDigits? 0 60 s₁ s₂
    match rest with
    | '.' :: rest =>
      if (rest.takeWhile Char.isDigit).isEmpty then none else some (rest.dropWhile Char.isDigit)
    | rest => some rest
  | _ => none

/-- Whether a word is the distance of a time from universal time. -/
def isOffset : List Char → Bool
  | ['Z'] | ['z'] => true
  | [s, h₁, h₂, ':', m₁, m₂] =>
    (s == '+' || s == '-') && (twoDigits? 0 23 h₁ h₂).isSome && (twoDigits? 0 59 m₁ m₂).isSome
  | _ => false

/-- Whether a word is a time of day, perhaps with an offset. -/
def isDayTime (cs : List Char) : Bool :=
  match time? cs with
  | some rest => rest.isEmpty || isOffset rest
  | none => false

/-- Whether a word is a date, a date and a time, or a time without offset. -/
def isMoment (cs : List Char) : Bool :=
  match date? cs with
  | some [] => true
  | some (delimiter :: time) => (delimiter == 'T' || delimiter == 't') && isDayTime time
  | none => time? cs == some []

/-! ## Words -/

/-- The value that a word is. -/
def word? (cs : List Char) : Option Value :=
  if cs = ['t', 'r', 'u', 'e'] then some (.flag true)
  else if cs = ['f', 'a', 'l', 's', 'e'] then some (.flag false)
  else if isMoment cs then some (.moment (String.ofList cs))
  else (float? cs).or (integer? cs)

/-- The word at the head of a text; a date takes a time after one space with it. -/
def scalar? (cs : List Char) : Option (Value × List Char) :=
  let first := cs.takeWhile isWordChar
  let rest := cs.dropWhile isWordChar
  match date? first, rest with
  | some [], ' ' :: more =>
    let second := more.takeWhile isWordChar
    if second.isEmpty then some (.moment (String.ofList first), rest)
    else if isDayTime second then
      some (.moment (String.ofList (first ++ ' ' :: second)), more.dropWhile isWordChar)
    else none
  | _, _ => (word? first).map (·, rest)

end CaskLint.Toml
