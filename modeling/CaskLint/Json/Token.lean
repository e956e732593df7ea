import CaskLint.Source.Span
import CaskLint.Text.Hexadecimal

/-!
# The tokens of a JSON text

  A text is cut into tokens from left to right. What is wrong with a text can show in two ways,
  the two **`Fault`**s: a character that cannot stand where it stands, and an end that comes
  too early. A fault inside a token is itself a token, and always the last one.

* **`Quotation`** — a string as it is spelled: characters, and code units written in
  hexadecimal, up to the closing quote or a fault. Whether the code units pair up to
  characters is not decided here, because a reader that skips the string does not care.
* **`Numeral`** — a number as it is spelled.
* **`Token.next?`** — the first token of a text and the text after it, which is shorter
  (`Token.length_next?_lt`).
* **`Token.scan`** — all tokens of a text.
-/

namespace CaskLint.Json

/-- How a text fails to be JSON. -/
inductive Fault where
  /-- A character that cannot stand where it stands. -/
  | malformed
  /-- The text ends too early. -/
  | truncated
deriving DecidableEq, Repr

/-- The fault of a text that should go on in another way: nothing left, or something wrong. -/
def Fault.ofRest : List Char → Fault
  | [] => .truncated
  | _ :: _ => .malformed

/-! ## Strings -/

/-- A piece of a string: a character, or a code unit written in hexadecimal. -/
inductive Piece where
  | char (c : Char)
  | unit (value : Nat)
deriving DecidableEq, Repr

/-- A string as it is spelled, after its opening quote, up to its closing quote or a fault. -/
structure Quotation where
  pieces : List Piece
  fault : Option Fault
deriving DecidableEq, Repr

/-- The code unit that four hexadecimal digits spell. -/
def codeUnit? (a b c d : Char) : Option Nat := do
  let high := (← Text.hexValue? a) * 16 + (← Text.hexValue? b)
  let low := (← Text.hexValue? c) * 16 + (← Text.hexValue? d)
  return high * 256 + low

/-- The character that a backslash and this letter stand for. -/
def escaped? (c : Char) : Option Char :=
  if c = '"' ∨ c = '\\' ∨ c = '/' then some c
  else if c = 'b' then some '\x08'
  else if c = 'f' then some '\x0c'
  else if c = 'n' then some '\n'
  else if c = 'r' then some '\r'
  else if c = 't' then some '\t'
  else none

namespace Quotation

/-- A string that goes wrong before its first piece; nothing after it is read. -/
def fail (f : Fault) : Quotation × List Char := (⟨[], some f⟩, [])

/-- The string with a piece put before it. -/
def after (p : Piece) : Quotation × List Char → Quotation × List Char
  | (q, rest) => (⟨p :: q.pieces, q.fault⟩, rest)

/-- The string at the head of a text, after its opening quote, and what follows it. -/
def scan : List Char → Quotation × List Char
  | [] => fail .truncated
  | c :: cs =>
    if c = '"' then (⟨[], none⟩, cs)
    else if c = '\\' then
      match cs with
      | [] => fail .truncated
      | letter :: rest =>
        if letter = 'u' then
          match rest with
          | h₁ :: h₂ :: h₃ :: h₄ :: rest =>
            match codeUnit? h₁ h₂ h₃ h₄ with
            | some unit => after (.unit unit) (scan rest)
            | none => fail .malformed
          | rest => fail (if byteLength rest < 4 then .truncated else .malformed)
        else
          match escaped? letter with
          | some meant => after (.char meant) (scan rest)
          | none => fail .malformed
    else if c.toNat < 32 then fail .malformed
    else after (.char c) (scan cs)

theorem rest_fail (f : Fault) : (fail f).2 = [] := rfl

theorem rest_after (p : Piece) (scanned : Quotation × List Char) :
    (after p scanned).2 = scanned.2 := rfl

theorem length_scan_le (cs : List Char) : (scan cs).2.length ≤ cs.length := by
  fun_induction scan cs <;> simp only [rest_fail, rest_after, List.length_cons, List.length_nil]
  all_goals omega

end Quotation

/-! ## Numbers -/

/-- The exponent part of a number. -/
structure Exponent where
  negative : Bool
  digits : List Char
deriving DecidableEq, Repr

/-- A number as it is spelled; an absent fraction has no digits. -/
structure Numeral where
  negative : Bool
  whole : List Char
  fraction : List Char
  exponent : Option Exponent
deriving DecidableEq, Repr

/-! ## Tokens -/

/-- A token, or the fault that ends a text. -/
inductive Token where
  | openArray | closeArray | openObject | closeObject | comma | colon
  | null
  | flag (value : Bool)
  | number (n : Numeral)
  | text (q : Quotation)
  /-- A text that goes wrong at a place where no token begins, or inside a word. -/
  | broken (f : Fault)
  /-- A text that goes wrong inside a number. -/
  | brokenNumber (f : Fault)
deriving DecidableEq, Repr

/-- Whether a character may stand between tokens. -/
def isBlank (c : Char) : Bool := c == ' ' || c == '\n' || c == '\t' || c == '\r'

namespace Token

/-- The rest of a word such as `null`, of which the first letter is read. -/
def word (meaning : Token) : List Char → List Char → Token × List Char
  | [], cs => (meaning, cs)
  | _ :: _, [] => (.broken .truncated, [])
  | letter :: letters, c :: cs =>
    if c = letter then word meaning letters cs else (.broken .malformed, [])

/-- The exponent of a number after its `e`. -/
def exponent (n : Numeral) (cs : List Char) : Token × List Char :=
  let (negative, cs) := match cs with
    | '+' :: rest => (false, rest)
    | '-' :: rest => (true, rest)
    | rest => (false, rest)
  let digits := cs.takeWhile Char.isDigit
  if digits.isEmpty then (.brokenNumber (.ofRest cs), [])
  else (.number { n with exponent := some ⟨negative, digits⟩ }, cs.dropWhile Char.isDigit)

/-- The exponent of a number if one follows. -/
def exponent? (n : Numeral) : List Char → Token × List Char
  | [] => (.number n, [])
  | c :: cs => if c = 'e' ∨ c = 'E' then exponent n cs else (.number n, c :: cs)

/-- The fraction of a number if one follows, and its exponent if one follows. -/
def fraction? (n : Numeral) : List Char → Token × List Char
  | [] => (.number n, [])
  | c :: cs =>
    if c = '.' then
      let digits := cs.takeWhile Char.isDigit
      let rest := cs.dropWhile Char.isDigit
      if digits.isEmpty then (.brokenNumber (.ofRest rest), [])
      else exponent? { n with fraction := digits } rest
    else exponent? n (c :: cs)

/-- The number at the head of a text, after its sign. Only a single zero may lead it. -/
def afterSign (negative : Bool) (cs : List Char) : Token × List Char :=
  let whole := cs.takeWhile Char.isDigit
  let rest := cs.dropWhile Char.isDigit
  if whole.isEmpty then (.brokenNumber (.ofRest rest), [])
  else if whole.head? = some '0' ∧ 1 < whole.length then (.brokenNumber .malformed, [])
  else fraction? ⟨negative, whole, [], none⟩ rest

/-- The bracket, comma or colon that a character is. -/
def mark? (c : Char) : Option Token :=
  if c = '[' then some .openArray
  else if c = ']' then some .closeArray
  else if c = '\x7b' then some .openObject
  else if c = '\x7d' then some .closeObject
  else if c = ',' then some .comma
  else if c = ':' then some .colon
  else none

/-- The word, string or number that begins with this character, and the text after it. -/
def startScalar (c : Char) (cs : List Char) : Token × List Char :=
  if c = '"' then (.text (Quotation.scan cs).1, (Quotation.scan cs).2)
  else if c = 'n' then word .null ['u', 'l', 'l'] cs
  else if c = 't' then word (.flag true) ['r', 'u', 'e'] cs
  else if c = 'f' then word (.flag false) ['a', 'l', 's', 'e'] cs
  else if c = '-' then afterSign true cs
  else if c.isDigit then afterSign false (c :: cs)
  else (.broken .malformed, [])

/-- The token that begins with this character, and the text after it. -/
def start (c : Char) (cs : List Char) : Token × List Char :=
  match mark? c with
  | some mark => (mark, cs)
  | none => startScalar c cs

/-- The first token of a text and the text after it. -/
def next? (cs : List Char) : Option (Token × List Char) :=
  match cs.dropWhile isBlank with
  | [] => none
  | c :: rest => some (start c rest)

/-! ### Reading a token leaves less text -/

theorem length_dropWhile_le (p : Char → Bool) (cs : List Char) :
    (cs.dropWhile p).length ≤ cs.length :=
  (List.dropWhile_suffix p).length_le

theorem length_word_le (meaning : Token) (letters cs : List Char) :
    (word meaning letters cs).2.length ≤ cs.length := by
  fun_induction word meaning letters cs <;> grind

theorem length_exponent_le (n : Numeral) (cs : List Char) :
    (exponent n cs).2.length ≤ cs.length := by
  unfold exponent
  split
  rename_i negative rest h
  have hrest : rest.length ≤ cs.length := by
    split at h <;> obtain ⟨-, rfl⟩ := Prod.mk.inj h
    · exact Nat.le_succ _
    · exact Nat.le_succ _
    · exact Nat.le_refl _
  dsimp only
  split
  · exact Nat.zero_le _
  · exact Nat.le_trans (length_dropWhile_le _ _) hrest

theorem length_exponent?_le (n : Numeral) (cs : List Char) :
    (exponent? n cs).2.length ≤ cs.length := by
  unfold exponent?
  split
  · exact Nat.le_refl _
  · split
    · exact Nat.le_trans (length_exponent_le _ _) (Nat.le_succ _)
    · exact Nat.le_refl _

theorem length_fraction?_le (n : Numeral) (cs : List Char) :
    (fraction? n cs).2.length ≤ cs.length := by
  unfold fraction?
  split
  · exact Nat.le_refl _
  · split
    · dsimp only
      split
      · exact Nat.zero_le _
      · exact Nat.le_trans (length_exponent?_le _ _)
          (Nat.le_trans (length_dropWhile_le _ _) (Nat.le_succ _))
    · exact length_exponent?_le _ _

theorem length_afterSign_le (negative : Bool) (cs : List Char) :
    (afterSign negative cs).2.length ≤ cs.length := by
  unfold afterSign
  dsimp only
  split
  · exact Nat.zero_le _
  · split
    · exact Nat.zero_le _
    · exact Nat.le_trans (length_fraction?_le _ _) (length_dropWhile_le _ _)

theorem length_afterSign_lt (negative : Bool) {c : Char} (h : c.isDigit) (cs : List Char) :
    (afterSign negative (c :: cs)).2.length ≤ cs.length := by
  unfold afterSign
  rw [List.dropWhile_cons_of_pos h]
  dsimp only
  split
  · exact Nat.zero_le _
  · split
    · exact Nat.zero_le _
    · exact Nat.le_trans (length_fraction?_le _ _) (length_dropWhile_le _ _)

theorem length_startScalar_le (c : Char) (cs : List Char) :
    (startScalar c cs).2.length ≤ cs.length := by
  unfold startScalar
  split
  · exact Quotation.length_scan_le _
  split
  · exact length_word_le _ _ _
  split
  · exact length_word_le _ _ _
  split
  · exact length_word_le _ _ _
  split
  · exact length_afterSign_le _ _
  split
  · rename_i h
    exact length_afterSign_lt _ h _
  · exact Nat.zero_le _

theorem length_start_le (c : Char) (cs : List Char) : (start c cs).2.length ≤ cs.length := by
  unfold start
  split
  · exact Nat.le_refl _
  · exact length_startScalar_le c cs

/-- The text after a token is shorter than the text it was read from. -/
theorem length_next?_lt {cs rest : List Char} {t : Token} (h : next? cs = some (t, rest)) :
    rest.length < cs.length := by
  unfold next? at h
  split at h
  · exact nomatch h
  · rename_i c tail hc
    have hle := length_dropWhile_le isBlank cs
    rw [hc, List.length_cons] at hle
    have hstart := length_start_le c tail
    rw [Option.some.inj h] at hstart
    exact Nat.lt_of_le_of_lt hstart hle

/-- The tokens of a text; a fault is the last of them. -/
def scan (cs : List Char) : List Token :=
  match _h : next? cs with
  | none => []
  | some (t, rest) => t :: scan rest
termination_by cs.length
decreasing_by exact length_next?_lt _h

end Token

end CaskLint.Json
