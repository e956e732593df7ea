import CaskLint.Text.Hexadecimal

/-!
# Texts in TOML

  A text stands in double quotes, where a backslash escapes, or in single quotes, where
  nothing does. Three quotes in a row open a text of several lines: a newline right after
  them is dropped, and up to two quotes right before the closing three belong to the text.
  In such a text in double quotes, a backslash at the end of a line joins it with the next
  character that is no blank.

  Each reader takes what follows the opening quotes and gives the text and what follows the
  closing ones.
-/

namespace CaskLint.Toml

/-! ## Characters -/

/-- Whether a character is a blank within a line. -/
def isBlank (c : Char) : Bool := c == ' ' || c == '\t'

/-- Whether a character may stand in a comment or, quotes and backslash apart, in a text. -/
def isTextChar (c : Char) : Bool := c == '\t' || (32 ≤ c.toNat && c.toNat != 127)

/-- The character whose code point the hexadecimal digits spell. -/
def codePoint? (digits : List Char) : Option Char := do
  let value ← digits.foldlM (fun value c => (Text.hexValue? c).map (value * 16 + ·)) 0
  if value.isValidChar then some (Char.ofNat value) else none

/-- The character that a backslash and this letter stand for. -/
def escaped? (c : Char) : Option Char :=
  if c = '"' ∨ c = '\\' then some c
  else if c = 'b' then some '\x08'
  else if c = 'f' then some '\x0c'
  else if c = 'n' then some '\n'
  else if c = 'r' then some '\r'
  else if c = 't' then some '\t'
  else none

/-- A character put before a text that is read. -/
def putBefore (c : Char) (text : Option (List Char × List Char)) :
    Option (List Char × List Char) :=
  text.map fun (cs, rest) => (c :: cs, rest)

/-! ## Texts on one line -/

/-- The text in double quotes after the opening one. -/
def basicText : List Char → Option (List Char × List Char)
  | [] => none
  | c :: cs =>
    if c = '"' then some ([], cs)
    else if c = '\\' then
      match cs with
      | 'u' :: d₁ :: d₂ :: d₃ :: d₄ :: cs => do
        putBefore (← codePoint? [d₁, d₂, d₃, d₄]) (basicText cs)
      | 'U' :: d₁ :: d₂ :: d₃ :: d₄ :: d₅ :: d₆ :: d₇ :: d₈ :: cs => do
        putBefore (← codePoint? [d₁, d₂, d₃, d₄, d₅, d₆, d₇, d₈]) (basicText cs)
      | letter :: cs => do putBefore (← escaped? letter) (basicText cs)
      | [] => none
    else if isTextChar c then putBefore c (basicText cs)
    else none

/-- The text in single quotes after the opening one. -/
def literalText : List Char → Option (List Char × List Char)
  | [] => none
  | c :: cs =>
    if c = '\'' then some ([], cs)
    else if isTextChar c then putBefore c (literalText cs)
    else none

/-! ## Texts of several lines -/

/-- The text without a newline at its head. -/
def dropNewline : List Char → List Char
  | '\n' :: cs => cs
  | '\r' :: '\n' :: cs => cs
  | cs => cs

/-- Whether nothing but blanks is left of the line. -/
def atLineEnd (cs : List Char) : Bool :=
  match cs.dropWhile isBlank with
  | '\n' :: _ => true
  | '\r' :: '\n' :: _ => true
  | _ => false

/-- After one quote: if two more follow, the text ends, with up to two quotes as its last
characters. -/
def closing? (quote : Char) : List Char → Option (List Char × List Char)
  | a :: b :: cs =>
    if a = quote ∧ b = quote then
      let last := (cs.takeWhile (· == quote)).take 2
      some (last, cs.drop last.length)
    else none
  | _ => none

/-- The text in three double quotes after the opening ones and a newline. When `joining`, it
goes on after a backslash at the end of a line. -/
def basicLines (joining : Bool) : List Char → Option (List Char × List Char)
  | [] => none
  | c :: cs =>
    if c = '\r' then
      if cs.head? = some '\n' then basicLines joining cs else none
    else if joining && (isBlank c || c == '\n') then basicLines true cs
    else if c = '"' then
      match closing? '"' cs with
      | some ended => some ended
      | none => putBefore c (basicLines false cs)
    else if c = '\\' then
      if atLineEnd cs then basicLines true cs
      else match cs with
      | 'u' :: d₁ :: d₂ :: d₃ :: d₄ :: cs => do
        putBefore (← codePoint? [d₁, d₂, d₃, d₄]) (basicLines false cs)
      | 'U' :: d₁ :: d₂ :: d₃ :: d₄ :: d₅ :: d₆ :: d₇ :: d₈ :: cs => do
        putBefore (← codePoint? [d₁, d₂, d₃, d₄, d₅, d₆, d₇, d₈]) (basicLines false cs)
      | letter :: cs => do putBefore (← escaped? letter) (basicLines false cs)
      | [] => none
    else if c = '\n' ∨ isTextChar c then putBefore c (basicLines false cs)
    else none

/-- The text in three single quotes after the opening ones and a newline. -/
def literalLines : List Char → Option (List Char × List Char)
  | [] => none
  | c :: cs =>
    if c = '\r' then
      if cs.head? = some '\n' then literalLines cs else none
    else if c = '\'' then
      match closing? '\'' cs with
      | some ended => some ended
      | none => putBefore c (literalLines cs)
    else if c = '\n' ∨ isTextChar c then putBefore c (literalLines cs)
    else none

/-! ## Any text -/

/-- The text at the head of `cs`, in whatever quotes it is. -/
def text? (cs : List Char) : Option (String × List Char) := do
  let (text, rest) ← match cs with
    | '"' :: '"' :: '"' :: cs => basicLines false (dropNewline cs)
    | '"' :: cs => basicText cs
    | '\'' :: '\'' :: '\'' :: cs => literalLines (dropNewline cs)
    | '\'' :: cs => literalText cs
    | _ => none
  return (String.ofList text, rest)

end CaskLint.Toml
