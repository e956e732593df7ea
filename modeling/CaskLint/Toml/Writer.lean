import CaskLint.Toml.Text

/-!
# Writing TOML

  A text is written in the first of several quotations that can hold it (**`writeText`**): plain
  ones first, those of several lines next, and escapes only where nothing else works. A list
  of texts stands on one line as long as it has at most one item.
-/

namespace CaskLint.Toml

/-! ## Inside quotes -/

/-- Whether a text in quotes cannot hold this character as it is. -/
def needsEscape (c : Char) : Bool := !(c == '\n' || isTextChar c)

/-- The length of the longest run of a character. -/
def longestRun (c : Char) (run longest : Nat) : List Char → Nat
  | [] => longest
  | d :: cs =>
    if d = c then longestRun c (run + 1) (max longest (run + 1)) cs
    else longestRun c 0 longest cs

/-- A character other than the quote, between double quotes on one or on several lines. -/
def escape (lines : Bool) (c : Char) : List Char :=
  if c = '\\' then ['\\', '\\']
  else if c = '\t' then ['\\', 't']
  else if c = '\n' then if lines then ['\n'] else ['\\', 'n']
  else if c = '\r' then ['\\', 'r']
  else if c.toNat = 8 then ['\\', 'b']
  else if c.toNat = 12 then ['\\', 'f']
  else if needsEscape c then
    ['\\', 'u', '0', '0', Text.upperHex (c.toNat / 16), Text.upperHex (c.toNat % 16)]
  else [c]

/-- A text between double quotes. On several lines only each third quote of a run needs a
backslash; `run` quotes without one stand right before. -/
def escapeAll (lines : Bool) (run : Nat) : List Char → List Char
  | [] => []
  | c :: cs =>
    if c = '"' then
      if lines && run < 2 then c :: escapeAll lines (run + 1) cs
      else '\\' :: c :: escapeAll lines 0 cs
    else escape lines c ++ escapeAll lines 0 cs

/-! ## Quotations -/

/-- The ways to quote a text. -/
inductive Quoting where
  | basic | literal | basicLines | literalLines
deriving DecidableEq, Repr

/-- The first way of quoting that suits a text. -/
def quotingOf (cs : List Char) : Quoting :=
  let controls := cs.any needsEscape
  let newline := cs.contains '\n'
  let backslash := cs.contains '\\'
  if !controls && !backslash && !newline && !cs.contains '"' then .basic
  else if !controls && !newline && !cs.contains '\'' then .literal
  else if !controls && !backslash && longestRun '"' 0 0 cs ≤ 2 then .basicLines
  else if !controls && longestRun '\'' 0 0 cs ≤ 2 then .literalLines
  else if newline then .basicLines
  else .basic

/-- A text in this way of quoting. Where it has newlines, one more follows the opening quotes. -/
def Quoting.write (cs : List Char) : Quoting → List Char
  | .basic => '"' :: escapeAll false 0 cs ++ ['"']
  | .literal => '\'' :: cs ++ ['\'']
  | .basicLines =>
    ['"', '"', '"'] ++ (if cs.contains '\n' then ['\n'] else []) ++ escapeAll true 0 cs ++
      ['"', '"', '"']
  | .literalLines =>
    ['\'', '\'', '\''] ++ (if cs.contains '\n' then ['\n'] else []) ++ cs ++
      ['\'', '\'', '\'']

/-- A text in quotes. -/
def writeText (s : String) : List Char := (quotingOf s.toList).write s.toList

/-- A list of texts. -/
def writeTexts : List String → List Char
  | [] => ['[', ']']
  | [only] => '[' :: writeText only ++ [']']
  | texts =>
    '[' :: '\n' :: texts.flatMap (fun s => [' ', ' ', ' ', ' '] ++ writeText s ++ [',', '\n']) ++
      [']']

end CaskLint.Toml
