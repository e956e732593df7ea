import CaskLint.Toml.Text
import CaskLint.Toml.Word

/-!
# Reading TOML

  A document is a sequence of lines: blank ones, comments, headers of tables, and keys with
  their values. **`statements`** reads the lines one after the other; **`read`** makes a
  document of them.

  Arrays and inline tables hold further values, at most 79 of them inside one another, so
  **`value`** is a recursion on the number of levels that are left. The items of an array
  are read by a loop whose bound is the length of the text.
-/

namespace CaskLint.Toml

/-! ## Blanks, comments and line ends -/

/-- The text without the blanks at its head. -/
def skipBlanks (cs : List Char) : List Char := cs.dropWhile isBlank

/-- The text without blanks, newlines and comments at its head. Every comment must end with
its line. -/
def skipLines (inComment : Bool) : List Char → Option (List Char)
  | [] => if inComment then none else some []
  | c :: cs =>
    if c = '\n' then skipLines false cs
    else if c = '\r' then
      if cs.head? = some '\n' then skipLines inComment cs else none
    else if inComment then
      if isTextChar c then skipLines true cs else none
    else if isBlank c then skipLines false cs
    else if c = '#' then skipLines true cs
    else some (c :: cs)

/-- What follows the rest of a line on which nothing but a comment may stand. -/
def lineEnd? (cs : List Char) : Option (List Char) :=
  let cs := skipBlanks cs
  let cs := match cs with
    | '#' :: cs => cs.dropWhile isTextChar
    | cs => cs
  match cs with
  | [] => some []
  | '\n' :: cs => some cs
  | '\r' :: '\n' :: cs => some cs
  | _ => none

/-! ## Keys -/

/-- Whether a character may stand in a key without quotes. -/
def isKeyChar (c : Char) : Bool := c.isAlphanum || c == '-' || c == '_'

/-- One part of a key. -/
def keyPart? : List Char → Option (String × List Char)
  | '"' :: cs => (basicText cs).map fun (text, rest) => (String.ofList text, rest)
  | '\'' :: cs => (literalText cs).map fun (text, rest) => (String.ofList text, rest)
  | cs =>
    let part := cs.takeWhile isKeyChar
    if part.isEmpty then none else some (String.ofList part, cs.dropWhile isKeyChar)

/-- The parts of a dotted key, at most `bound` of them. -/
def keyParts? : Nat → List Char → Option (List String × List Char)
  | 0, _ => none
  | bound + 1, cs => do
    let (part, cs) ← keyPart? (skipBlanks cs)
    match skipBlanks cs with
    | '.' :: cs => do
      let (parts, cs) ← keyParts? bound cs
      return (part :: parts, cs)
    | cs => return ([part], cs)

/-- How many levels of arrays and inline tables, and of parts of a key, there may be. -/
def maxLevels : Nat := 79

/-- A dotted key as the path to a table and the key in it. -/
def key? (cs : List Char) : Option ((List String × String) × List Char) := do
  let (parts, cs) ← keyParts? maxLevels cs
  let last ← parts.getLast?
  return ((parts.dropLast, last), cs)

/-! ## Values -/

/-- A reader that takes something off the head of a text. -/
abbrev Reader (α : Type) := List Char → Option (α × List Char)

/-- The items of an array after its bracket or a comma, at most `bound` of them. -/
def items? (item : Reader Value) : Nat → Reader (List Value)
  | 0, _ => none
  | bound + 1, cs => do
    match ← skipLines false cs with
    | ']' :: cs => return ([], cs)
    | cs => do
      let (v, cs) ← item cs
      match ← skipLines false cs with
      | ']' :: cs => return ([v], cs)
      | ',' :: cs => do
        let (vs, cs) ← items? item bound cs
        return (v :: vs, cs)
      | _ => none

/-- A key, the sign after it, and its value. -/
def pair? (item : Reader Value) : Reader (List String × String × Value) := fun cs => do
  let ((path, key), cs) ← key? cs
  match cs with
  | '=' :: cs => do
    let (v, cs) ← item (skipBlanks cs)
    return ((path, key, v), cs)
  | _ => none

/-- The pairs of an inline table after its brace, if there is at least one. -/
def pairs? (item : Reader Value) : Nat → Reader (List (List String × String × Value))
  | 0, _ => none
  | bound + 1, cs => do
    let (p, cs) ← pair? item cs
    match skipBlanks cs with
    | '\x7d' :: cs => return ([p], cs)
    | ',' :: cs => do
      let (ps, cs) ← pairs? item bound cs
      return (p :: ps, cs)
    | _ => none

/-- The array after its bracket. -/
def array? (item : Reader Value) : Reader Value := fun cs => do
  let (vs, cs) ← items? item (cs.length + 1) cs
  return (.array vs, cs)

/-- The inline table after its brace. -/
def inline? (item : Reader Value) : Reader Value := fun cs =>
  match skipBlanks cs with
  | '\x7d' :: cs => some (.table [], cs)
  | cs => do
    let (ps, cs) ← pairs? item (cs.length + 1) cs
    return (← inlineTable ps, cs)

/-- The value at the head of a text, with so many levels left for what is inside it. -/
def value? : Nat → Reader Value
  | levels, '[' :: cs =>
    match levels with
    | 0 => none
    | levels + 1 => array? (value? levels) cs
  | levels, '\x7b' :: cs =>
    match levels with
    | 0 => none
    | levels + 1 => inline? (value? levels) cs
  | _, '"' :: cs => (text? ('"' :: cs)).map fun (text, rest) => (.text text, rest)
  | _, '\'' :: cs => (text? ('\'' :: cs)).map fun (text, rest) => (.text text, rest)
  | _, cs => scalar? cs

/-! ## Documents -/

/-- The statement at the head of a line, and what follows the line. -/
def statement? : Reader Statement
  | '[' :: '[' :: cs => do
    let ((path, key), cs) ← key? cs
    match cs with
    | ']' :: ']' :: cs => return (.element path key, ← lineEnd? cs)
    | _ => none
  | '[' :: cs => do
    let ((path, key), cs) ← key? cs
    match cs with
    | ']' :: cs => return (.table path key, ← lineEnd? cs)
    | _ => none
  | cs => do
    let ((path, key, v), cs) ← pair? (value? maxLevels) cs
    return (.define path key v, ← lineEnd? cs)

/-- The statements of a document of at most `bound` lines. -/
def statements : Nat → List Char → Option (List Statement)
  | 0, _ => none
  | bound + 1, cs =>
    match skipBlanks cs with
    | [] => some []
    | '\n' :: cs => statements bound cs
    | '\r' :: '\n' :: cs => statements bound cs
    | '#' :: cs => do statements bound (← lineEnd? ('#' :: cs))
    | cs => do
      let (s, cs) ← statement? cs
      let ss ← statements bound cs
      return s :: ss

/-- A document without the mark of byte order that may lead it. -/
def dropByteOrderMark : List Char → List Char
  | '\ufeff' :: cs => cs
  | cs => cs

/-- The keys and values of a document; none if the text is not TOML. -/
def read (text : String) : Option (List (String × Value)) := do
  let cs := dropByteOrderMark text.toList
  document (← statements (cs.length + 1) cs)

end CaskLint.Toml
