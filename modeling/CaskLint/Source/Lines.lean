import CaskLint.Source.Span

/-!
# Lines and columns

  A `LineIndex` remembers where the lines of a source begin, so that a byte offset can be
  told as a line and a column. The first line begins at offset 0; every further one begins
  right after a newline. Lines and columns count from 1 and columns count bytes, so the
  location of an offset is defined for every number, inside a character or past the end
  of the source as well.

  A **`Location`** has 32 bits for each of the two numbers, and keeps no more of them than that.
-/

namespace CaskLint

/-- A place in a source: line and column, both counted from 1, the column in bytes. -/
structure Location where
  line : UInt32
  column : UInt32
deriving DecidableEq, Repr

/-- The line, a colon and the column. -/
def Location.display (l : Location) : String :=
  toString l.line.toNat ++ ":" ++ toString l.column.toNat

/-- The offsets right after the newlines of a text whose first byte is at `offset`. -/
def startsAfterNewlines (offset : Nat) : List Char → List Nat
  | [] => []
  | c :: cs =>
    let next := offset + c.utf8Size
    if c = '\n' then next :: startsAfterNewlines next cs else startsAfterNewlines next cs

/-- Where the lines of a source begin; the first one, at offset 0, is left out. -/
structure LineIndex where
  laterStarts : List Nat

namespace LineIndex

/-- The index of a source text. -/
def ofSource (source : String) : LineIndex :=
  ⟨startsAfterNewlines 0 source.toList⟩

/-- The number of the line that holds a byte offset. -/
def lineAt (index : LineIndex) (offset : Nat) : Nat :=
  (index.laterStarts.takeWhile (· ≤ offset)).length + 1

/-- How far into its line a byte offset is, counted from 1. -/
def columnAt (index : LineIndex) (offset : Nat) : Nat :=
  offset - (index.laterStarts.takeWhile (· ≤ offset)).getLast?.getD 0 + 1

/-- The line that holds a byte offset, and how far into that line the offset is. Numbers that are
    no words are cut down to words. -/
def location (index : LineIndex) (offset : UInt32) : Location :=
  ⟨.ofNat (index.lineAt offset.toNat), .ofNat (index.columnAt offset.toNat)⟩

/-- Where a span starts; the dummy span starts nowhere. -/
def spanStart? (index : LineIndex) (s : Span) : Option Location :=
  if s.isDummy then none else some (index.location s.start)

end LineIndex

end CaskLint
