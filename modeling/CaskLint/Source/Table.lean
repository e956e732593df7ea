import CaskLint.Source.Lines

/-!
# Lines in a table of words

  A **`LineTable`** keeps the beginnings of the lines of a source as 32-bit words in an array, so
  that the line of an offset is found by halving (**`partitionPoint`**). A difference or a sum that
  is no word, and what is not in the table, has no result: **`LineTable.location?`** is missing as
  soon as one step of the lookup is. Only the number of the line is cut down to a word.
-/

namespace CaskLint

/-! ## Halving -/

/-- The number of items before the first one that fails a test, where no item after that one
    passes. -/
def partitionPoint {α : Type} (test : α → Bool) (xs : Array α) : Nat := search 0 xs.size
where
  /-- Between two indices: the items before the first index pass, those from the second on fail. -/
  search (low high : Nat) : Nat :=
    if low < high then
      let middle := low + (high - low) / 2
      if xs[middle]?.any test then search (middle + 1) high else search low middle
    else low
  termination_by high - low

/-! ## Words -/

/-- The difference of two words, if it is not below zero. -/
def subWords? (a b : UInt32) : Option UInt32 :=
  if b ≤ a then some (a - b) else none

/-- The sum of two words, if it is a word. -/
def addWords? (a b : UInt32) : Option UInt32 :=
  if a.toNat + b.toNat < UInt32.size then some (a + b) else none

/-! ## The table -/

/-- Where the lines of a source begin, the first one included. -/
structure LineTable where
  starts : Array UInt32

namespace LineTable

/-- The table of a source text; offsets that are no words are cut down to words. -/
def ofSource (source : String) : LineTable :=
  ⟨((0 :: startsAfterNewlines 0 source.toList).map UInt32.ofNat).toArray⟩

/-- The line that holds a byte offset, and how far into that line the offset is. -/
def location? (table : LineTable) (offset : UInt32) : Option Location := do
  let row := partitionPoint (· ≤ offset) table.starts - 1
  let start ← table.starts[row]?
  let column ← addWords? (← subWords? offset start) 1
  return ⟨.ofNat (row + 1), column⟩

end LineTable

end CaskLint
