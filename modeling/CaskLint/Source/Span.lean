/-!
# Byte ranges of a source text

  Positions in a source are byte offsets of its UTF-8 form. The file builds up in this order:

* **`byteLength`** — the length of a text in bytes.
* **`splitBytes?`** — a text cut in two at a byte offset, which works only where a
  character ends.
* **`Span`** — a byte range, with one reserved value, `Span.dummy`, for pieces of a tree
  that never stood in a source.
* **`Span.slice?`** — the text that a span covers. It is missing for the dummy span and
  for a range that is reversed, runs past the end, or cuts a character.
-/

namespace CaskLint

/-! ## Bytes -/

/-- The number of bytes of a text in UTF-8. -/
def byteLength (cs : List Char) : Nat :=
  cs.foldr (fun c n => c.utf8Size + n) 0

/-- The text before and after its first `n` bytes, if a character ends there. -/
def splitBytes? : Nat → List Char → Option (List Char × List Char)
  | 0, cs => some ([], cs)
  | _ + 1, [] => none
  | n + 1, c :: cs =>
    if c.utf8Size ≤ n + 1 then
      (splitBytes? (n + 1 - c.utf8Size) cs).map fun (before, after) => (c :: before, after)
    else none

/-! ## Spans -/

/-- A range of bytes: `start` is its first byte and `stop` the one after its last. -/
structure Span where
  start : UInt32
  stop : UInt32
deriving DecidableEq, Repr

namespace Span

/-- The span of a piece of a tree that never stood in a source. -/
def dummy : Span := ⟨4294967295, 4294967295⟩

/-- Whether this is the dummy span. -/
def isDummy (s : Span) : Bool := s == dummy

/-- The two offsets with two dots between them. -/
def display (s : Span) : String :=
  toString s.start.toNat ++ ".." ++ toString s.stop.toNat

/-- The text that the span covers, if it lies in the source and cuts no character. -/
def slice? (s : Span) (source : String) : Option String :=
  if s.isDummy || s.stop < s.start then none
  else do
    let (_, fromStart) ← splitBytes? s.start.toNat source.toList
    let (covered, _) ← splitBytes? (s.stop.toNat - s.start.toNat) fromStart
    return String.ofList covered

end Span

end CaskLint
