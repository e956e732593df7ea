import CaskLint.Json.Value
import CaskLint.Record.Mismatch

/-!
# Choosing from a closed set of names

  Some values of a document choose one of several variants, such as the kinds of node. The
  **`Variants`** of a choice are listed in a fixed order.

* **`Variants.ofText`** — the variant that a word names.
* **`Variants.ofJson`** — the variant that a value names: a word, or a position in the list.
-/

namespace CaskLint

/-- What a JSON value is called when another one was expected. -/
def Json.found : Json → Found
  | .null => .null
  | .flag value => .flag value
  | .integer value => .integer value
  | .float value => .float value
  | .text value => .text value
  | .array _ => .sequence
  | .object _ => .map

namespace Document

/-- The value is not of the expected type. -/
def wrongType {α : Type} (v : Json) (expected : String) : Except Mismatch α :=
  .error (.wrongType v.found expected)

/-- The variants of a choice, in the order in which they are listed, and their names. -/
structure Variants (α : Type) where
  all : List α
  text : α → String

namespace Variants

variable {α : Type} (variants : Variants α)

/-- What the name of a variant is called in messages. -/
def label : String := "variant identifier"

/-- What the position of one of so many variants is called in messages. -/
def positionLabel (count : Nat) : String := "variant index 0 <= i < " ++ toString count

/-- The variant that a word names. -/
def ofText (word : String) : Except Mismatch α :=
  match variants.all.find? (variants.text · == word) with
  | some variant => .ok variant
  | none => .error (.unknownVariant word (variants.all.map variants.text))

/-- The variant at a position in the list. -/
def ofPosition (i : Nat) : Except Mismatch α :=
  match variants.all[i]? with
  | some variant => .ok variant
  | none => .error (.wrongValue (.integer i) (positionLabel variants.all.length))

/-- The variant that a value names. -/
def ofJson : Json → Except Mismatch α
  | .text word => variants.ofText word
  | .integer (.ofNat i) => variants.ofPosition i
  | v => wrongType v label

end Variants

end Document

end CaskLint
