import CaskLint.Number.Shortest

/-!
# JSON values

  A JSON value as a program sees it. Objects keep their members in the order in which they
  were written, repeated names included. A number is an integer where its text is that
  of an integer of moderate size, and a floating-point number otherwise.
-/

namespace CaskLint

/-- A JSON value. -/
inductive Json where
  | null
  | flag (value : Bool)
  | integer (value : Int)
  | float (value : Binary64)
  | text (value : String)
  | array (items : List Json)
  | object (members : List (String × Json))

namespace Json

/-- Floating-point numbers in JSON: positional from 10^-5 to below 10^16, ties to even. -/
def floatStyle : FloatStyle := ⟨.toEven, fun e => -5 ≤ e && e ≤ 15⟩

end Json

end CaskLint
