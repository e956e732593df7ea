import CaskLint.Document.Schema
import CaskLint.Document.Variant

/-!
# Literals as JSON values

  A literal is an object with the members `kind` and `value`, or an array of the two. The first
  names the type of the literal and so decides how the second is read, in whatever order the
  members stand. Other members do not matter. A `nil` given as an object needs no value.

  The two forms spell the type in different ways besides the plain word: an array may give its
  position in the list of types, and an object may wrap it in an object of its own.
-/

namespace CaskLint

/-- The floating-point number nearest to an integer. -/
def Binary64.ofInt (n : Int) : Binary64 :=
  ofMagnitude? (n < 0) (Magnitude.ofNat? n.natAbs)

namespace Document

/-! ## Types of literals -/

/-- The names of the types of literals. -/
inductive LiteralName where
  | str | sym | int | float | bool | nil | regexp
deriving DecidableEq, Repr

namespace LiteralName

/-- The names in the order in which they are listed. -/
def all : List LiteralName := [.str, .sym, .int, .float, .bool, .nil, .regexp]

/-- The name as a word. -/
def text : LiteralName → String
  | .str => "str"
  | .sym => "sym"
  | .int => "int"
  | .float => "float"
  | .bool => "bool"
  | .nil => "nil"
  | .regexp => "regexp"

/-- The choice between the types of literals. -/
def variants : Variants LiteralName := ⟨all, text⟩

/-- The name given by the member `kind`: a word, or an object whose only member it names. -/
def ofMember : Json → Except Mismatch LiteralName
  | .text word => variants.ofText word
  | .object [(word, payload)] => do
    let name ← variants.ofText word
    match payload with
    | .null | .object [] => return name
    | other => wrongType other "unit"
  | .object _ => .error (.wrongValue .map "map with a single key")
  | v => wrongType v "string or map"

end LiteralName

/-! ## Reading literals -/

/-- Reads the text of a literal. -/
def readString : Json → Except Mismatch String
  | .text s => .ok s
  | v => wrongType v "a string"

/-- Reads the integer of a literal, from -2^63 to below 2^63. -/
def readInt64 : Json → Except Mismatch Int64
  | .integer n =>
    if -9223372036854775808 ≤ n ∧ n < 9223372036854775808 then .ok (.ofInt n)
    else .error (.wrongValue (.integer n) "i64")
  | v => wrongType v "i64"

/-- Reads the floating-point number of a literal; an integer is rounded to one. -/
def readFloat : Json → Except Mismatch Binary64
  | .integer n => .ok (.ofInt n)
  | .float x => .ok x
  | v => wrongType v "f64"

/-- Reads the truth value of a literal. -/
def readBool : Json → Except Mismatch Bool
  | .flag b => .ok b
  | v => wrongType v "a boolean"

/-- Reads the value of a literal of this type. -/
def readPayload (name : LiteralName) (v : Json) : Except Mismatch Literal :=
  match name with
  | .str => .str <$> readString v
  | .sym => .sym <$> readString v
  | .int => .int <$> readInt64 v
  | .float => .float <$> readFloat v
  | .bool => .bool <$> readBool v
  | .nil =>
    match v with
    | .null => .ok .nil
    | other => wrongType other "unit variant Literal::Nil"
  | .regexp => .regexp <$> readString v

/-- No further `kind` or `value` may follow. -/
def noMore (l : Literal) : List (String × Json) → Except Mismatch Literal
  | [] => .ok l
  | (name, _) :: _ => .error (.duplicateMember name)

/-- Reads a literal from the members of its object that are named `kind` or `value`. -/
def readTagged : List (String × Json) → Except Mismatch Literal
  | [] => .error (.missingMember "kind")
  | [(first, v)] =>
    if first = "kind" then do
      let name ← LiteralName.ofMember v
      if name = .nil then return .nil else .error (.missingMember "value")
    else .error (.missingMember "kind")
  | (first, v) :: (second, w) :: more =>
    if first = "kind" then do
      let name ← LiteralName.ofMember v
      if second = "kind" then .error (.duplicateMember second)
      let l ← readPayload name w
      noMore l more
    else if second = "kind" then do
      let name ← LiteralName.ofMember w
      let l ← readPayload name v
      noMore l more
    else .error (.duplicateMember second)

/-- Whether a member of this name means something in a literal. -/
def isLiteralMember (name : String) : Bool := name == "kind" || name == "value"

/-- Reads a literal. -/
def readLiteral : Json → Except Mismatch Literal
  | .object members => readTagged (members.filter fun (name, _) => isLiteralMember name)
  | .array [] => .error (.wrongLength 0 Shape.literal.label)
  | .array (kind :: more) => do
    let name ← LiteralName.variants.ofJson kind
    match more with
    | [] => .error (.wrongLength 1 Shape.literal.label)
    | value :: excess =>
      let l ← readPayload name value
      if excess.isEmpty then return l
      else .error (.wrongLength (2 + excess.length) (countElements 2 ++ " in sequence"))
  | v => wrongType v Shape.literal.label

end Document

end CaskLint
