import CaskLint.Document.Literal

/-!
# Reading parts of a document from JSON values

  **`read`** makes the value of a shape from a JSON value, following the tables of the document
  format. A record may be given as an object or as an array of its fields in order. Errors
  come in the order of the text: the members of an object are read one after the other, and
  only then is looked for members that are missing.

  A kind of node is a record whose table is chosen by its member `type`, so that member is
  looked up first (`tagOf`), wherever it stands.
-/

namespace CaskLint.Document

open Record

/-! ## The type of a node -/

/-- The choice between the kinds of node. -/
def kinds : Variants KindName := ⟨KindName.all, KindName.text⟩

/-- The only `type` among the members of a kind of node, after those that gave `tag`. -/
def tagOf (tag : Option KindName) : List (String × Json) → Except Mismatch KindName
  | [] =>
    match tag with
    | some name => .ok name
    | none => .error (.missingMember "type")
  | (member, v) :: members =>
    if member = "type" then
      match tag with
      | some _ => .error (.duplicateMember "type")
      | none => do tagOf (some (← kinds.ofJson v)) members
    else tagOf tag members

/-! ## Leaves -/

/-- Reads a byte offset, which is below 2^32. -/
def readOffset (n : Int) : Except Mismatch UInt32 :=
  if 0 ≤ n ∧ n < 4294967296 then .ok (.ofNat n.toNat) else .error (.wrongValue (.integer n) "u32")

/-- Reads a list of texts. -/
def readTexts : List Json → Except Mismatch (List String)
  | [] => .ok []
  | v :: vs => do
    let s ← readString v
    let ss ← readTexts vs
    return s :: ss

/-! ## Records -/

/-- The record that the members read so far make. -/
def completed (fs : Fields) (slots : Except Mismatch (Slots Shape.Value fs)) :
    Except Mismatch (Values Shape.Value fs) := do
  Slots.complete fs (← slots)

mutual

/-- Reads a value of this shape. -/
def read : (s : Shape) → Json → Except Mismatch s.Value
  | .text, .text s => .ok s
  | .optionalText, .null => .ok (none : Option String)
  | .optionalText, .text s => .ok (some s)
  | .texts, .array vs => readTexts vs
  | .offset, .integer n => readOffset n
  | .span, .array vs => buildSpan <$> readItems Shape.span.label 0 spanFields vs
  | .span, .object ms =>
    buildSpan <$> completed spanFields (readSlots spanFields (Slots.empty _) ms)
  | .node, .array vs => buildNode <$> readItems Shape.node.label 0 nodeFields vs
  | .node, .object ms =>
    buildNode <$> completed nodeFields (readSlots nodeFields (Slots.empty _) ms)
  | .optionalNode, .null => .ok (none : Option Node)
  | .optionalNode, .array vs =>
    (some ∘ buildNode) <$> readItems Shape.node.label 0 nodeFields vs
  | .optionalNode, .object ms =>
    (some ∘ buildNode) <$> completed nodeFields (readSlots nodeFields (Slots.empty _) ms)
  | .nodes, .array vs => readNodes vs
  | .kind, .array [] => .error (.missingMember "type")
  | .kind, .array (tag :: vs) =>
    match kinds.ofJson tag with
    | .error e => .error e
    | .ok name => buildKind name <$> readItems (kindLabel name) 0 (kindFields name) vs
  | .kind, .object ms =>
    match tagOf none ms with
    | .error e => .error e
    | .ok name =>
      buildKind name <$>
        completed (kindFields name) (readSlots (kindFields name) (Slots.empty _) ms)
  | .invocation, .array vs =>
    buildInvocation <$> readItems Shape.invocation.label 0 invocationFields vs
  | .invocation, .object ms =>
    buildInvocation <$> completed invocationFields (readSlots invocationFields (Slots.empty _) ms)
  | .literal, v => readLiteral v
  | s, v => wrongType v s.label

/-- Reads the fields of a record from `index` on from an array. -/
def readItems (label : String) (index : Nat) :
    (fs : Fields) → List Json → Except Mismatch (Values Shape.Value fs)
  | fs, [] => Values.standIns (lengthLabel label (index + fs.length)) index fs
  | [], v :: vs =>
    .error (.wrongLength (index + (v :: vs).length) (countElements index ++ " in sequence"))
  | f :: fs, v :: vs => do
    let x ← read f.shape v
    let xs ← readItems label (index + 1) fs vs
    return (x, xs)

/-- Reads more members of a record. -/
def readSlots (fs : Fields) (slots : Slots Shape.Value fs) :
    List (String × Json) → Except Mismatch (Slots Shape.Value fs)
  | [] => .ok slots
  | (name, v) :: ms =>
    match Slots.assign? id name (fun s => read s v) fs slots with
    | none => readSlots fs slots ms
    | some (.ok slots) => readSlots fs slots ms
    | some (.error e) => .error e

/-- Reads a list of nodes. -/
def readNodes : List Json → Except Mismatch (List Node)
  | [] => .ok []
  | v :: vs => do
    let n ← read .node v
    let ns ← readNodes vs
    return n :: ns

end

end CaskLint.Document
