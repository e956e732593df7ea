import CaskLint.Document.FromValue
import CaskLint.Json.Sketch

/-!
# Reading a document from its text

  The outer parts of a document (the document itself, the statements of its body, their spans)
  are read straight from the sketch of the text, left to right, so the first problem wins
  whether it is a fault of the text or a mismatch of the data. Members without a meaning
  are passed over.

  The kind of a statement is first turned into JSON values as a whole, which finds every fault
  inside it; only its type is looked at on the way. Then the values are read as
  `Document.read` says. So inside a kind faults win over mismatches.

* **`streamRecord`** — reads a record, given as an object or an array, from a sketch.
* **`streamKind`**, **`streamNode`**, **`Document.ofOutline`** — the parts.
* **`Document.ofText`** — reads a document from a text; nothing may follow it.
-/

namespace CaskLint

open Record Json

/-! ## Errors -/

/-- Why a text is not a document. -/
inductive ReadError where
  /-- The text is not JSON. -/
  | fault (f : Fault)
  /-- The text is JSON, but not that of a document. -/
  | mismatch (m : Mismatch)

/-- A fault as the reason. -/
def orFault {α : Type} : Except Fault α → Except ReadError α := Except.mapError .fault

/-- A mismatch as the reason. -/
def orMismatch {α : Type} : Except Mismatch α → Except ReadError α := Except.mapError .mismatch

namespace Document

/-! ## Values that are not records -/

/-- A value where another type is expected; an array or object is not looked into. -/
def streamWrongType {α : Type} (expected : String) (sketch : Sketch) : Except ReadError α :=
  match sketch with
  | .array _ _ => .error (.mismatch (.wrongType .sequence expected))
  | .object _ _ => .error (.mismatch (.wrongType .map expected))
  | leaf => do
    let v ← orFault (leaf.value 0)
    orMismatch (wrongType v expected)

/-- Reads a value that is neither array nor object. -/
def streamLeaf (s : Shape) (sketch : Sketch) : Except ReadError s.Value :=
  match sketch with
  | .array _ _ | .object _ _ => streamWrongType s.label sketch
  | leaf => do
    let v ← orFault (leaf.value 0)
    orMismatch (read s v)

/-! ## Records -/

/-- How values are read when so many more arrays and objects may be open. -/
abbrev Stream := Nat → (s : Shape) → Sketch → Except ReadError s.Value

/-- Reads the fields of a record from `index` on from the items of an array. -/
def streamItems (readAt : (s : Shape) → Sketch → Except ReadError s.Value)
    (label : String) (fault : Option Fault) (index : Nat) :
    (fs : Fields) → List Sketch → Except ReadError (Values Shape.Value fs)
  | [], [] => do
    orFault (failOn fault)
    return ()
  | [], _ :: _ => .error (.fault .malformed)
  | f :: fs, [] => do
    orFault (failOn fault)
    orMismatch (Values.standIns (lengthLabel label (index + (f :: fs).length)) index (f :: fs))
  | f :: fs, v :: vs => do
    let x ← readAt f.shape v
    let xs ← streamItems readAt label fault (index + 1) fs vs
    return (x, xs)

/-- Reads more members of a record. -/
def streamSlots (readAt : (s : Shape) → Sketch → Except ReadError s.Value) (fs : Fields)
    (slots : Slots Shape.Value fs) :
    List (Quotation × Sketch) → Except ReadError (Slots Shape.Value fs)
  | [] => .ok slots
  | (name, v) :: ms => do
    let name ← orFault name.read
    match Slots.assign? ReadError.mismatch name (fun s => readAt s v) fs slots with
    | none => do
      orFault v.skip
      streamSlots readAt fs slots ms
    | some slots => do streamSlots readAt fs (← slots) ms

/-- Reads a record, when `depth` more arrays and objects may be open. -/
def streamRecord (readAt : Stream) (label : String) (fs : Fields) (depth : Nat)
    (sketch : Sketch) : Except ReadError (Values Shape.Value fs) :=
  match sketch, depth with
  | .array _ _, 0 | .object _ _, 0 => .error (.fault .malformed)
  | .array vs fault, depth + 1 => streamItems (readAt depth) label fault 0 fs vs
  | .object ms fault, depth + 1 => do
    let slots ← streamSlots (readAt depth) fs (Slots.empty fs) ms
    orFault (failOn fault)
    orMismatch (Slots.complete fs slots)
  | leaf, _ => streamWrongType label leaf

/-! ## Kinds -/

/-- Reads the type of a kind of node. -/
def streamTag (sketch : Sketch) : Except ReadError KindName :=
  match sketch with
  | .text q => do
    let word ← orFault q.read
    orMismatch (kinds.ofText word)
  | other => streamWrongType Variants.label other

/-- The type and the other members of a kind of node, after those that gave `tag`. -/
def streamTagged (depth : Nat) (tag : Option KindName) :
    List (Quotation × Sketch) → Except ReadError (Option KindName × List (String × Json))
  | [] => .ok (tag, [])
  | (name, v) :: ms => do
    let name ← orFault name.read
    if name = "type" then
      match tag with
      | some _ => .error (.mismatch (.duplicateMember name))
      | none => streamTagged depth (some (← streamTag v)) ms
    else
      let value ← orFault (v.value depth)
      let (tag, members) ← streamTagged depth tag ms
      return (tag, (name, value) :: members)

/-- Reads a kind of node, when `depth` more arrays and objects may be open. -/
def streamKind (depth : Nat) (sketch : Sketch) : Except ReadError Kind :=
  match sketch, depth with
  | .array _ _, 0 | .object _ _, 0 => .error (.fault .malformed)
  | .array [] fault, _ + 1 => do
    orFault (failOn fault)
    .error (.mismatch (.missingMember "type"))
  | .array (tag :: items) fault, depth + 1 => do
    let name ← streamTag tag
    let values ← orFault (Sketch.values depth items)
    orFault (failOn fault)
    orMismatch (buildKind name <$> readItems (kindLabel name) 0 (kindFields name) values)
  | .object ms fault, depth + 1 => do
    let (tag, members) ← streamTagged depth none ms
    orFault (failOn fault)
    match tag with
    | none => .error (.mismatch (.missingMember "type"))
    | some name =>
      orMismatch (buildKind name <$>
        completed (kindFields name) (readSlots (kindFields name) (Slots.empty _) members))
  | leaf, _ => streamWrongType Shape.kind.label leaf

/-! ## Nodes and documents -/

/-- Reads the members of a span. -/
def streamInSpan : Stream := fun _ s sketch => streamLeaf s sketch

/-- Reads the members of a node. -/
def streamInNode : Stream := fun depth s sketch =>
  match s with
  | .kind => streamKind depth sketch
  | .span => buildSpan <$> streamRecord streamInSpan Shape.span.label spanFields depth sketch
  | s => streamLeaf s sketch

/-- Reads a node. -/
def streamNode (depth : Nat) (sketch : Sketch) : Except ReadError Node :=
  buildNode <$> streamRecord streamInNode Shape.node.label nodeFields depth sketch

/-- Reads the nodes of a list. -/
def streamNodes (depth : Nat) : List Sketch → Except ReadError (List Node)
  | [] => .ok []
  | v :: vs => do
    let n ← streamNode depth v
    let ns ← streamNodes depth vs
    return n :: ns

/-- Reads the members of a document. -/
def streamInDocument : Stream := fun depth s sketch =>
  match s with
  | .nodes =>
    match sketch, depth with
    | .array _ _, 0 => .error (.fault .malformed)
    | .array vs fault, depth + 1 => do
      let nodes ← streamNodes depth vs
      orFault (failOn fault)
      return nodes
    | other, _ => streamWrongType Shape.nodes.label other
  | s => streamLeaf s sketch

/-- Reads a document from an outline; nothing may follow it. -/
def ofOutline (outline : Outline) : Except ReadError Document := do
  let values ← streamRecord streamInDocument (recordLabel "CaskDocument") fields maxDepth
    outline.sketch
  if outline.trailing then .error (.fault .malformed) else return build values

/-- Reads a document from a text. -/
def ofText (text : String) : Except ReadError Document :=
  ofOutline (.ofText text)

end Document

end CaskLint
