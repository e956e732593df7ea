import CaskLint.Document.Basic
import CaskLint.Record.Fields

/-!
# The document format

  Which members each part of a document has, in which order, and which of them may be left
  out. A **`Shape`** says what a member holds, `Shape.Value` is the type of such values,
  and a table lists the fields of each record. `KindName.fields` has one table for each of the
  nine kinds of node; `KindName.build` makes the kind from the values.

  Readers and their errors follow these tables and nothing else, so what holds of all
  records (order does not matter, no member is given twice) is a fact about
  `Record.Slots`.
-/

namespace CaskLint.Document

open Record

/-! ## Shapes -/

/-- What a member of a record holds. -/
inductive Shape where
  | text | optionalText | texts
  | offset | span
  | node | optionalNode | nodes
  | kind | invocation | literal
deriving DecidableEq, Repr

/-- The values of a shape. -/
def Shape.Value : Shape → Type
  | .text => String
  | .optionalText => Option String
  | .texts => List String
  | .offset => UInt32
  | .span => Span
  | .node => Node
  | .optionalNode => Option Node
  | .nodes => List Node
  | .kind => Kind
  | .invocation => Invocation
  | .literal => Literal

/-- A list of fields of a document record. -/
abbrev Fields := List (Field Shape.Value)

/-! ## Records -/

/-- A document. -/
def fields : Fields :=
  [⟨"token", .text, none⟩, ⟨"source", .optionalText, some (none : Option String)⟩,
    ⟨"body", .nodes, some ([] : List Node)⟩]

/-- A span. -/
def spanFields : Fields :=
  [⟨"start", .offset, none⟩, ⟨"end", .offset, none⟩]

/-- A node. -/
def nodeFields : Fields :=
  [⟨"kind", .kind, none⟩, ⟨"span", .span, some Span.dummy⟩]

/-- An invocation. -/
def invocationFields : Fields :=
  [⟨"receiver", .optionalNode, some (none : Option Node)⟩, ⟨"method", .text, none⟩,
    ⟨"args", .nodes, some ([] : List Node)⟩]

/-- A block call. -/
def blockFields : Fields :=
  [⟨"call", .invocation, none⟩, ⟨"params", .texts, some ([] : List String)⟩,
    ⟨"body", .optionalNode, some (none : Option Node)⟩]

/-- The document that the values of its fields make. -/
def build : Values Shape.Value fields → Document
  | (token, source, body, _) => ⟨token, source, body⟩

/-- The span that the values of its fields make. -/
def buildSpan : Values Shape.Value spanFields → Span
  | (start, stop, _) => ⟨start, stop⟩

/-- The node that the values of its fields make. -/
def buildNode : Values Shape.Value nodeFields → Node
  | (kind, span, _) => ⟨kind, span⟩

/-- The invocation that the values of its fields make. -/
def buildInvocation : Values Shape.Value invocationFields → Invocation
  | (receiver, method, args, _) => ⟨receiver, method, args⟩

/-! ## Kinds of node -/

/-- The fields of a kind of node. -/
def kindFields : KindName → Fields
  | .send => invocationFields
  | .block => blockFields
  | .begin => [⟨"children", .nodes, none⟩]
  | .interpolation => [⟨"parts", .nodes, none⟩]
  | .literal => [⟨"value", .literal, none⟩]
  | .array => [⟨"items", .nodes, none⟩]
  | .hash => [⟨"pairs", .nodes, none⟩]
  | .pair => [⟨"key", .node, none⟩, ⟨"value", .node, none⟩]
  | .other => [⟨"label", .text, some ""⟩, ⟨"children", .nodes, some ([] : List Node)⟩]

/-- The kind of node that the values of its fields make. -/
def buildKind : (name : KindName) → Values Shape.Value (kindFields name) → Kind
  | .send, values => .send (buildInvocation values)
  | .block, (call, params, body, _) => .block ⟨call, params, body⟩
  | .begin, (children, _) => .begin children
  | .interpolation, (parts, _) => .interpolation parts
  | .literal, (value, _) => .literal value
  | .array, (items, _) => .array items
  | .hash, (pairs, _) => .hash pairs
  | .pair, (key, value, _) => .pair key value
  | .other, (label, children, _) => .other label children

/-! ## Names in messages -/

/-- What a record is called in messages. -/
def recordLabel (name : String) : String := "struct " ++ name

/-- What the record of a kind of node is called in messages. -/
def kindLabel : KindName → String
  | .send => recordLabel "Invocation"
  | .block => recordLabel "BlockCall"
  | .begin => "struct variant NodeKind::Begin"
  | .interpolation => "struct variant NodeKind::Interpolation"
  | .literal => "struct variant NodeKind::Literal"
  | .array => "struct variant NodeKind::Array"
  | .hash => "struct variant NodeKind::Hash"
  | .pair => "struct variant NodeKind::Pair"
  | .other => "struct variant NodeKind::Other"

/-- What a record of this many fields is called when too few values are given. -/
def lengthLabel (label : String) (count : Nat) : String :=
  label ++ " with " ++ countElements count

/-- What a value of this shape is called in messages. -/
def Shape.label : Shape → String
  | .text | .optionalText => "a string"
  | .texts | .nodes => "a sequence"
  | .offset => "u32"
  | .span => recordLabel "Span"
  | .node | .optionalNode => recordLabel "Node"
  | .kind => "internally tagged enum NodeKind"
  | .invocation => recordLabel "Invocation"
  | .literal => "adjacently tagged enum Literal"

end CaskLint.Document
