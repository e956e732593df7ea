import CaskLint.Document.Basic
import CaskLint.Json.Writer

/-!
# Writing documents

  A document is written with its members in the order of the format. Of the members that may
  be left out, `source`, `receiver` and `params` are written only when they say something;
  the others are always written, the dummy span as its two offsets.
-/

namespace CaskLint

/-- A span as an object. -/
def Span.toJson (s : Span) : Json :=
  .object [("start", .integer s.start.toNat), ("end", .integer s.stop.toNat)]

/-- A literal as an object with its type and its value. -/
def Literal.toJson : Literal → Json
  | .str s => .object [("kind", .text "str"), ("value", .text s)]
  | .sym s => .object [("kind", .text "sym"), ("value", .text s)]
  | .int n => .object [("kind", .text "int"), ("value", .integer n.toInt)]
  | .float x => .object [("kind", .text "float"), ("value", .float x)]
  | .bool b => .object [("kind", .text "bool"), ("value", .flag b)]
  | .nil => .object [("kind", .text "nil")]
  | .regexp s => .object [("kind", .text "regexp"), ("value", .text s)]

mutual

/-- A node as an object. -/
def Node.toJson : Node → Json
  | ⟨kind, span⟩ => .object [("kind", kind.toJson), ("span", span.toJson)]

/-- A kind of node as an object whose first member is its type. -/
def Kind.toJson : Kind → Json
  | .send call => .object (("type", .text KindName.send.text) :: call.members)
  | .block b => .object (("type", .text KindName.block.text) :: b.members)
  | .begin children =>
    .object [("type", .text KindName.begin.text), ("children", .array (Node.listToJson children))]
  | .interpolation parts =>
    .object [("type", .text KindName.interpolation.text), ("parts", .array (Node.listToJson parts))]
  | .literal value =>
    .object [("type", .text KindName.literal.text), ("value", value.toJson)]
  | .array items =>
    .object [("type", .text KindName.array.text), ("items", .array (Node.listToJson items))]
  | .hash pairs =>
    .object [("type", .text KindName.hash.text), ("pairs", .array (Node.listToJson pairs))]
  | .pair key value =>
    .object [("type", .text KindName.pair.text), ("key", key.toJson), ("value", value.toJson)]
  | .other label children =>
    .object [("type", .text KindName.other.text), ("label", .text label),
      ("children", .array (Node.listToJson children))]

/-- The members of an invocation; an absent receiver is left out. -/
def Invocation.members : Invocation → List (String × Json)
  | ⟨none, method, args⟩ => [("method", .text method), ("args", .array (Node.listToJson args))]
  | ⟨some receiver, method, args⟩ =>
    [("receiver", receiver.toJson), ("method", .text method),
      ("args", .array (Node.listToJson args))]

/-- The members of a block call; absent parameters are left out, an absent body is null. -/
def BlockCall.members : BlockCall → List (String × Json)
  | ⟨call, params, body⟩ =>
    ("call", .object call.members) ::
      (if params.isEmpty then [] else [("params", .array (params.map .text))]) ++
      [("body", Node.optionToJson body)]

/-- A node, or null. -/
def Node.optionToJson : Option Node → Json
  | none => .null
  | some n => n.toJson

/-- The nodes of a list. -/
def Node.listToJson : List Node → List Json
  | [] => []
  | n :: ns => n.toJson :: Node.listToJson ns

end

namespace Document

/-- A document as an object. -/
def toJson (d : Document) : Json :=
  .object (("token", .text d.token) ::
    (d.source.toList.map fun source => ("source", Json.text source)) ++
    [("body", .array (Node.listToJson d.body))])

/-- The text of a document, one line for each member and item. -/
def toText (d : Document) : String := d.toJson.pretty

end Document

end CaskLint
