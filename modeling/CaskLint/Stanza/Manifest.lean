import CaskLint.Stanza.Vocabulary
import CaskLint.Tree.Equality

/-!
# The stanzas of a cask

  A **`Stanza`** is a node that invokes something without a receiver; its name is the method
  that it invokes. A **`Manifest`** lists the stanzas of one cask in the order in which they
  were declared.

  **`Manifest.ofBody`** selects the stanzas of a cask body. Sequences are opened, however
  deep they are nested, and of the statements that come out the stanzas with a name from the
  vocabulary are kept.
-/

namespace CaskLint

/-! ## Stanzas -/

/-- A node that invokes `name` without a receiver. -/
structure Stanza where
  name : String
  node : Node
  invokes : ∃ call, node.invocation? = some call ∧ call.receiver.isNone ∧ call.method = name

namespace Stanza

/-- The stanza that a node is, if it invokes something without a receiver. -/
def ofNode? (n : Node) : Option Stanza :=
  match h : n.invocation? with
  | none => none
  | some call =>
    if hr : call.receiver.isNone then some ⟨call.method, n, call, h, hr, rfl⟩ else none

/-- Where the stanza stood in the source. -/
def span (s : Stanza) : Span := s.node.span

/-- The stanza as a block call, if it was declared with a block. -/
def block? (s : Stanza) : Option BlockCall := s.node.blockCall?

/-- Equality of names and trees. -/
def same (a b : Stanza) : Bool := a.name == b.name && a.node == b.node

instance : BEq Stanza where
  beq := same

end Stanza

/-! ## Manifests -/

/-- The stanzas of one cask, in the order in which they were declared. -/
structure Manifest where
  token : String
  stanzas : List Stanza
deriving BEq

mutual

/-- The statements of a statement list, with every sequence opened. -/
def Node.flattenList : List Node → List Node
  | [] => []
  | n :: ns => n.flatten ++ Node.flattenList ns

/-- A statement, or the statements of a sequence with every sequence in it opened. -/
def Node.flatten : Node → List Node
  | ⟨kind, span⟩ => kind.flattenAt span

/-- The statements of a node of this kind at this span. -/
def Kind.flattenAt (span : Span) : Kind → List Node
  | .begin children => Node.flattenList children
  | .send call => [⟨.send call, span⟩]
  | .block b => [⟨.block b, span⟩]
  | .interpolation parts => [⟨.interpolation parts, span⟩]
  | .literal value => [⟨.literal value, span⟩]
  | .array items => [⟨.array items, span⟩]
  | .hash pairs => [⟨.hash pairs, span⟩]
  | .pair key value => [⟨.pair key value, span⟩]
  | .other label children => [⟨.other label children, span⟩]

end

/-- The statement as a stanza whose name is in the vocabulary. -/
def Stanza.known? (n : Node) : Option Stanza :=
  (Stanza.ofNode? n).filter fun s => Vocabulary.isStanzaName s.name

/-- The manifest of a cask body. -/
def Manifest.ofBody (token : String) (body : List Node) : Manifest :=
  ⟨token, (Node.flattenList body).filterMap Stanza.known?⟩

end CaskLint
