import CaskLint.Tree.Basic

/-!
# Building trees

  Short ways to build trees of the shapes that a reader of cask sources emits. A built node
  has the dummy span until it is placed with `Node.placedAt`.
-/

namespace CaskLint

namespace Node

/-- A node that never stood in a source. -/
def ofKind (kind : Kind) : Node := ⟨kind, .dummy⟩

/-- The node, placed at a byte range. -/
def placedAt (n : Node) (span : Span) : Node := { n with span }

/-- An invocation without receiver. -/
def send (method : String) (args : List Node) : Node :=
  ofKind (.send ⟨none, method, args⟩)

/-- An invocation on a receiver. -/
def sendOn (receiver : Node) (method : String) (args : List Node) : Node :=
  ofKind (.send ⟨some receiver, method, args⟩)

/-- A sequence of statements. -/
def sequence (statements : List Node) : Node :=
  ofKind (.begin statements)

/-- The body that holds these statements: absent, the only statement, or a sequence. -/
def bodyOf : List Node → Option Node
  | [] => none
  | [single] => some single
  | statements => some (sequence statements)

/-- An invocation without receiver that carries a block. -/
def block (method : String) (args : List Node) (params : List String)
    (statements : List Node) : Node :=
  ofKind (.block ⟨⟨none, method, args⟩, params, bodyOf statements⟩)

/-- An invocation on a receiver that carries a block with the given body. -/
def blockOn (receiver : Node) (method : String) (body : Node) : Node :=
  ofKind (.block ⟨⟨some receiver, method, []⟩, [], some body⟩)

/-- A literal. -/
def literal (value : Literal) : Node :=
  ofKind (.literal value)

/-- A string that is built from parts. -/
def interpolation (parts : List Node) : Node :=
  ofKind (.interpolation parts)

/-- Code inside an interpolated string. -/
def code (expression : Node) : Node :=
  sequence [expression]

/-- An array. -/
def array (items : List Node) : Node :=
  ofKind (.array items)

/-- A hash of keys and values. -/
def hash (pairs : List (Node × Node)) : Node :=
  ofKind (.hash (pairs.map fun (key, value) => ofKind (.pair key value)))

/-- Any other construct. -/
def other (label : String) (children : List Node) : Node :=
  ofKind (.other label children)

/-- An assignment to a local variable. -/
def assign (name : String) (value : Node) : Node :=
  other ("lvasgn " ++ name) [value]

end Node

end CaskLint
