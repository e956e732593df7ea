import CaskLint.Number.Binary64
import CaskLint.Source.Span

/-!
# The syntax tree of a cask body

  A cask body is a tree of **`Node`**s. A node says what it is (its **`Kind`**) and where
  it stood in the source (its span). Nine kinds form a closed set. Two of them invoke
  something: a plain **`Invocation`**, and a **`BlockCall`**, which is an invocation that
  carries a block.

  **`Node.children`** is the one view of the tree that checks use: the direct parts of a node
  in source order. The invocation inside a block call is not a node of its own, so a block
  call contributes the operands of that invocation and then its body.
-/

namespace CaskLint

/-! ## Parts -/

/-- A literal value. -/
inductive Literal where
  | str (value : String)
  | sym (value : String)
  | int (value : Int64)
  | float (value : Binary64)
  | bool (value : Bool)
  | nil
  | regexp (value : String)
deriving DecidableEq

mutual

/-- A piece of a cask body and its place in the source. -/
structure Node where
  kind : Kind
  span : Span

/-- What a node is. -/
inductive Kind where
  /-- An invocation without a block. -/
  | send (call : Invocation)
  /-- An invocation with a block. -/
  | block (call : BlockCall)
  /-- A sequence of statements, or the wrapper around code inside an interpolated string. -/
  | begin (children : List Node)
  /-- A string built from literal parts and wrapped code. -/
  | interpolation (parts : List Node)
  | literal (value : Literal)
  | array (items : List Node)
  /-- A hash; its children are pairs. -/
  | hash (pairs : List Node)
  | pair (key value : Node)
  /-- Any other construct, with a description for the reader. -/
  | other (label : String) (children : List Node)

/-- An invocation: a method, perhaps on a receiver, with arguments. -/
structure Invocation where
  receiver : Option Node
  method : String
  args : List Node

/-- An invocation with a block: its parameters, and its body unless that is empty. -/
structure BlockCall where
  call : Invocation
  params : List String
  body : Option Node

end

/-- The names of the kinds. -/
inductive KindName where
  | send | block | begin | interpolation | literal | array | hash | pair | other
deriving DecidableEq, Repr

namespace KindName

/-- The names in the order in which they are listed. -/
def all : List KindName :=
  [.send, .block, .begin, .interpolation, .literal, .array, .hash, .pair, .other]

/-- The name as a word. -/
def text : KindName → String
  | .send => "send"
  | .block => "block"
  | .begin => "begin"
  | .interpolation => "interpolation"
  | .literal => "literal"
  | .array => "array"
  | .hash => "hash"
  | .pair => "pair"
  | .other => "other"

end KindName

/-! ## Views -/

/-- The name of a kind. -/
def Kind.name : Kind → KindName
  | .send _ => .send
  | .block _ => .block
  | .begin _ => .begin
  | .interpolation _ => .interpolation
  | .literal _ => .literal
  | .array _ => .array
  | .hash _ => .hash
  | .pair _ _ => .pair
  | .other _ _ => .other

/-- The receiver, if any, and the arguments. -/
def Invocation.operands (call : Invocation) : List Node :=
  call.receiver.toList ++ call.args

/-- The operands of the invocation, and the body, if any. -/
def BlockCall.parts (b : BlockCall) : List Node :=
  b.call.operands ++ b.body.toList

/-- The statements of the body, whatever the shape of the body is. -/
def BlockCall.statements (b : BlockCall) : List Node :=
  match b.body with
  | none => []
  | some ⟨.begin children, _⟩ => children
  | some single => [single]

/-- The direct parts of a node of this kind, in source order. -/
def Kind.children : Kind → List Node
  | .send call => call.operands
  | .block b => b.parts
  | .begin children => children
  | .interpolation parts => parts
  | .literal _ => []
  | .array items => items
  | .hash pairs => pairs
  | .pair key value => [key, value]
  | .other _ children => children

namespace Node

/-- The direct parts of a node, in source order. -/
def children (n : Node) : List Node := n.kind.children

/-- What the node invokes, with or without a block. -/
def invocation? (n : Node) : Option Invocation :=
  match n.kind with
  | .send call => some call
  | .block b => some b.call
  | _ => none

/-- The name of the method that the node invokes. -/
def method? (n : Node) : Option String :=
  n.invocation?.map Invocation.method

/-- The node as a block call. -/
def blockCall? (n : Node) : Option BlockCall :=
  match n.kind with
  | .block b => some b
  | _ => none

end Node

end CaskLint
