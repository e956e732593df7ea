import CaskLint.Tree.Basic

/-!
# Recursion over trees

  **`Node.fold`** computes something of a node from the node itself and from what was
  computed of its children, in order. It is the one recursion that looks at a tree through
  `Node.children`: by **`Node.fold_eq`** the fold of a node is the given function of the node
  and of the folds of `children`, so no part of any kind of node is passed over.

  **`Node.walk`** lists a node and all nodes below it, parents before children, with their
  depth.
-/

namespace CaskLint

/-! ## Folding -/

section

variable {α : Type} (f : Node → List α → α)

mutual

/-- What `f` makes of a node and of the results for its children. -/
def Node.fold : Node → α
  | ⟨kind, span⟩ => f ⟨kind, span⟩ kind.foldChildren

/-- The results for the children of a node of this kind. -/
def Kind.foldChildren : Kind → List α
  | .send call => call.foldOperands
  | .block b => b.foldParts
  | .begin children => Node.foldList children
  | .interpolation parts => Node.foldList parts
  | .literal _ => []
  | .array items => Node.foldList items
  | .hash pairs => Node.foldList pairs
  | .pair key value => [key.fold, value.fold]
  | .other _ children => Node.foldList children

/-- The results for the operands of an invocation. -/
def Invocation.foldOperands : Invocation → List α
  | ⟨receiver, _, args⟩ => Node.foldOption receiver ++ Node.foldList args

/-- The results for the parts of a block call. -/
def BlockCall.foldParts : BlockCall → List α
  | ⟨call, _, body⟩ => call.foldOperands ++ Node.foldOption body

/-- The result for a node that may be absent. -/
def Node.foldOption : Option Node → List α
  | none => []
  | some n => [n.fold]

/-- The results for the nodes of a list. -/
def Node.foldList : List Node → List α
  | [] => []
  | n :: ns => n.fold :: Node.foldList ns

end

theorem Node.foldList_eq_map (ns : List Node) :
    Node.foldList f ns = ns.map (Node.fold f) := by
  induction ns with
  | nil => rfl
  | cons n ns ih => rw [Node.foldList, ih, List.map_cons]

theorem Node.foldOption_eq_map (o : Option Node) :
    Node.foldOption f o = o.toList.map (Node.fold f) := by
  cases o <;> rfl

theorem Invocation.foldOperands_eq_map (call : Invocation) :
    call.foldOperands f = call.operands.map (Node.fold f) := by
  obtain ⟨receiver, method, args⟩ := call
  rw [Invocation.foldOperands, Node.foldOption_eq_map, Node.foldList_eq_map,
    Invocation.operands, List.map_append]

theorem Kind.foldChildren_eq_map (kind : Kind) :
    kind.foldChildren f = kind.children.map (Node.fold f) := by
  cases kind with
  | send call => exact call.foldOperands_eq_map f
  | block b =>
    obtain ⟨call, params, body⟩ := b
    rw [Kind.foldChildren, BlockCall.foldParts, Invocation.foldOperands_eq_map,
      Node.foldOption_eq_map, Kind.children, BlockCall.parts, List.map_append]
  | literal value => rfl
  | pair key value => rfl
  | begin children => exact Node.foldList_eq_map f children
  | interpolation parts => exact Node.foldList_eq_map f parts
  | array items => exact Node.foldList_eq_map f items
  | hash pairs => exact Node.foldList_eq_map f pairs
  | other label children => exact Node.foldList_eq_map f children

/-- A fold is the function of the node and of the folds of its children. -/
theorem Node.fold_eq (n : Node) : n.fold f = f n (n.children.map (Node.fold f)) := by
  obtain ⟨kind, span⟩ := n
  rw [Node.fold, Kind.foldChildren_eq_map]
  rfl

end

/-! ## Walking -/

/-- A node and all nodes below it, parents before children, each with its depth. -/
def Node.walk (n : Node) (depth : Nat) : List (Nat × Node) :=
  n.fold (fun n below depth => (depth, n) :: below.flatMap (· (depth + 1))) depth

theorem Node.walk_eq (n : Node) (depth : Nat) :
    n.walk depth = (depth, n) :: n.children.flatMap (·.walk (depth + 1)) := by
  rw [Node.walk, Node.fold_eq]
  simp only [List.flatMap_map]
  rfl

end CaskLint
