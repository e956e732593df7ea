import CaskLint.Detector

/-!
# Trees worked off from a stack

  A tree is gone through without recursion: the nodes that are still to be looked at lie on a
  stack, and a node that is taken from it puts its children there, the last one first, so that
  the first one is looked at next. Each node is larger than its children together, so the
  stack runs empty.

* **`drain`** — takes items from a stack until none is left.
* **`Manifest.select`** — the statements of a body, a sequence being opened when it is taken.
* **`Detector.collect`** — the names that a tree declares. Each node lies on the stack with the
  context that it stands in.
* **`Detector.detect`** — the search for conflicts with one set of names for all blocks, and none
  at all where there is no conditional block. The set is a list without repetitions.
-/

namespace CaskLint

/-! ## Stacks -/

section

variable {α σ : Type}

/-- Puts items on a stack one after the other. The first item of a stack is the one on top. -/
def pushAll (stack items : List α) : List α :=
  items.foldl (fun stack item => item :: stack) stack

theorem pushAll_eq (stack items : List α) : pushAll stack items = items.reverse ++ stack := by
  induction items generalizing stack with
  | nil => rfl
  | cons item items ih =>
      rw [List.reverse_cons, List.append_assoc, List.singleton_append]
      exact ih (item :: stack)

/-- The sizes of some items together. -/
def sizeAll (size : α → Nat) (items : List α) : Nat :=
  items.foldr (fun item rest => size item + rest) 0

theorem sizeAll_pushAll (size : α → Nat) (stack items : List α) :
    sizeAll size (pushAll stack items) = sizeAll size items + sizeAll size stack := by
  induction items generalizing stack with
  | nil => exact (Nat.zero_add _).symm
  | cons item items ih =>
      show sizeAll size (pushAll (item :: stack) items) =
        size item + sizeAll size items + sizeAll size stack
      rw [ih]
      show _ + (size item + sizeAll size stack) = _
      omega

theorem sizeAll_reverse (size : α → Nat) (items : List α) :
    sizeAll size items.reverse = sizeAll size items := by
  have hpushed := sizeAll_pushAll size [] items
  rw [pushAll_eq, List.append_nil] at hpushed
  exact hpushed

/-- Takes items from a stack until none is left. An item changes what has been found, and may put
    other items on the stack, which together are smaller than it is. -/
def drain (size : α → Nat) (step : σ → α → σ × List α)
    (smaller : ∀ found item, sizeAll size (step found item).2 < size item) (found : σ) :
    List α → σ
  | [] => found
  | item :: stack =>
    drain size step smaller (step found item).1 (pushAll stack (step found item).2)
termination_by stack => sizeAll size stack
decreasing_by
  rw [sizeAll_pushAll]
  exact Nat.add_lt_add_right (smaller found item) _

end

/-! ## Sizes -/

/-- How many nodes a tree has. -/
def Node.size (n : Node) : Nat :=
  n.fold fun _ below => sizeAll id below + 1

theorem Node.size_eq (n : Node) : n.size = sizeAll Node.size n.children + 1 := by
  rw [size, Node.fold_eq, sizeAll, List.foldr_map]
  rfl

/-- The children of a node, last one first, are together smaller than the node. -/
theorem Node.sizeAll_children_lt (n : Node) : sizeAll Node.size n.children.reverse < n.size := by
  rw [sizeAll_reverse, Node.size_eq]
  exact Nat.lt_succ_self _

/-! ## Statements -/

namespace Manifest

/-- A statement is taken: a sequence puts its statements on the stack, and of the others those are
    kept that are a stanza with a name from the vocabulary. -/
def selectStep (stanzas : Array Stanza) (n : Node) : Array Stanza × List Node :=
  match n.kind with
  | .begin children => (stanzas, children.reverse)
  | _ =>
    if !n.method?.any Vocabulary.isStanzaName then (stanzas, [])
    else match Stanza.ofNode? n with
      | some s => (stanzas.push s, [])
      | none => (stanzas, [])

theorem sizeAll_selectStep_lt (stanzas : Array Stanza) (n : Node) :
    sizeAll Node.size (selectStep stanzas n).2 < n.size := by
  have hnone : sizeAll Node.size [] < n.size := by
    rw [Node.size_eq]
    exact Nat.succ_pos _
  rw [selectStep]
  split
  case h_1 children hkind =>
      have hchildren := n.sizeAll_children_lt
      rw [Node.children, hkind] at hchildren
      exact hchildren
  case h_2 =>
      split
      · exact hnone
      · split <;> exact hnone

/-- The manifest of a cask body. -/
def select (token : String) (body : List Node) : Manifest :=
  ⟨token, (drain Node.size selectStep sizeAll_selectStep_lt #[] (pushAll [] body.reverse)).toList⟩

end Manifest

/-! ## Names -/

namespace Detector

variable (d : Detector)

/-- A node is taken, with its context. Below a livecheck nothing is looked at. -/
def collectStep (names : List String) (item : Node × Context) :
    List String × List (Node × Context) :=
  let (n, context) := item
  let below := n.children.reverse.map fun child => (child, n.kind.contextBelow context)
  match n.invocation? with
  | none => (names, below)
  | some call =>
    if call.method = d.livecheck then (names, [])
    else if context ≠ .embedded && !d.isConditional call.method then
      (names.insert call.method, below)
    else (names, below)

theorem sizeAll_collectStep_lt (names : List String) (item : Node × Context) :
    sizeAll (fun item => item.1.size) (d.collectStep names item).2 < item.1.size := by
  obtain ⟨n, context⟩ := item
  have hbelow : sizeAll (fun item : Node × Context => item.1.size)
      (n.children.reverse.map fun child => (child, n.kind.contextBelow context)) < n.size := by
    rw [sizeAll, List.foldr_map]
    exact n.sizeAll_children_lt
  rw [collectStep]
  split
  · exact hbelow
  · split
    · rw [Node.size_eq]
      exact Nat.succ_pos _
    · split <;> exact hbelow

/-- The names together with those that a tree declares. -/
def collect (names : List String) (root : Node) : List String :=
  drain (fun item => item.1.size) d.collectStep d.sizeAll_collectStep_lt names
    [(root, .ordinary)]

/-- The names declared in these stanzas, as far as they have a block. -/
def collectAll (stanzas : List Stanza) : List String :=
  stanzas.foldl (fun names s => if s.block?.isNone then names else d.collect names s.node) []

/-- The conflicts of a manifest, each with the declared name. Where there is no conditional block
    nothing is searched. -/
def detect (m : Manifest) : List (Finding × String) :=
  let blocks := m.stanzas.filter (d.isConditional ·.name)
  if blocks.isEmpty then []
  else
    let names := d.collectAll blocks
    (m.stanzas.zipIdx.filter fun (s, _) => !d.isConditional s.name).filterMap fun (s, i) =>
      (names.find? (· == s.name)).map fun name => (⟨i, s⟩, name)

end Detector

end CaskLint
