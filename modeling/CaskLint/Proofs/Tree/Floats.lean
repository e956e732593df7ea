import CaskLint.Document.Basic
import CaskLint.Tree.Equality
import Mathlib.Data.List.Basic

/-!
# The floating-point numbers of a tree

  Floating-point literals are the one part of a tree that a document may lose, so they get a view
  of their own:

* **`Node.floats`** — the numbers of a tree in source order.
* **`Node.mapFloats`** — the tree with every number replaced and nothing else touched.

  A tree equals its image under a replacement exactly when every number in it equals what
  replaces it (`same_mapFloats`). Two documents that become one when all numbers are made the same
  are **`Document.SameButFloats`**.
-/

namespace CaskLint

/-! ## The numbers of a tree -/

/-- The number of a literal. -/
def Literal.floats : Literal → List Binary64
  | .float x => [x]
  | _ => []

mutual

/-- The floating-point numbers of a node. -/
def Node.floats : Node → List Binary64
  | ⟨kind, _⟩ => kind.floats

/-- The floating-point numbers of a kind. -/
def Kind.floats : Kind → List Binary64
  | .send call => call.floats
  | .block b => b.floats
  | .begin children => Node.listFloats children
  | .interpolation parts => Node.listFloats parts
  | .literal value => value.floats
  | .array items => Node.listFloats items
  | .hash pairs => Node.listFloats pairs
  | .pair key value => key.floats ++ value.floats
  | .other _ children => Node.listFloats children

/-- The floating-point numbers of an invocation. -/
def Invocation.floats : Invocation → List Binary64
  | ⟨receiver, _, args⟩ => Node.optionFloats receiver ++ Node.listFloats args

/-- The floating-point numbers of a block call. -/
def BlockCall.floats : BlockCall → List Binary64
  | ⟨call, _, body⟩ => call.floats ++ Node.optionFloats body

/-- The floating-point numbers of a node that may be absent. -/
def Node.optionFloats : Option Node → List Binary64
  | none => []
  | some n => n.floats

/-- The floating-point numbers of the nodes of a list. -/
def Node.listFloats : List Node → List Binary64
  | [] => []
  | n :: ns => n.floats ++ Node.listFloats ns

end

/-! ## Replacing the numbers of a tree -/

section

variable (f : Binary64 → Binary64)

/-- The literal with its number replaced. -/
def Literal.mapFloats : Literal → Literal
  | .float x => .float (f x)
  | other => other

mutual

/-- The node with its numbers replaced. -/
def Node.mapFloats : Node → Node
  | ⟨kind, span⟩ => ⟨kind.mapFloats, span⟩

/-- The kind with its numbers replaced. -/
def Kind.mapFloats : Kind → Kind
  | .send call => .send call.mapFloats
  | .block b => .block b.mapFloats
  | .begin children => .begin (Node.listMapFloats children)
  | .interpolation parts => .interpolation (Node.listMapFloats parts)
  | .literal value => .literal (value.mapFloats f)
  | .array items => .array (Node.listMapFloats items)
  | .hash pairs => .hash (Node.listMapFloats pairs)
  | .pair key value => .pair key.mapFloats value.mapFloats
  | .other label children => .other label (Node.listMapFloats children)

/-- The invocation with its numbers replaced. -/
def Invocation.mapFloats : Invocation → Invocation
  | ⟨receiver, method, args⟩ =>
    ⟨Node.optionMapFloats receiver, method, Node.listMapFloats args⟩

/-- The block call with its numbers replaced. -/
def BlockCall.mapFloats : BlockCall → BlockCall
  | ⟨call, params, body⟩ => ⟨call.mapFloats, params, Node.optionMapFloats body⟩

/-- The node, if there is one, with its numbers replaced. -/
def Node.optionMapFloats : Option Node → Option Node
  | none => none
  | some n => some n.mapFloats

/-- The nodes of a list with their numbers replaced. -/
def Node.listMapFloats : List Node → List Node
  | [] => []
  | n :: ns => n.mapFloats :: Node.listMapFloats ns

end

end

section

variable (f g : Binary64 → Binary64)

theorem Literal.mapFloats_mapFloats (l : Literal) :
    (l.mapFloats f).mapFloats g = l.mapFloats (g ∘ f) := by
  cases l <;> rfl

mutual

/-- Replacing the numbers twice is replacing them once. -/
theorem Node.mapFloats_mapFloats (n : Node) :
    (n.mapFloats f).mapFloats g = n.mapFloats (g ∘ f) := by
  match n with
  | ⟨kind, span⟩ => exact congrArg (Node.mk · span) (Kind.mapFloats_mapFloats kind)

theorem Kind.mapFloats_mapFloats (k : Kind) :
    (k.mapFloats f).mapFloats g = k.mapFloats (g ∘ f) := by
  match k with
  | .send call => exact congrArg Kind.send (Invocation.mapFloats_mapFloats call)
  | .block b => exact congrArg Kind.block (BlockCall.mapFloats_mapFloats b)
  | .begin children => exact congrArg Kind.begin (Node.listMapFloats_listMapFloats children)
  | .interpolation parts =>
      exact congrArg Kind.interpolation (Node.listMapFloats_listMapFloats parts)
  | .literal value => exact congrArg Kind.literal (value.mapFloats_mapFloats f g)
  | .array items => exact congrArg Kind.array (Node.listMapFloats_listMapFloats items)
  | .hash pairs => exact congrArg Kind.hash (Node.listMapFloats_listMapFloats pairs)
  | .pair key value =>
      exact congrArg₂ Kind.pair (Node.mapFloats_mapFloats key) (Node.mapFloats_mapFloats value)
  | .other label children =>
      exact congrArg (Kind.other label) (Node.listMapFloats_listMapFloats children)

theorem Invocation.mapFloats_mapFloats (call : Invocation) :
    (call.mapFloats f).mapFloats g = call.mapFloats (g ∘ f) := by
  match call with
  | ⟨receiver, method, args⟩ =>
      exact congrArg₂ (Invocation.mk · method ·) (Node.optionMapFloats_optionMapFloats receiver)
        (Node.listMapFloats_listMapFloats args)

theorem BlockCall.mapFloats_mapFloats (b : BlockCall) :
    (b.mapFloats f).mapFloats g = b.mapFloats (g ∘ f) := by
  match b with
  | ⟨call, params, body⟩ =>
      exact congrArg₂ (BlockCall.mk · params ·) (Invocation.mapFloats_mapFloats call)
        (Node.optionMapFloats_optionMapFloats body)

theorem Node.optionMapFloats_optionMapFloats (o : Option Node) :
    Node.optionMapFloats g (Node.optionMapFloats f o) = Node.optionMapFloats (g ∘ f) o := by
  match o with
  | none => rfl
  | some n => exact congrArg some (Node.mapFloats_mapFloats n)

theorem Node.listMapFloats_listMapFloats (ns : List Node) :
    Node.listMapFloats g (Node.listMapFloats f ns) = Node.listMapFloats (g ∘ f) ns := by
  match ns with
  | [] => rfl
  | n :: ns =>
      exact congrArg₂ List.cons (Node.mapFloats_mapFloats n) (Node.listMapFloats_listMapFloats ns)

end

/-! ## Equality after a replacement -/

theorem Literal.sameValue_mapFloats (l : Literal) :
    (l.mapFloats f).sameValue l = l.floats.all fun x => (f x).sameValue x := by
  cases l with
  | float x => exact (Bool.and_true _).symm
  -- equality of the other literals is reflexive
  | _ => simp [Literal.mapFloats, Literal.sameValue, Literal.floats]

mutual

/-- **A tree stays equal under a replacement when each of its numbers does.** -/
theorem Node.same_mapFloats (n : Node) :
    (n.mapFloats f).same n = n.floats.all fun x => (f x).sameValue x := by
  match n with
  | ⟨kind, span⟩ =>
      rw [Node.mapFloats, Node.same, Kind.same_mapFloats kind, Node.floats, beq_self_eq_true,
        Bool.and_true]

theorem Kind.same_mapFloats (k : Kind) :
    (k.mapFloats f).same k = k.floats.all fun x => (f x).sameValue x := by
  match k with
  | .send call => rw [Kind.mapFloats, Kind.same, Invocation.same_mapFloats call, Kind.floats]
  | .block b => rw [Kind.mapFloats, Kind.same, BlockCall.same_mapFloats b, Kind.floats]
  | .begin children =>
      rw [Kind.mapFloats, Kind.same, Node.sameList_listMapFloats children, Kind.floats]
  | .interpolation parts =>
      rw [Kind.mapFloats, Kind.same, Node.sameList_listMapFloats parts, Kind.floats]
  | .literal value =>
      rw [Kind.mapFloats, Kind.same, Kind.floats]
      exact value.sameValue_mapFloats f
  | .array items =>
      rw [Kind.mapFloats, Kind.same, Node.sameList_listMapFloats items, Kind.floats]
  | .hash pairs =>
      rw [Kind.mapFloats, Kind.same, Node.sameList_listMapFloats pairs, Kind.floats]
  | .pair key value =>
      rw [Kind.mapFloats, Kind.same, Node.same_mapFloats key, Node.same_mapFloats value,
        Kind.floats, List.all_append]
  | .other label children =>
      rw [Kind.mapFloats, Kind.same, beq_self_eq_true, Bool.true_and,
        Node.sameList_listMapFloats children, Kind.floats]

theorem Invocation.same_mapFloats (call : Invocation) :
    (call.mapFloats f).same call = call.floats.all fun x => (f x).sameValue x := by
  match call with
  | ⟨receiver, method, args⟩ =>
      rw [Invocation.mapFloats, Invocation.same, Node.sameOption_optionMapFloats receiver,
        Node.sameList_listMapFloats args, Invocation.floats, List.all_append, beq_self_eq_true,
        Bool.and_true]

theorem BlockCall.same_mapFloats (b : BlockCall) :
    (b.mapFloats f).same b = b.floats.all fun x => (f x).sameValue x := by
  match b with
  | ⟨call, params, body⟩ =>
      rw [BlockCall.mapFloats, BlockCall.same, Invocation.same_mapFloats call,
        Node.sameOption_optionMapFloats body, BlockCall.floats, List.all_append,
        beq_self_eq_true, Bool.and_true]

theorem Node.sameOption_optionMapFloats (o : Option Node) :
    Node.sameOption (Node.optionMapFloats f o) o =
      (Node.optionFloats o).all fun x => (f x).sameValue x := by
  match o with
  | none => rw [Node.optionMapFloats, Node.sameOption, Node.optionFloats, List.all_nil]
  | some n =>
      rw [Node.optionMapFloats, Node.sameOption, Node.same_mapFloats n, Node.optionFloats]

theorem Node.sameList_listMapFloats (ns : List Node) :
    Node.sameList (Node.listMapFloats f ns) ns =
      (Node.listFloats ns).all fun x => (f x).sameValue x := by
  match ns with
  | [] => rw [Node.listMapFloats, Node.sameList, Node.listFloats, List.all_nil]
  | n :: ns =>
      rw [Node.listMapFloats, Node.sameList, Node.same_mapFloats n,
        Node.sameList_listMapFloats ns, Node.listFloats, List.all_append]

end

end

theorem Node.beq_eq_sameList (as bs : List Node) : (as == bs) = Node.sameList as bs := by
  induction as generalizing bs with
  | nil => cases bs <;> simp [Node.sameList]
  | cons a as ih =>
      cases bs with
      | nil => simp [Node.sameList]
      | cons b bs =>
          rw [Node.sameList, ← ih bs]
          rfl

/-! ## Documents -/

namespace Document

/-- The floating-point numbers of a document. -/
def floats (d : Document) : List Binary64 := Node.listFloats d.body

/-- The document with its numbers replaced. -/
def mapFloats (f : Binary64 → Binary64) (d : Document) : Document :=
  { d with body := Node.listMapFloats f d.body }

/-- Two documents that differ, if at all, in the values of floating-point literals alone. -/
def SameButFloats (d d' : Document) : Prop :=
  d.mapFloats (fun _ => .nan) = d'.mapFloats (fun _ => .nan)

theorem beq_mapFloats (f : Binary64 → Binary64) (d : Document) :
    (d.mapFloats f == d) = d.floats.all fun x => (f x).sameValue x := by
  obtain ⟨token, source, body⟩ := d
  show (token == token && (source == source && Node.listMapFloats f body == body)) = _
  rw [beq_self_eq_true, beq_self_eq_true, Bool.true_and, Bool.true_and, Node.beq_eq_sameList]
  exact Node.sameList_listMapFloats f body

theorem sameButFloats_mapFloats (f : Binary64 → Binary64) (d : Document) :
    (d.mapFloats f).SameButFloats d := by
  rw [SameButFloats, mapFloats, mapFloats, Node.listMapFloats_listMapFloats]
  rfl

end Document

end CaskLint
