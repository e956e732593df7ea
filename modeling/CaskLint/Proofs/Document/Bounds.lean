import CaskLint.Proofs.Document.RoundTrip

/-!
# How deep the parts of a document are written

  Of the members that may be left out, some are written all the same, and they are written as
  arrays or objects. **`Within`** bounds the written form of a part: how deep it nests, and that
  its numbers are finite.

  A part is bounded as soon as its members are, with one more level for the object that it is
  written as (`within_node`, `within_invocation`, `within_kind`). What stands in for a
  member that was left out nests at most one array or object (`standIns_kindFields`).
-/

namespace CaskLint

open Record Json

namespace Document

/-! ## Bounds of the written form -/

/-- The written form of a value of a shape. -/
def Shape.written : (s : Shape) → s.Value → Json
  | .text, (s : String) => .text s
  | .optionalText, none => .null
  | .optionalText, some (s : String) => .text s
  | .texts, (ss : List String) => .array (ss.map .text)
  | .offset, (n : UInt32) => .integer n.toNat
  | .span, (s : Span) => s.toJson
  | .node, (n : Node) => n.toJson
  | .optionalNode, (o : Option Node) => Node.optionToJson o
  | .nodes, (ns : List Node) => .array (Node.listToJson ns)
  | .kind, (k : Kind) => k.toJson
  | .invocation, (call : Invocation) => .object call.members
  | .literal, (l : Literal) => l.toJson

/-- The floating-point numbers of a value of a shape. -/
def Shape.floats : (s : Shape) → s.Value → List Binary64
  | .node, (n : Node) => n.floats
  | .optionalNode, (o : Option Node) => Node.optionFloats o
  | .nodes, (ns : List Node) => Node.listFloats ns
  | .kind, (k : Kind) => k.floats
  | .invocation, (call : Invocation) => call.floats
  | .literal, (l : Literal) => l.floats
  | _, _ => []

/-- The written form of a value nests no deeper than `bound`, and its numbers are finite. -/
structure Within (bound : Nat) (s : Shape) (x : s.Value) : Prop where
  depth_le : (s.written x).depth ≤ bound
  finite : (s.floats x).all Binary64.isFinite = true

theorem Within.mono {b c : Nat} (hbc : b ≤ c) {s : Shape} {x : s.Value} (h : Within b s x) :
    Within c s x :=
  ⟨Nat.le_trans h.depth_le hbc, h.finite⟩

theorem itemsDepth_map_text (ss : List String) : itemsDepth (ss.map .text) = 0 := by
  induction ss with
  | nil => rfl
  | cons s ss ih => rw [List.map_cons, itemsDepth, ih]; rfl

theorem within_texts (ss : List String) : Within 1 .texts ss :=
  ⟨Nat.succ_le_succ (Nat.le_of_eq (itemsDepth_map_text ss)), rfl⟩

theorem within_span (s : Span) : Within 1 .span s :=
  ⟨Nat.le_refl 1, rfl⟩

/-- A node is an object around its members, the span written even if it was left out. -/
theorem within_node {b : Nat} {values : Values Shape.Value nodeFields}
    (h : Values.All (Within b) nodeFields values) : Within (b + 1) .node (buildNode values) := by
  obtain ⟨kind, span, _⟩ := values
  obtain ⟨hkind, hspan, -⟩ := h
  refine ⟨?_, hkind.finite⟩
  have hk : kind.toJson.depth ≤ b := hkind.depth_le
  have hs : span.toJson.depth ≤ b := hspan.depth_le
  show max kind.toJson.depth (max span.toJson.depth 0) + 1 ≤ b + 1
  omega

theorem within_invocation {b : Nat} {values : Values Shape.Value invocationFields}
    (h : Values.All (Within b) invocationFields values) :
    Within (b + 1) .invocation (buildInvocation values) := by
  obtain ⟨receiver, method, args, _⟩ := values
  obtain ⟨hreceiver, -, hargs, -⟩ := h
  have ha : itemsDepth (Node.listToJson args) + 1 ≤ b := hargs.depth_le
  constructor
  · -- a receiver is written only if there is one; arguments always are
    cases receiver with
    | none =>
        show max 0 (max (itemsDepth (Node.listToJson args) + 1) 0) + 1 ≤ b + 1
        omega
    | some receiver =>
        have hr : receiver.toJson.depth ≤ b := hreceiver.depth_le
        show max receiver.toJson.depth (max 0 (max (itemsDepth (Node.listToJson args) + 1) 0)) + 1 ≤
          b + 1
        omega
  · show ((Node.optionFloats receiver ++ Node.listFloats args).all Binary64.isFinite) = true
    rw [List.all_append, Bool.and_eq_true]
    exact ⟨hreceiver.finite, hargs.finite⟩

theorem within_cons {a b : Nat} {n : Node} {ns : List Node} (hn : Within (a + 1) .node n)
    (hns : Within (b + 2) .nodes ns) : Within (max a b + 2) .nodes (n :: ns) := by
  have hdepth : n.toJson.depth ≤ a + 1 := hn.depth_le
  have hdepths : itemsDepth (Node.listToJson ns) + 1 ≤ b + 2 := hns.depth_le
  constructor
  · show max n.toJson.depth (itemsDepth (Node.listToJson ns)) + 1 ≤ max a b + 2
    omega
  · show (n.floats ++ Node.listFloats ns).all Binary64.isFinite = true
    rw [List.all_append, Bool.and_eq_true]
    exact ⟨hn.finite, hns.finite⟩

theorem membersDepth_append (ms ms' : List (String × Json)) :
    membersDepth (ms ++ ms') = max (membersDepth ms) (membersDepth ms') := by
  induction ms with
  | nil => exact (Nat.zero_max _).symm
  | cons m ms ih =>
      obtain ⟨name, v⟩ := m
      rw [List.cons_append, membersDepth, membersDepth, ih, Nat.max_assoc]

theorem membersDepth_singleton (name : String) (v : Json) : membersDepth [(name, v)] = v.depth :=
  Nat.max_zero _

/-- The type adds nothing to the depth of a kind of node. -/
theorem within_kind_of_members {b : Nat} {k : Kind} (hdepth : membersDepth k.members ≤ b)
    (hfinite : k.floats.all Binary64.isFinite = true) : Within (b + 1) .kind k := by
  refine ⟨?_, hfinite⟩
  show k.toJson.depth ≤ b + 1
  rw [k.toJson_eq, depth, membersDepth]
  exact Nat.succ_le_succ (Nat.max_le.mpr ⟨Nat.zero_le b, hdepth⟩)

theorem within_block {b : Nat} {values : Values Shape.Value blockFields}
    (h : Values.All (Within b) blockFields values) :
    Within (b + 1) .kind (buildKind .block values) := by
  obtain ⟨call, params, body, _⟩ := values
  obtain ⟨hcall, hparams, hbody, -⟩ := h
  have hdepths : membersDepth (if params.isEmpty then [] else
      [("params", Json.array (params.map .text))]) ≤ b := by
    split
    · exact Nat.zero_le b
    · rw [membersDepth_singleton]
      exact hparams.depth_le
  apply within_kind_of_members
  · show membersDepth (("call", .object call.members) :: _ ++ [("body", _)]) ≤ b
    rw [List.cons_append, membersDepth, membersDepth_append, membersDepth_singleton]
    exact Nat.max_le.mpr ⟨hcall.depth_le, Nat.max_le.mpr ⟨hdepths, hbody.depth_le⟩⟩
  · show (call.floats ++ Node.optionFloats body).all Binary64.isFinite = true
    rw [List.all_append, Bool.and_eq_true]
    exact ⟨hcall.finite, hbody.finite⟩

/-- One more object is open in a kind of node than in its members. -/
theorem within_kind {b : Nat} {name : KindName} {values : Values Shape.Value (kindFields name)}
    (h : Values.All (Within b) (kindFields name) values) :
    Within (b + 1) .kind (buildKind name values) := by
  cases name with
  | send =>
      -- the object of the invocation is that of the kind
      have hcall := within_invocation h
      exact within_kind_of_members (Nat.le_of_succ_le_succ hcall.depth_le) hcall.finite
  | block => exact within_block h
  | begin | interpolation | literal | array | hash =>
      obtain ⟨x, _⟩ := values
      obtain ⟨hx, -⟩ := h
      apply within_kind_of_members
      · exact Nat.max_le.mpr ⟨hx.depth_le, Nat.zero_le b⟩
      · exact hx.finite
  | pair =>
      obtain ⟨key, value, _⟩ := values
      obtain ⟨hkey, hvalue, -⟩ := h
      apply within_kind_of_members
      · exact Nat.max_le.mpr ⟨hkey.depth_le, Nat.max_le.mpr ⟨hvalue.depth_le, Nat.zero_le b⟩⟩
      · show (key.floats ++ value.floats).all Binary64.isFinite = true
        rw [List.all_append, Bool.and_eq_true]
        exact ⟨hkey.finite, hvalue.finite⟩
  | other =>
      obtain ⟨label, children, _⟩ := values
      obtain ⟨-, hchildren, -⟩ := h
      apply within_kind_of_members
      · exact Nat.max_le.mpr ⟨Nat.zero_le b,
          Nat.max_le.mpr ⟨hchildren.depth_le, Nat.zero_le b⟩⟩
      · exact hchildren.finite

/-! ## Stand-ins -/

section

variable {b : Nat}

/-- A member that must be given has no stand-in. -/
theorem standInsAll_required {name : String} {s : Shape} {fs : Fields}
    (h : StandInsAll (Within b) fs) : StandInsAll (Within b) (⟨name, s, none⟩ :: fs) :=
  standInsAll_cons (fun _ hx => nomatch hx) h

theorem standInsAll_optional {name : String} {s : Shape} {x : s.Value} {fs : Fields}
    (hx : Within b s x) (h : StandInsAll (Within b) fs) :
    StandInsAll (Within b) (⟨name, s, some x⟩ :: fs) := by
  refine standInsAll_cons ?_ h
  intro y hy
  obtain rfl := Option.some.inj hy
  exact hx

/-- An empty list is written, as an array without items. -/
theorem within_noNodes : Within (b + 1) .nodes [] :=
  ⟨Nat.le_add_left 1 b, rfl⟩

theorem within_noNode : Within b .optionalNode none :=
  ⟨Nat.zero_le b, rfl⟩

theorem standIns_nodeFields : StandInsAll (Within (b + 1)) nodeFields := by
  have hspan := (within_span Span.dummy).mono (Nat.le_add_left 1 b)
  exact standInsAll_required (standInsAll_optional hspan standInsAll_nil)

theorem standIns_invocationFields : StandInsAll (Within (b + 1)) invocationFields :=
  standInsAll_optional within_noNode
    (standInsAll_required (standInsAll_optional within_noNodes standInsAll_nil))

theorem standIns_blockFields : StandInsAll (Within (b + 1)) blockFields := by
  have hparams := (within_texts []).mono (Nat.le_add_left 1 b)
  exact standInsAll_required
    (standInsAll_optional hparams (standInsAll_optional within_noNode standInsAll_nil))

/-- **What stands in for a member of a kind of node nests at most one array or object.** -/
theorem standIns_kindFields (name : KindName) :
    StandInsAll (Within (b + 1)) (kindFields name) := by
  cases name with
  | send => exact standIns_invocationFields
  | block => exact standIns_blockFields
  | begin | interpolation | literal | array | hash => exact standInsAll_required standInsAll_nil
  | pair => exact standInsAll_required (standInsAll_required standInsAll_nil)
  | other =>
      exact standInsAll_optional ⟨Nat.zero_le (b + 1), rfl⟩
        (standInsAll_optional within_noNodes standInsAll_nil)

theorem standIns_fields : StandInsAll (Within (b + 1)) fields :=
  standInsAll_required (standInsAll_optional ⟨Nat.zero_le (b + 1), rfl⟩
    (standInsAll_optional within_noNodes standInsAll_nil))

end

end Document

end CaskLint
