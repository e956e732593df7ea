import CaskLint.Document.FromValue
import CaskLint.Document.ToJson
import CaskLint.Proofs.Json.Values
import CaskLint.Proofs.Record.Members
import CaskLint.Proofs.Tree.Floats

/-!
# Written parts of a document are read back

  Here the text is gone already: **`Json.reread`** is the JSON value that the text of a written
  part spells, and **`Document.read`** makes a part of it again. All numbers but the
  floating-point ones come back as they were, so what remains is the shape.

  The heart is `read_node`, an induction over the tree with one case for each kind. A written
  record has its members in the order of its fields, so every field takes its own member or, if
  that was left out, its stand-in. One thing can go wrong: a number that is not finite is
  written as `null`, which is no number.
-/

namespace CaskLint

open Record Json

/-! ## The members of a kind -/

/-- The members of a kind of node other than its type. -/
def Kind.members : Kind → List (String × Json)
  | .send call => call.members
  | .block b => b.members
  | .begin children => [("children", .array (Node.listToJson children))]
  | .interpolation parts => [("parts", .array (Node.listToJson parts))]
  | .literal value => [("value", value.toJson)]
  | .array items => [("items", .array (Node.listToJson items))]
  | .hash pairs => [("pairs", .array (Node.listToJson pairs))]
  | .pair key value => [("key", key.toJson), ("value", value.toJson)]
  | .other label children =>
    [("label", .text label), ("children", .array (Node.listToJson children))]

theorem Kind.toJson_eq (k : Kind) :
    k.toJson = .object (("type", .text k.name.text) :: k.members) := by
  cases k <;> rfl

/-- The type is not among the other members. -/
theorem Kind.type_not_mem_members (k : Kind) : ∀ m ∈ k.members, m.1 ≠ "type" := by
  cases k with
  | send call =>
      obtain ⟨receiver, method, args⟩ := call
      cases receiver <;> simp [Kind.members, Invocation.members]
  | block b =>
      obtain ⟨call, params, body⟩ := b
      cases params <;> simp [Kind.members, BlockCall.members]
  | _ => simp [Kind.members]

/-! ## Numbers of fixed width -/

namespace Json

theorem inRange_integer {i : Int} (hlow : -9223372036854775808 ≤ i)
    (hhigh : i < 18446744073709551616) : (Json.integer i).inRange = true := by
  rw [inRange, value?_ofInt hlow hhigh]
  rfl

theorem reread_integer {i : Int} (hlow : -9223372036854775808 ≤ i)
    (hhigh : i < 18446744073709551616) : (Json.integer i).reread = .integer i := by
  rw [reread, value?_ofInt hlow hhigh]
  rfl

theorem inRange_offset (n : UInt32) : (Json.integer n.toNat).inRange = true := by
  have := n.toNat_lt
  exact inRange_integer (by omega) (by omega)

theorem reread_offset (n : UInt32) : (Json.integer n.toNat).reread = .integer n.toNat := by
  have := n.toNat_lt
  exact reread_integer (by omega) (by omega)

theorem inRange_int64 (n : Int64) : (Json.integer n.toInt).inRange = true := by
  have := n.le_toInt
  have := n.toInt_lt
  exact inRange_integer (by omega) (by omega)

theorem reread_int64 (n : Int64) : (Json.integer n.toInt).reread = .integer n.toInt := by
  have := n.le_toInt
  have := n.toInt_lt
  exact reread_integer (by omega) (by omega)

end Json

/-! ## Spans and literals -/

theorem Span.inRange_toJson (s : Span) : s.toJson.inRange = true := by
  rw [Span.toJson, inRange, membersInRange, membersInRange, membersInRange, inRange_offset,
    inRange_offset]
  rfl

theorem Span.reread_toJson (s : Span) : s.toJson.reread = s.toJson := by
  rw [Span.toJson, reread, rereadMembers, rereadMembers, rereadMembers, reread_offset,
    reread_offset]

theorem Literal.inRange_toJson (l : Literal) :
    l.toJson.inRange = l.floats.all Binary64.inRange := by
  cases l with
  | int n =>
      show (true && ((Json.integer n.toInt).inRange && true)) = true
      rw [inRange_int64]
      rfl
  | float x => rfl
  | _ => rfl

namespace Document

theorem readOffset_toNat (n : UInt32) : readOffset n.toNat = .ok n := by
  have := n.toNat_lt
  rw [readOffset, if_pos (by omega)]
  exact congrArg Except.ok UInt32.ofNat_toNat

theorem readInt64_toInt (n : Int64) : readInt64 (.integer n.toInt) = .ok n := by
  rw [readInt64, if_pos ⟨n.le_toInt, n.toInt_lt⟩, Int64.ofInt_toInt]

theorem readTexts_map_text (ss : List String) : readTexts (ss.map .text) = .ok ss := by
  induction ss with
  | nil => rfl
  | cons s ss ih =>
      rw [List.map_cons, readTexts, ih]
      rfl

theorem read_literal_eq (v : Json) : read .literal v = readLiteral v := by
  cases v <;> rfl

/-- A literal is read back, unless it is a number that is not finite. -/
theorem read_literal (l : Literal) :
    (read .literal l.toJson.reread).toOption =
      someIf (l.floats.all Binary64.isFinite) (l.mapFloats Binary64.reread) := by
  rw [read_literal_eq]
  cases l with
  | int n =>
      -- an integer literal has 64 bits, so its digits are read as that integer
      show (readLiteral (.object [("kind", .text "int"),
        ("value", (Json.integer n.toInt).reread)])).toOption = _
      rw [reread_int64]
      show (Literal.int <$> readInt64 (.integer n.toInt) >>= fun l => noMore l []).toOption = _
      rw [readInt64_toInt]
      rfl
  | float x =>
      -- the one literal that may come back as `null`, which is no number
      show (Literal.float <$> readFloat (rereadFloat x) >>= fun l => noMore l []).toOption = _
      rw [rereadFloat, Literal.floats, List.all_cons, List.all_nil, Bool.and_true]
      cases x.isFinite <;> rfl
  | _ => rfl

/-! ## Records -/

theorem readSlots_eq_assignAll (fs : Fields) (slots : Slots Shape.Value fs)
    (ms : List (String × Json)) :
    readSlots fs slots ms = Slots.assignAll id read fs slots ms := by
  induction ms generalizing slots with
  | nil => rfl
  | cons m ms ih =>
      obtain ⟨name, v⟩ := m
      rw [readSlots, Slots.assignAll]
      cases Slots.assign? id name (fun s => read s v) fs slots with
      | none => exact ih slots
      | some assigned =>
          cases assigned with
          | error e => rfl
          | ok slots' => exact ih slots'

/-- The values of a record are read from its members. -/
theorem completed_readSlots (fs : Fields) (ms : List (String × Json)) :
    completed fs (readSlots fs (Slots.empty fs) ms) = ofMembers id read fs ms := by
  rw [completed, ofMembers, readSlots_eq_assignAll]
  cases Slots.assignAll id read fs (Slots.empty fs) ms with
  | error e => rfl
  | ok slots =>
      show Slots.complete fs slots = (Slots.complete fs slots).mapError id
      cases Slots.complete fs slots <;> rfl

theorem read_span_object (ms : List (String × Json)) :
    read .span (.object ms) = buildSpan <$> ofMembers id read spanFields ms :=
  congrArg (buildSpan <$> ·) (completed_readSlots spanFields ms)

theorem read_node_object (ms : List (String × Json)) :
    read .node (.object ms) = buildNode <$> ofMembers id read nodeFields ms :=
  congrArg (buildNode <$> ·) (completed_readSlots nodeFields ms)

theorem read_optionalNode_object (ms : List (String × Json)) :
    read .optionalNode (.object ms) = (some ∘ buildNode) <$> ofMembers id read nodeFields ms :=
  congrArg ((some ∘ buildNode) <$> ·) (completed_readSlots nodeFields ms)

theorem read_invocation_object (ms : List (String × Json)) :
    read .invocation (.object ms) = buildInvocation <$> ofMembers id read invocationFields ms :=
  congrArg (buildInvocation <$> ·) (completed_readSlots invocationFields ms)

/-- No kind of node has a field that is called like its type. -/
theorem type_not_mem_kindFields (name : KindName) : ∀ f ∈ kindFields name, f.name ≠ "type" := by
  cases name <;> simp [kindFields, invocationFields, blockFields]

theorem kinds_ofJson_text (name : KindName) : kinds.ofJson (.text name.text) = .ok name := by
  cases name <;> rfl

theorem tagOf_some {ms : List (String × Json)} (h : ∀ m ∈ ms, m.1 ≠ "type") (name : KindName) :
    tagOf (some name) ms = .ok name := by
  induction ms with
  | nil => rfl
  | cons m ms ih =>
      obtain ⟨hm, hms⟩ := List.forall_mem_cons.mp h
      rw [tagOf, if_neg hm, ih hms]

theorem read_kind_array_eq (tag : Json) (vs : List Json) :
    read .kind (.array (tag :: vs)) = (match kinds.ofJson tag with
      | .error e => .error e
      | .ok name => buildKind name <$> readItems (kindLabel name) 0 (kindFields name) vs :
        Except Mismatch Kind) := rfl

theorem read_kind_object_eq (ms : List (String × Json)) :
    read .kind (.object ms) = (match tagOf none ms with
      | .error e => .error e
      | .ok name => buildKind name <$> completed (kindFields name)
          (readSlots (kindFields name) (Slots.empty _) ms) : Except Mismatch Kind) := rfl

/-- A kind of node given as an array has its type first. -/
theorem read_kind_array (tag : Json) (vs : List Json) :
    read .kind (.array (tag :: vs)) = (do
      let name ← kinds.ofJson tag
      buildKind name <$> readItems (kindLabel name) 0 (kindFields name) vs) := by
  rw [read_kind_array_eq]
  cases kinds.ofJson tag <;> rfl

/-- A kind of node given as an object has its type anywhere. -/
theorem read_kind_object (ms : List (String × Json)) :
    read .kind (.object ms) = (do
      let name ← tagOf none ms
      buildKind name <$> ofMembers id read (kindFields name) ms) := by
  rw [read_kind_object_eq]
  cases tagOf none ms with
  | error e => rfl
  | ok name => exact congrArg (buildKind name <$> ·) (completed_readSlots (kindFields name) ms)

/-- A kind of node whose type comes first is read from its other members. -/
theorem read_kind_tagged {ms : List (String × Json)} (h : ∀ m ∈ ms, m.1 ≠ "type")
    (name : KindName) :
    read .kind (.object (("type", .text name.text) :: ms)) =
      buildKind name <$> ofMembers id read (kindFields name) ms := by
  have htag : tagOf none (("type", .text name.text) :: ms) = .ok name := by
    rw [tagOf, if_pos rfl, kinds_ofJson_text]
    exact tagOf_some h name
  rw [read_kind_object, htag, ok_bind, ofMembers_unknown (type_not_mem_kindFields name)]
  rfl

/-! ## Numbers in range -/

theorem membersInRange_append (ms ms' : List (String × Json)) :
    membersInRange (ms ++ ms') = (membersInRange ms && membersInRange ms') := by
  induction ms with
  | nil => rfl
  | cons m ms ih =>
      obtain ⟨name, v⟩ := m
      rw [List.cons_append, membersInRange, membersInRange, ih, Bool.and_assoc]

theorem itemsInRange_map_text (ss : List String) : itemsInRange (ss.map .text) = true := by
  induction ss with
  | nil => rfl
  | cons s ss ih => exact ih

mutual

/-- The numbers of a written node are in range when its floating-point numbers are. -/
theorem inRange_node (n : Node) : n.toJson.inRange = n.floats.all Binary64.inRange := by
  match n with
  | ⟨kind, span⟩ =>
      show (kind.toJson.inRange && (span.toJson.inRange && true)) = _
      rw [inRange_kind kind, span.inRange_toJson]
      exact Bool.and_true _

theorem inRange_kind (k : Kind) : k.toJson.inRange = k.floats.all Binary64.inRange := by
  match k with
  | .send call => exact membersInRange_invocation call
  | .block b => exact membersInRange_block b
  | .begin children => exact (Bool.and_true _).trans (itemsInRange_nodes children)
  | .interpolation parts => exact (Bool.and_true _).trans (itemsInRange_nodes parts)
  | .literal value => exact (Bool.and_true _).trans value.inRange_toJson
  | .array items => exact (Bool.and_true _).trans (itemsInRange_nodes items)
  | .hash pairs => exact (Bool.and_true _).trans (itemsInRange_nodes pairs)
  | .pair key value =>
      show (key.toJson.inRange && (value.toJson.inRange && true)) = _
      rw [inRange_node key, inRange_node value, Bool.and_true, Kind.floats, List.all_append]
  | .other label children => exact (Bool.and_true _).trans (itemsInRange_nodes children)

theorem membersInRange_invocation (call : Invocation) :
    membersInRange call.members = call.floats.all Binary64.inRange := by
  match call with
  | ⟨none, method, args⟩ => exact (Bool.and_true _).trans (itemsInRange_nodes args)
  | ⟨some receiver, method, args⟩ =>
      show (receiver.toJson.inRange && (itemsInRange (Node.listToJson args) && true)) = _
      rw [inRange_node receiver, itemsInRange_nodes args, Bool.and_true, Invocation.floats,
        List.all_append, Node.optionFloats]

theorem membersInRange_block (b : BlockCall) :
    membersInRange b.members = b.floats.all Binary64.inRange := by
  match b with
  | ⟨call, params, body⟩ =>
      -- parameters are texts, so they hold no numbers
      have hparams : membersInRange
          (if params.isEmpty then [] else [("params", Json.array (params.map .text))]) = true := by
        split
        · rfl
        · exact (Bool.and_true _).trans (itemsInRange_map_text params)
      show (membersInRange call.members && membersInRange (_ ++ [("body", _)])) = _
      rw [membersInRange_append, hparams, membersInRange_invocation call, BlockCall.floats,
        List.all_append, ← inRange_optionNode body]
      exact congrArg (_ && ·) (Bool.and_true _)

theorem inRange_optionNode (o : Option Node) :
    (Node.optionToJson o).inRange = (Node.optionFloats o).all Binary64.inRange := by
  match o with
  | none => rfl
  | some n => exact inRange_node n

theorem itemsInRange_nodes (ns : List Node) :
    itemsInRange (Node.listToJson ns) = (Node.listFloats ns).all Binary64.inRange := by
  match ns with
  | [] => rfl
  | n :: ns =>
      rw [Node.listToJson, itemsInRange, inRange_node n, itemsInRange_nodes ns, Node.listFloats,
        List.all_append]

end

/-! ## Reading a tree back -/

theorem rereadItems_map_text (ss : List String) :
    rereadItems (ss.map .text) = ss.map .text := by
  induction ss with
  | nil => rfl
  | cons s ss ih => exact congrArg (Json.text s :: ·) ih

theorem read_texts (ss : List String) :
    (read .texts (Json.array (ss.map .text)).reread).toOption = someIf true ss := by
  show (readTexts (rereadItems (ss.map .text))).toOption = _
  rw [rereadItems_map_text, readTexts_map_text]
  rfl

theorem read_span (s : Span) : (read .span s.toJson.reread).toOption = someIf true s := by
  have hoffset : ∀ n : UInt32, (read .offset (.integer n.toNat)).toOption = someIf true n := by
    intro n
    show (readOffset n.toNat).toOption = _
    rw [readOffset_toNat]
    rfl
  have h : (ofMembers id read spanFields
      [("start", .integer s.start.toNat), ("end", .integer s.stop.toNat)]).toOption =
        someIf (true && true) (s.start, s.stop, ()) :=
    toOption_ofMembers_given (by simp) (hoffset s.start) (toOption_ofMembers_last (hoffset s.stop))
  rw [s.reread_toJson, Span.toJson, read_span_object]
  exact toOption_map_someIf buildSpan h

theorem read_send_object (ms : List (String × Json)) :
    buildKind .send <$> ofMembers id read (kindFields .send) ms =
      Kind.send <$> read .invocation (.object ms) := by
  rw [read_invocation_object]
  exact comp_map _ _ _

theorem read_optionalNode_toJson (n : Node) :
    read .optionalNode n.toJson.reread = some <$> read .node n.toJson.reread := by
  obtain ⟨kind, span⟩ := n
  refine (read_optionalNode_object _).trans ?_
  refine Eq.trans ?_ (congrArg (some <$> ·) (read_node_object _).symm)
  exact comp_map _ _ _

theorem forall_name_rereadMembers {p : String → Prop} {ms : List (String × Json)}
    (h : ∀ m ∈ ms, p m.1) : ∀ m ∈ rereadMembers ms, p m.1 := by
  induction ms with
  | nil => exact fun _ hm => nomatch hm
  | cons m ms ih =>
      obtain ⟨hm, hms⟩ := List.forall_mem_cons.mp h
      exact List.forall_mem_cons.mpr ⟨hm, ih hms⟩

/-- A written kind of node is read from its members. -/
theorem read_kind_toJson (k : Kind) :
    read .kind k.toJson.reread =
      buildKind k.name <$> ofMembers id read (kindFields k.name) (rereadMembers k.members) := by
  rw [k.toJson_eq]
  exact read_kind_tagged
    (forall_name_rereadMembers (p := (· ≠ "type")) k.type_not_mem_members) k.name

mutual

/-- **A written node is read back when its numbers are finite**, with each number as its digits
    are read. -/
theorem read_node (n : Node) :
    (read .node n.toJson.reread).toOption =
      someIf (n.floats.all Binary64.isFinite) (n.mapFloats Binary64.reread) := by
  match n with
  | ⟨kind, span⟩ =>
      have h : (ofMembers id read nodeFields
          [("kind", kind.toJson.reread), ("span", span.toJson.reread)]).toOption =
            someIf (kind.floats.all Binary64.isFinite && true)
              (kind.mapFloats Binary64.reread, span, ()) :=
        toOption_ofMembers_given (by simp) (read_kind kind)
          (toOption_ofMembers_last (read_span span))
      rw [Bool.and_true] at h
      exact (congrArg _ (read_node_object _)).trans (toOption_map_someIf buildNode h)

theorem read_kind (k : Kind) :
    (read .kind k.toJson.reread).toOption =
      someIf (k.floats.all Binary64.isFinite) (k.mapFloats Binary64.reread) := by
  refine (congrArg _ (read_kind_toJson k)).trans ?_
  match k with
  | .send call =>
      -- the members of the invocation stand beside the type
      refine (congrArg _ (read_send_object _)).trans ?_
      exact toOption_map_someIf Kind.send (read_invocation call)
  | .block b => exact read_block b
  | .begin children =>
      exact toOption_map_someIf (buildKind .begin) (toOption_ofMembers_last (read_nodes children))
  | .interpolation parts =>
      exact toOption_map_someIf (buildKind .interpolation)
        (toOption_ofMembers_last (read_nodes parts))
  | .literal value =>
      exact toOption_map_someIf (buildKind .literal) (toOption_ofMembers_last (read_literal value))
  | .array items =>
      exact toOption_map_someIf (buildKind .array) (toOption_ofMembers_last (read_nodes items))
  | .hash pairs =>
      exact toOption_map_someIf (buildKind .hash) (toOption_ofMembers_last (read_nodes pairs))
  | .pair key value =>
      have h : (ofMembers id read (kindFields .pair)
          [("key", key.toJson.reread), ("value", value.toJson.reread)]).toOption =
            someIf (key.floats.all Binary64.isFinite && value.floats.all Binary64.isFinite)
              (key.mapFloats Binary64.reread, value.mapFloats Binary64.reread, ()) :=
        toOption_ofMembers_given (by simp) (read_node key)
          (toOption_ofMembers_last (read_node value))
      rw [Kind.floats, List.all_append]
      exact toOption_map_someIf (buildKind .pair) h
  | .other label children =>
      have h : (ofMembers id read (kindFields .other) [("label", .text label),
          ("children", (Json.array (Node.listToJson children)).reread)]).toOption =
            someIf (true && (Node.listFloats children).all Binary64.isFinite)
              (label, Node.listMapFloats Binary64.reread children, ()) :=
        toOption_ofMembers_given (by simp) rfl (toOption_ofMembers_last (read_nodes children))
      exact toOption_map_someIf (buildKind .other) h

theorem read_invocation (call : Invocation) :
    (read .invocation (Json.object call.members).reread).toOption =
      someIf (call.floats.all Binary64.isFinite) (call.mapFloats Binary64.reread) := by
  refine (congrArg _ (read_invocation_object _)).trans ?_
  match call with
  | ⟨receiver, method, args⟩ =>
      have hrest : (ofMembers id read invocationFields.tail [("method", .text method),
          ("args", (Json.array (Node.listToJson args)).reread)]).toOption =
            someIf (true && (Node.listFloats args).all Binary64.isFinite)
              (method, Node.listMapFloats Binary64.reread args, ()) :=
        toOption_ofMembers_given (by simp) rfl (toOption_ofMembers_last (read_nodes args))
      match receiver with
      | none =>
          -- not written, and its stand-in is its absence
          exact toOption_map_someIf buildInvocation
            (toOption_ofMembers_omitted (by simp) rfl hrest)
      | some receiver =>
          have hreceiver : (read .optionalNode receiver.toJson.reread).toOption =
              someIf (receiver.floats.all Binary64.isFinite)
                (some (receiver.mapFloats Binary64.reread)) :=
            read_optionalNode (some receiver)
          rw [Invocation.floats, List.all_append]
          exact toOption_map_someIf buildInvocation
            (toOption_ofMembers_given (by simp) hreceiver hrest)

theorem read_block (b : BlockCall) :
    (buildKind .block <$> ofMembers id read blockFields (rereadMembers b.members)).toOption =
      someIf (b.floats.all Binary64.isFinite) (.block (b.mapFloats Binary64.reread)) := by
  match b with
  | ⟨call, params, body⟩ =>
      have hbody : (ofMembers id read [blockFields[2]]
          [("body", (Node.optionToJson body).reread)]).toOption =
            someIf ((Node.optionFloats body).all Binary64.isFinite)
              (Node.optionMapFloats Binary64.reread body, ()) :=
        toOption_ofMembers_last (read_optionalNode body)
      rw [BlockCall.floats, List.all_append]
      cases params with
      | nil =>
          -- no parameters are not written, and stand in for themselves
          exact toOption_map_someIf (buildKind .block) (toOption_ofMembers_given (by simp)
            (read_invocation call) (toOption_ofMembers_omitted (by simp) rfl hbody))
      | cons param params =>
          exact toOption_map_someIf (buildKind .block) (toOption_ofMembers_given (by simp)
            (read_invocation call) (toOption_ofMembers_given (by simp)
              (read_texts (param :: params)) hbody))

theorem read_optionalNode (o : Option Node) :
    (read .optionalNode (Node.optionToJson o).reread).toOption =
      someIf ((Node.optionFloats o).all Binary64.isFinite)
        (Node.optionMapFloats Binary64.reread o) := by
  match o with
  | none => rfl
  | some n =>
      refine (congrArg _ (read_optionalNode_toJson n)).trans ?_
      exact toOption_map_someIf some (read_node n)

theorem read_nodes (ns : List Node) :
    (read .nodes (Json.array (Node.listToJson ns)).reread).toOption =
      someIf ((Node.listFloats ns).all Binary64.isFinite)
        (Node.listMapFloats Binary64.reread ns) := by
  match ns with
  | [] => rfl
  | n :: ns =>
      rw [Node.listFloats, List.all_append]
      exact toOption_bind_someIf (read_node n) (toOption_map_someIf _ (read_nodes ns))

end

end Document

end CaskLint
