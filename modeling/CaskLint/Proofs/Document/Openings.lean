import CaskLint.Proofs.Document.RoundTrip
import CaskLint.Proofs.Document.Streaming
import CaskLint.Proofs.Tree.Roles
import CaskLint.Tree.Builders

/-!
# Nodes in the order of the text

  A text tells of a node where an object opens that has a `kind` with a `type`. **`headings`** goes
  through the tokens of a text from left to right, reads the value that begins at each of them
  and keeps what it says of a node (`Sketch.heading?`). It knows nothing of trees, so it finds the
  node objects in the order in which they open, wherever they stand.

  In the text of a document these are the nodes of the walk (**`Document.walk_exact`**). The tokens
  of a written value are taken apart by the members and items of the value (`headings_object`,
  `headings_array`), and then by the kinds of nodes (`headings_node`): what is no node is written
  as objects without a `kind`, or with one that is no object.
-/

namespace CaskLint

open Json

/-! ## What a text says of nodes -/

/-- What is said of a node: its type, the method it invokes, and the offsets of its span. -/
structure Heading where
  type : Option String
  method : Option String
  span : Option (Int × Int)
deriving DecidableEq

namespace Json

/-- The value of the first member with this name. -/
def Sketch.member? (name : String) : Sketch → Option Sketch
  | .object members _ => (Document.valuesAt members name).head?
  | _ => none

/-- The text, if the value is one. -/
def Sketch.text? : Sketch → Option String
  | .text q => q.read.toOption
  | _ => none

/-- The integer, if the value is one. -/
def Sketch.integer? : Sketch → Option Int
  | .number n => n.integer?
  | _ => none

/-- The offsets of an object that is a span. -/
def Sketch.offsets? (s : Sketch) : Option (Int × Int) := do
  let start ← (← s.member? "start").integer?
  let stop ← (← s.member? "end").integer?
  return (start, stop)

/-- What an object says of a node, if it has a `kind` with a `type`. The method may be that of the
    invocation in a block call. -/
def Sketch.heading? (s : Sketch) : Option Heading := do
  let kind ← s.member? "kind"
  let type ← kind.member? "type"
  let call := (kind.member? "call").getD kind
  return ⟨type.text?, (call.member? "method").bind Sketch.text?,
    (s.member? "span").bind Sketch.offsets?⟩

/-- What the objects say of nodes that open in a list of tokens, in the order in which they do. -/
def headings : List Token → List Heading
  | [] => []
  | t :: ts => (Outline.ofTokens (t :: ts)).sketch.heading?.toList ++ headings ts

end Json

/-- What is to be said of a node. -/
def Node.heading (n : Node) : Heading :=
  ⟨some n.kind.name.text, n.method?, some (n.span.start.toNat, n.span.stop.toNat)⟩

/-! ## The objects of a value -/

namespace Json

/-- The value that begins with the tokens of a written value is that value. -/
theorem sketch_ofTokens_append (v : Json) (ts : List Token) :
    (Outline.ofTokens (v.tokens ++ ts)).sketch = v.sketch := by
  have hsound : AllSound v.sketch.tokens := (spells_compact v).sound
  have hbuilt := foldl_step_sketch hsound [] ts
  rw [tokens_sketch] at hbuilt
  rw [Outline.ofTokens, hbuilt]
  cases ts with
  | nil => rfl
  | cons t ts =>
      show ((ts.foldl Builder.step (.over v.sketch true)).finish).1 = _
      rw [Builder.isOver_foldl rfl]
      rfl

/-- Nothing begins with what closes or parts values. -/
theorem headings_mark {t : Token} (ht : t ∈ [Token.closeArray, .closeObject, .comma, .colon])
    (ts : List Token) : headings (t :: ts) = headings ts := by
  have hbroken : Builder.step (.dueValue []) t = .over (.broken .malformed) false := by
    simp only [List.mem_cons, List.not_mem_nil, or_false] at ht
    rcases ht with rfl | rfl | rfl | rfl <;> rfl
  have hsketch : (Outline.ofTokens (t :: ts)).sketch = .broken .malformed := by
    show (List.foldl Builder.step (Builder.step (.dueValue []) t) ts).finish.1 = _
    rw [hbroken, Builder.isOver_foldl rfl]
    rfl
  rw [headings, hsketch]
  rfl

/-- Its own tokens are all that the tokens of a value add. -/
def Parted (v : Json) : Prop :=
  ∀ ts, headings (v.tokens ++ ts) = headings v.tokens ++ headings ts

/-- What opens at the first token is told by the value. -/
theorem headings_tokens_append {v : Json} {t : Token} {ts : List Token}
    (h : v.tokens = t :: ts) (ts' : List Token) :
    headings (v.tokens ++ ts') = v.sketch.heading?.toList ++ headings (ts ++ ts') := by
  have hsketch := sketch_ofTokens_append v ts'
  rw [h] at hsketch ⊢
  rw [List.cons_append] at hsketch ⊢
  rw [headings, hsketch]

/-- A value of one token tells of no node. -/
theorem headings_leaf {v : Json} {t : Token} (h : v.tokens = [t]) (hv : v.sketch.heading? = none)
    (ts : List Token) : headings (v.tokens ++ ts) = headings ts := by
  rw [headings_tokens_append h, hv]
  rfl

theorem headings_name (name : String) (ts : List Token) :
    headings (.text (quoted name) :: .colon :: ts) = headings ts := by
  have hname := headings_leaf (v := .text name) rfl rfl (.colon :: ts)
  rw [← headings_mark (t := .colon) (by simp) ts]
  exact hname

theorem headings_itemTokens {items : List Json} (h : ∀ item ∈ items, item.Parted)
    (ts : List Token) :
    headings (itemTokens items ++ ts) = items.flatMap (headings ·.tokens) ++ headings ts := by
  induction items with
  | nil => rfl
  | cons item items ih =>
      obtain ⟨hitem, hitems⟩ := List.forall_mem_cons.mp h
      rw [itemTokens, List.cons_append, List.cons_append, headings_mark (by simp),
        List.append_assoc, hitem, ih hitems, List.flatMap_cons, List.append_assoc]

theorem headings_memberTokens {members : List (String × Json)} (h : ∀ m ∈ members, m.2.Parted)
    (ts : List Token) :
    headings (memberTokens members ++ ts) =
      members.flatMap (headings ·.2.tokens) ++ headings ts := by
  induction members with
  | nil => rfl
  | cons m members ih =>
      obtain ⟨name, value⟩ := m
      obtain ⟨hvalue, hmembers⟩ := List.forall_mem_cons.mp h
      rw [memberTokens]
      simp only [List.cons_append, List.append_assoc]
      rw [headings_mark (by simp), headings_name, hvalue, ih hmembers, List.flatMap_cons,
        List.append_assoc]

theorem headings_array_append {items : List Json} (h : ∀ item ∈ items, item.Parted)
    (ts : List Token) :
    headings ((Json.array items).tokens ++ ts) =
      items.flatMap (headings ·.tokens) ++ headings ts := by
  cases items with
  | nil =>
      rw [headings_tokens_append rfl]
      exact headings_mark (by simp) ts
  | cons item items =>
      obtain ⟨hitem, hitems⟩ := List.forall_mem_cons.mp h
      have htokens : (Json.array (item :: items)).tokens =
          .openArray :: (item.tokens ++ itemTokens items ++ [.closeArray]) := rfl
      rw [headings_tokens_append htokens]
      simp only [List.append_assoc, List.cons_append, List.nil_append]
      rw [hitem, headings_itemTokens hitems, headings_mark (by simp), List.flatMap_cons,
        List.append_assoc]
      rfl

theorem headings_object_append {members : List (String × Json)} (h : ∀ m ∈ members, m.2.Parted)
    (ts : List Token) :
    headings ((Json.object members).tokens ++ ts) =
      (Json.object members).sketch.heading?.toList ++
        members.flatMap (headings ·.2.tokens) ++ headings ts := by
  match members with
  | [] =>
      rw [headings_tokens_append rfl]
      exact headings_mark (by simp) ts
  | (name, value) :: members =>
      obtain ⟨hvalue, hmembers⟩ := List.forall_mem_cons.mp h
      have htokens : (Json.object ((name, value) :: members)).tokens =
          .openObject :: .text (quoted name) :: .colon ::
            (value.tokens ++ memberTokens members ++ [.closeObject]) := rfl
      rw [headings_tokens_append htokens]
      simp only [List.append_assoc, List.cons_append, List.nil_append]
      rw [headings_name, hvalue, headings_memberTokens hmembers, headings_mark (by simp),
        List.flatMap_cons, List.append_assoc]

theorem parted_leaf {v : Json} {t : Token} (h : v.tokens = [t]) (hv : v.sketch.heading? = none) :
    v.Parted := by
  intro ts
  have hnil := headings_leaf h hv []
  rw [List.append_nil] at hnil
  rw [headings_leaf h hv, hnil]
  rfl

mutual

/-- **Values stand beside one another**: what is found in one does not depend on what follows. -/
theorem parted (v : Json) : v.Parted := by
  match v with
  | .null | .flag _ | .integer _ | .text _ => exact parted_leaf rfl rfl
  | .float x => cases x <;> exact parted_leaf rfl rfl
  | .array items =>
      intro ts
      have hnil := headings_array_append (parted_items items) []
      rw [List.append_nil, headings, List.append_nil] at hnil
      rw [headings_array_append (parted_items items), hnil]
  | .object members =>
      intro ts
      have hnil := headings_object_append (parted_members members) []
      rw [List.append_nil, headings, List.append_nil] at hnil
      rw [headings_object_append (parted_members members), hnil]

theorem parted_items (items : List Json) : ∀ item ∈ items, item.Parted := by
  match items with
  | [] => exact List.forall_mem_nil _
  | item :: items => exact List.forall_mem_cons.mpr ⟨parted item, parted_items items⟩

theorem parted_members (members : List (String × Json)) : ∀ m ∈ members, m.2.Parted := by
  match members with
  | [] => exact List.forall_mem_nil _
  | (_, value) :: members => exact List.forall_mem_cons.mpr ⟨parted value, parted_members members⟩

end

theorem headings_leaf_tokens {v : Json} {t : Token} (h : v.tokens = [t])
    (hv : v.sketch.heading? = none) : headings v.tokens = [] := by
  have hnil := headings_leaf h hv []
  rwa [List.append_nil] at hnil

/-- What is found in an array is found in its items. -/
theorem headings_array (items : List Json) :
    headings (Json.array items).tokens = items.flatMap (headings ·.tokens) := by
  have hnil := headings_array_append (parted_items items) []
  rwa [List.append_nil, headings, List.append_nil] at hnil

/-- What is found in an object is the object itself, if it is that of a node, and what is found in
    the values of its members. -/
theorem headings_object (members : List (String × Json)) :
    headings (Json.object members).tokens = (Json.object members).sketch.heading?.toList ++
      members.flatMap (headings ·.2.tokens) := by
  have hnil := headings_object_append (parted_members members) []
  rwa [List.append_nil, headings, List.append_nil] at hnil

theorem member?_object (name : String) (members : List (String × Json)) :
    (Json.object members).sketch.member? name = (members.lookup name).map sketch := by
  show (Document.valuesAt (memberSketches members) name).head? = _
  induction members with
  | nil => rfl
  | cons m members ih =>
      obtain ⟨name', value⟩ := m
      rw [memberSketches, List.lookup_cons]
      by_cases h : name = name'
      · subst h
        rw [Document.valuesAt_cons_of_eq (read_quoted name), beq_self_eq_true]
        rfl
      · have hread : (quoted name').read ≠ .ok name := by
          rw [read_quoted]
          exact fun heq => h (Except.ok.inj heq).symm
        rw [Document.valuesAt_cons_of_ne hread, ih, beq_eq_false_iff_ne.mpr h]

end Json

/-! ## Nodes -/

theorem Node.listToJson_eq_map (ns : List Node) : Node.listToJson ns = ns.map Node.toJson := by
  induction ns with
  | nil => rfl
  | cons n ns ih => rw [Node.listToJson, ih, List.map_cons]

theorem headings_listToJson (ns : List Node) :
    headings (Json.array (Node.listToJson ns)).tokens =
      ns.flatMap (headings ·.toJson.tokens) := by
  rw [headings_array, Node.listToJson_eq_map, List.flatMap_map]

/-- An object without a `kind` that has a `type` tells of no node, but the values in it may. -/
theorem headings_object_of_lookup {members : List (String × Json)}
    (h : (members.lookup "kind").bind (·.sketch.member? "type") = none) :
    headings (Json.object members).tokens = members.flatMap (headings ·.2.tokens) := by
  have hnone : (Json.object members).sketch.heading? = none := by
    rw [Sketch.heading?, member?_object]
    cases hkind : members.lookup "kind" with
    | none => rfl
    | some kind =>
        rw [hkind] at h
        show Option.bind (kind.sketch.member? "type") _ = none
        rw [show kind.sketch.member? "type" = none from h]
        rfl
  rw [headings_object, hnone]
  rfl

theorem headings_span (s : Span) : headings s.toJson.tokens = [] :=
  headings_object_of_lookup rfl

theorem headings_literal (l : Literal) : headings l.toJson.tokens = [] := by
  cases l with
  | float x =>
      rw [Literal.toJson, headings_object_of_lookup rfl]
      cases x <;> rfl
  | _ => exact headings_object_of_lookup rfl

theorem headings_invocation (call : Invocation) :
    call.members.flatMap (headings ·.2.tokens) =
      call.operands.flatMap (headings ·.toJson.tokens) := by
  obtain ⟨receiver, method, args⟩ := call
  have hmethod : headings (Json.text method).tokens = [] := headings_leaf_tokens rfl rfl
  cases receiver <;>
    simp [Invocation.members, Invocation.operands, hmethod, headings_listToJson]

theorem headings_params (params : List String) :
    headings (Json.array (params.map .text)).tokens = [] := by
  rw [headings_array, List.flatMap_map, List.flatMap_eq_nil_iff]
  exact fun param _ => headings_leaf_tokens rfl rfl

theorem lookup_kind_members (call : Invocation) : call.members.lookup "kind" = none := by
  obtain ⟨receiver, method, args⟩ := call
  cases receiver <;> rfl

theorem lookup_kind_block_members (b : BlockCall) : b.members.lookup "kind" = none := by
  obtain ⟨call, params, body⟩ := b
  cases params <;> rfl

theorem headings_block (b : BlockCall) :
    b.members.flatMap (headings ·.2.tokens) = b.parts.flatMap (headings ·.toJson.tokens) := by
  obtain ⟨call, params, body⟩ := b
  have hcall : headings (Json.object call.members).tokens =
      call.operands.flatMap (headings ·.toJson.tokens) := by
    rw [headings_object_of_lookup (by rw [lookup_kind_members]; rfl), headings_invocation]
  have hparams : List.flatMap (headings ·.2.tokens)
      (if params.isEmpty then [] else [("params", Json.array (params.map .text))]) = [] := by
    cases params with
    | nil => rfl
    | cons param params => exact (List.flatMap_singleton _ _).trans (headings_params _)
  have hbody : headings (Node.optionToJson body).tokens =
      body.toList.flatMap (headings ·.toJson.tokens) := by
    cases body with
    | none => rfl
    | some n => exact (List.flatMap_singleton _ _).symm
  rw [BlockCall.members, BlockCall.parts, List.cons_append, List.flatMap_cons,
    List.flatMap_append, List.flatMap_append, hcall, hparams, List.nil_append,
    List.flatMap_singleton, hbody]

/-- **What is found in the object of a kind is found in the children**, one after the other. -/
theorem headings_kind (kind : Kind) :
    headings kind.toJson.tokens = kind.children.flatMap (headings ·.toJson.tokens) := by
  have htext : ∀ s, headings (Json.text s).tokens = [] := fun s => headings_leaf_tokens rfl rfl
  cases kind with
  | send call =>
      have hkind : (("type", Json.text KindName.send.text) :: call.members).lookup "kind" = none :=
        lookup_kind_members call
      rw [Kind.toJson, headings_object_of_lookup (by rw [hkind]; rfl), List.flatMap_cons, htext,
        headings_invocation]
      rfl
  | block b =>
      have hkind : (("type", Json.text KindName.block.text) :: b.members).lookup "kind" = none :=
        lookup_kind_block_members b
      rw [Kind.toJson, headings_object_of_lookup (by rw [hkind]; rfl), List.flatMap_cons, htext,
        headings_block]
      rfl
  | literal value =>
      rw [Kind.toJson, headings_object_of_lookup rfl]
      simp [htext, headings_literal, Kind.children]
  | pair key value =>
      rw [Kind.toJson, headings_object_of_lookup rfl]
      simp [htext, Kind.children]
  | other label children =>
      rw [Kind.toJson, headings_object_of_lookup rfl]
      simp [htext, headings_listToJson, Kind.children]
  | begin children | interpolation children | array children | hash children =>
      rw [Kind.toJson, headings_object_of_lookup rfl]
      simp [htext, headings_listToJson, Kind.children]

theorem offsets?_span (s : Span) :
    s.toJson.sketch.offsets? = some ((s.start.toNat : Int), (s.stop.toNat : Int)) := by
  have hinteger : ∀ offset : UInt32, (Json.integer offset.toNat).sketch.integer? =
      some (offset.toNat : Int) := by
    intro offset
    have hoffset := offset.toNat_lt
    exact Numeral.integer?_ofInt (by omega) (by omega)
  rw [Sketch.offsets?, Span.toJson, member?_object, member?_object]
  show ((Json.integer s.start.toNat).sketch.integer?.bind fun start =>
    (Json.integer s.stop.toNat).sketch.integer?.bind fun stop => some (start, stop)) = _
  rw [hinteger, hinteger]
  rfl

theorem text?_text (s : String) : (Json.text s).sketch.text? = some s := by
  show (quoted s).read.toOption = some s
  rw [read_quoted]
  rfl

theorem member?_type (kind : Kind) :
    kind.toJson.sketch.member? "type" = some (Json.text kind.name.text).sketch := by
  cases kind <;> (rw [Kind.toJson, member?_object]; rfl)

theorem member?_method (call : Invocation) {members : List (String × Json)}
    (h : members.lookup "method" = call.members.lookup "method") :
    ((Json.object members).sketch.member? "method").bind Sketch.text? = some call.method := by
  obtain ⟨receiver, method, args⟩ := call
  have hlookup : (Invocation.members ⟨receiver, method, args⟩).lookup "method" =
      some (.text method) := by
    cases receiver <;> rfl
  rw [member?_object, h, hlookup]
  exact text?_text method

/-- The object of a node says of it what there is to be said. -/
theorem heading?_node (n : Node) : n.toJson.sketch.heading? = some n.heading := by
  obtain ⟨kind, span⟩ := n
  have hmethod : (((kind.toJson.sketch.member? "call").getD kind.toJson.sketch).member?
      "method").bind Sketch.text? = Node.method? ⟨kind, span⟩ := by
    cases kind with
    | send call =>
        have hcall : call.members.lookup "call" = none := by
          obtain ⟨receiver, method, args⟩ := call
          cases receiver <;> rfl
        have hnone : (Kind.send call).toJson.sketch.member? "call" = none := by
          rw [Kind.toJson, member?_object]
          show (call.members.lookup "call").map sketch = none
          rw [hcall]
          rfl
        rw [hnone]
        exact member?_method call rfl
    | block b =>
        obtain ⟨call, params, body⟩ := b
        have hcall : (Kind.block ⟨call, params, body⟩).toJson.sketch.member? "call" =
            some (Json.object call.members).sketch := by
          rw [Kind.toJson, member?_object]
          rfl
        rw [hcall]
        exact member?_method call rfl
    | _ =>
        rw [Kind.toJson, member?_object]
        show ((Json.object _).sketch.member? "method").bind Sketch.text? = none
        rw [member?_object]
        rfl
  have hkind : (Node.toJson ⟨kind, span⟩).sketch.member? "kind" = some kind.toJson.sketch := by
    rw [Node.toJson, member?_object]
    rfl
  have hspan : (Node.toJson ⟨kind, span⟩).sketch.member? "span" = some span.toJson.sketch := by
    rw [Node.toJson, member?_object]
    rfl
  rw [Sketch.heading?, hkind, hspan]
  show (kind.toJson.sketch.member? "type").bind _ = _
  rw [member?_type]
  show some (Heading.mk _ _ _) = _
  rw [hmethod, text?_text]
  show some (Heading.mk _ _ span.toJson.sketch.offsets?) = _
  rw [offsets?_span]
  rfl

/-- **What is found in the object of a node is the walk over it.** -/
theorem headings_node (n : Node) (depth : Nat) :
    headings n.toJson.tokens = (n.walk depth).map fun v => v.2.heading := by
  induction n using Node.induction_on_children generalizing depth with
  | step n ih =>
      have hobject : headings n.toJson.tokens = n.heading :: headings n.kind.toJson.tokens := by
        have hheading := heading?_node n
        obtain ⟨kind, span⟩ := n
        rw [Node.toJson] at hheading ⊢
        rw [headings_object, hheading]
        simp [headings_span]
      rw [hobject, headings_kind, Node.walk_eq, List.map_cons, List.map_flatMap]
      exact congrArg _ (List.flatMap_congr fun c hc => ih c hc (depth + 1))

/-! ## Documents -/

/-- **The walk misses no node.** In the text of a document, the objects that have a `kind` with a
    `type` open in the order in which the walk over its body meets the nodes, and they tell of
    these nodes: of their types, methods and spans. The walk has one entry for each place in the
    tree to which a statement and the fields of nodes lead, with its depth, and so the children of
    a node have one entry for each node that its fields hold. -/
theorem Document.walk_exact (d : Document) :
    headings (Token.scan d.toText.toList) =
      (d.body.flatMap (·.walk 0)).map (fun v => v.2.heading) ∧
    Enumerates (fun (i, roles) => (d.at? (i, roles)).map (roles.length, ·))
      (d.body.flatMap (·.walk 0)) ∧
    ∀ n : Node, Enumerates n.kind.held? n.children := by
  refine ⟨?_, d.enumerates_walk, fun n => n.kind.enumerates_children⟩
  have hscan : Token.scan d.toText.toList = d.toJson.tokens := by
    rw [← tokens_sketch]
    exact scan_of_spells (spells_pretty d.toJson)
  have hbody : headings d.toJson.tokens = d.body.flatMap (headings ·.toJson.tokens) := by
    have htext : ∀ s, headings (Json.text s).tokens = [] := fun s => headings_leaf_tokens rfl rfl
    obtain ⟨token, source, body⟩ := d
    cases source <;>
      (rw [Document.toJson, headings_object_of_lookup rfl]
       simp [htext, headings_listToJson])
  rw [hscan, hbody, List.map_flatMap]
  exact List.flatMap_congr fun n _ => headings_node n 0

/-- The invocation in a block call has no entry of its own. -/
example :
    (headings (Document.toJson ⟨"t", none,
      [.block "on_arm" [] [] [.send "version" []]]⟩).tokens).map Heading.method =
        [some "on_arm", some "version"] := by
  decide

end CaskLint
