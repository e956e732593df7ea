import CaskLint.Proofs.Document.Streaming

/-!
# The parts of a document, one level at a time

  A part of a document is read in one of two ways (**`Mode`**): streamed from the sketch of the
  text, or buffered, that is, read from the value that its sketch means. **`Reads`** is either way
  without the limit on open arrays and objects.

  What a part gives that is an array or an object is put down to what its items or the values of
  its members give, whatever the order of the members (**`ReadsMembers`**): `reads_record_object`
  and `reads_record_array` for records, `reads_nodes_array` for lists of nodes. The two ways differ
  in what they ask of members that nobody knows (**`Passes`**) and in what they look into
  (**`Mode.opens`**). Streamed fields share a limit (`exists_streamRecord_object`); buffered fields
  are those of the values that the members mean (`exists_means_recordOf`).
-/

namespace CaskLint.Document

open Record Json

/-! ## Two ways to read a part -/

/-- How a part of a document is read. -/
inductive Mode where
  /-- Straight from the text. -/
  | streamed
  /-- From a JSON value that was read before. -/
  | buffered

/-- A part of a document gives this value, however deep it nests. -/
def Reads : Mode → (s : Shape) → Sketch → s.Value → Prop
  | .streamed, s, v, x => ∃ n, streamPart n s v = .ok x
  | .buffered, s, v, x => ∃ j, v.Means j ∧ read s j = .ok x

/-- The value of a member that nobody knows can be passed over. -/
def Passes : Mode → Sketch → Prop
  | .streamed, v => v.skip = .ok ()
  | .buffered, v => ∃ j, v.Means j

/-- Members give the values of these fields; those with other names can be passed over, and those
    whose names are `words` are left to the caller. -/
def ReadsMembers (mode : Mode) (words : List String) (fs : Fields)
    (ms : List (Quotation × Sketch)) (xs : Values Shape.Value fs) : Prop :=
  NamesRead (Passes mode) words fs ms ∧ RecordOf (Reads mode) (valuesAt ms) fs xs

/-- What means something can be passed over either way. -/
theorem passes_of_means {mode : Mode} {v : Sketch} {j : Json} (h : v.Means j) : Passes mode v := by
  cases mode with
  | streamed => exact skip_of_means h
  | buffered => exact ⟨j, h⟩

/-! ## Streamed records -/

section

variable {readAt : Stream} {label : String} {fs : Fields} {fault : Option Fault}
  {xs : Values Shape.Value fs} (hnames : (fs.map Field.name).Nodup)
  (hread : ∀ f ∈ fs, ∀ n v, readAt n f.shape v = streamPart n f.shape v)

include hread

/-- Fields that are streamed within a common limit. -/
theorem exists_streamRecord_array {vs : List Sketch} :
    (∃ n, streamRecord readAt label fs n (.array vs fault) = .ok xs) ↔
      fault = none ∧ ItemsOf (Reads .streamed) fs vs xs := by
  constructor
  · rintro ⟨n, h⟩
    obtain ⟨rfl, k, -, hitems⟩ := streamRecord_array_eq_ok.mp h
    refine ⟨rfl, hitems.imp fun f hf v _ x hx => ⟨k, ?_⟩⟩
    rw [← hread f hf]
    exact hx
  · rintro ⟨rfl, hitems⟩
    refine ⟨_, streamRecord_array_eq_ok.mpr ⟨rfl, Sketch.itemsDepth vs, rfl, ?_⟩⟩
    refine hitems.imp fun f hf v hv x hx => ?_
    obtain ⟨n, hx⟩ := hx
    rw [hread f hf]
    exact streamPart_of_depth_le hx (depth_le_itemsDepth hv)

include hnames

theorem exists_streamRecord_object {ms : List (Quotation × Sketch)} :
    (∃ n, streamRecord readAt label fs n (.object ms fault) = .ok xs) ↔
      fault = none ∧ ReadsMembers .streamed [] fs ms xs := by
  constructor
  · rintro ⟨n, h⟩
    obtain ⟨rfl, k, -, hpassed, hrecord⟩ := (streamRecord_object_eq_ok hnames).mp h
    refine ⟨rfl, hpassed, hrecord.imp fun f hf x hx => hx.imp fun v _ hv => ⟨k, ?_⟩⟩
    rw [← hread f hf]
    exact hv
  · rintro ⟨rfl, hpassed, hrecord⟩
    refine ⟨_, (streamRecord_object_eq_ok hnames).mpr
      ⟨rfl, Sketch.membersDepth ms, rfl, hpassed, ?_⟩⟩
    refine hrecord.imp fun f hf x hx => hx.imp fun v hv hvx => ?_
    obtain ⟨n, hvx⟩ := hvx
    obtain ⟨q, hq, -⟩ := mem_of_mem_valuesAt hv
    rw [hread f hf]
    exact streamPart_of_depth_le hvx (depth_le_membersDepth hq)

end

/-! ## Buffered records -/

theorem readItems_eq_ok {label : String} {index : Nat} {fs : Fields} {js : List Json}
    {xs : Values Shape.Value fs} :
    readItems label index fs js = .ok xs ↔ ItemsOf (fun s j x => read s j = .ok x) fs js xs := by
  induction fs generalizing index js with
  | nil =>
      cases js with
      | nil => exact ⟨fun _ => rfl, fun _ => rfl⟩
      | cons j js =>
          constructor
          · intro h
            exact nomatch h
          · intro h
            exact nomatch h
  | cons f fs ih =>
      obtain ⟨x, xs⟩ := xs
      cases js with
      | nil => exact standIns_eq_ok
      | cons j js =>
          constructor
          · intro h
            obtain ⟨y, hy, h⟩ := bind_eq_ok.mp h
            obtain ⟨ys, hys, h⟩ := bind_eq_ok.mp h
            obtain ⟨rfl, rfl⟩ := Prod.mk.inj (Except.ok.inj h)
            exact ⟨hy, ih.mp hys⟩
          · rintro ⟨hx, hxs⟩
            exact bind_eq_ok.mpr ⟨x, hx, bind_eq_ok.mpr ⟨xs, ih.mpr hxs, rfl⟩⟩

/-- Items give the values of these fields when what they mean does. -/
theorem exists_means_itemsOf {fs : Fields} {vs : List Sketch} {xs : Values Shape.Value fs} :
    (∃ js, List.Forall₂ Sketch.Means vs js ∧ ItemsOf (fun s j x => read s j = .ok x) fs js xs) ↔
      ItemsOf (Reads .buffered) fs vs xs := by
  induction fs generalizing vs with
  | nil =>
      constructor
      · rintro ⟨js, hjs, rfl⟩
        exact List.forall₂_nil_right_iff.mp hjs
      · rintro rfl
        exact ⟨[], .nil, rfl⟩
  | cons f fs ih =>
      obtain ⟨x, xs⟩ := xs
      cases vs with
      | nil =>
          constructor
          · rintro ⟨js, hjs, h⟩
            obtain rfl := List.forall₂_nil_left_iff.mp hjs
            exact ⟨h.1, ih.mp ⟨[], .nil, h.2⟩⟩
          · rintro ⟨hx, hxs⟩
            obtain ⟨js, hjs, h⟩ := ih.mpr hxs
            obtain rfl := List.forall₂_nil_left_iff.mp hjs
            exact ⟨[], .nil, hx, h⟩
      | cons v vs =>
          constructor
          · rintro ⟨js, hjs, h⟩
            obtain ⟨j, js', hj, hjs', rfl⟩ := List.forall₂_cons_left_iff.mp hjs
            exact ⟨⟨j, hj, h.1⟩, ih.mp ⟨js', hjs', h.2⟩⟩
          · rintro ⟨⟨j, hj, hx⟩, hxs⟩
            obtain ⟨js, hjs, h⟩ := ih.mpr hxs
            exact ⟨j :: js, .cons hj hjs, hx, h⟩

theorem exists_forall₂_of_forall {α β : Type} {R : α → β → Prop} {as : List α}
    (h : ∀ a ∈ as, ∃ b, R a b) : ∃ bs, List.Forall₂ R as bs := by
  induction as with
  | nil => exact ⟨[], .nil⟩
  | cons a as ih =>
      obtain ⟨⟨b, hb⟩, has⟩ := List.forall_mem_cons.mp h
      obtain ⟨bs, hbs⟩ := ih has
      exact ⟨b :: bs, .cons hb hbs⟩

theorem exists_of_forall₂ {α β : Type} {R : α → β → Prop} {as : List α} {bs : List β}
    (h : List.Forall₂ R as bs) {a : α} (ha : a ∈ as) : ∃ b, R a b := by
  obtain ⟨i, hi, rfl⟩ := List.getElem_of_mem ha
  exact ⟨_, (List.forall₂_iff_get.mp h).2 i hi (h.length_eq ▸ hi)⟩

/-- A field takes of sketches what it takes of the values that they mean. -/
theorem fieldOf_means_iff {f : Field Shape.Value} {vs : List Sketch} {js : List Json}
    (h : List.Forall₂ Sketch.Means vs js) {x : f.shape.Value} :
    FieldOf (fun s j x => read s j = .ok x) f js x ↔ FieldOf (Reads .buffered) f vs x := by
  constructor
  · rintro (⟨j, rfl, hx⟩ | ⟨rfl, hx⟩)
    · obtain ⟨v, rfl, hv⟩ := exists_eq_singleton_of_means h
      exact Or.inl ⟨v, rfl, j, hv, hx⟩
    · exact Or.inr ⟨List.forall₂_nil_right_iff.mp h, hx⟩
  · rintro (⟨v, rfl, j, hv, hx⟩ | ⟨rfl, hx⟩)
    · exact Or.inl ⟨j, eq_singleton_of_means hv h, hx⟩
    · exact Or.inr ⟨List.forall₂_nil_left_iff.mp h, hx⟩

/-- Members give the values of these fields when what they mean does. -/
theorem exists_means_recordOf {fs : Fields} {ms : List (Quotation × Sketch)}
    {xs : Values Shape.Value fs} :
    (∃ js, List.Forall₂ MemberMeans ms js ∧
        RecordOf (fun s j x => read s j = .ok x) (given js) fs xs) ↔
      ReadsMembers .buffered [] fs ms xs := by
  constructor
  · rintro ⟨js, hjs, hrecord⟩
    constructor
    · intro m hm
      obtain ⟨m', hname, hv⟩ := exists_of_forall₂ hjs hm
      exact ⟨m'.1, hname, fun _ _ => ⟨m'.2, hv⟩⟩
    · exact hrecord.imp fun f _ x => (fieldOf_means_iff (forall₂_given hjs f.name)).mp
  · rintro ⟨hpassed, hrecord⟩
    obtain ⟨js, hjs⟩ : ∃ js, List.Forall₂ MemberMeans ms js := by
      refine exists_forall₂_of_forall fun m hm => ?_
      obtain ⟨name, hname, hpass⟩ := hpassed m hm
      by_cases hfield : name ∈ fs.map Field.name
      · -- the only value under the name of a field means something
        obtain ⟨f, hf, rfl⟩ := List.mem_map.mp hfield
        have hv := mem_valuesAt hm hname
        obtain ⟨x, -, ⟨v, hvs, j, hj, -⟩ | ⟨hnone, -⟩⟩ := hrecord.exists_entry hf
        · rw [hvs, List.mem_singleton] at hv
          exact ⟨(f.name, j), hname, hv ▸ hj⟩
        · rw [hnone] at hv
          exact nomatch hv
      · obtain ⟨j, hj⟩ := hpass List.not_mem_nil hfield
        exact ⟨(name, j), hname, hj⟩
    exact ⟨js, hjs, hrecord.imp fun f _ x => (fieldOf_means_iff (forall₂_given hjs f.name)).mpr⟩

/-- Members mean something when all of them can be passed over. -/
theorem exists_means_iff {ms : List (Quotation × Sketch)} :
    (∃ js, List.Forall₂ MemberMeans ms js) ↔ NamesRead (Passes .buffered) [] [] ms := by
  have h := @exists_means_recordOf [] ms ()
  constructor
  · rintro ⟨js, hjs⟩
    exact (h.mp ⟨js, hjs, trivial⟩).1
  · intro hpassed
    obtain ⟨js, hjs, -⟩ := h.mpr ⟨hpassed, trivial⟩
    exact ⟨js, hjs⟩

/-! ## Records -/

/-- A record: its fields, and what their values make. -/
structure Composed (α : Type) where
  fields : Fields
  build : Values Shape.Value fields → α

/-- The record of this shape. -/
def Shape.record? : (s : Shape) → Option (Composed s.Value)
  | .span => some ⟨spanFields, buildSpan⟩
  | .node => some ⟨nodeFields, buildNode⟩
  | .optionalNode => some ⟨nodeFields, some ∘ buildNode⟩
  | .invocation => some ⟨invocationFields, buildInvocation⟩
  | _ => none

/-- Whether an array or object of this shape is looked into. -/
def Mode.opens : Mode → Shape → Bool
  | .buffered, _ => true
  | .streamed, s => s ∈ [.span, .node, .nodes, .kind]

section

variable {α : Type} {R : Json → Except Mismatch α} {fs : Fields}
  {build : Values Shape.Value fs → α} {fault : Option Fault} {x : α}

theorem exists_means_object {ms : List (Quotation × Sketch)}
    (hnames : (fs.map Field.name).Nodup)
    (hR : ∀ js, R (.object js) = build <$> ofMembers id read fs js) :
    (∃ j, (Sketch.object ms fault).Means j ∧ R j = .ok x) ↔
      fault = none ∧ ∃ xs, ReadsMembers .buffered [] fs ms xs ∧ build xs = x := by
  constructor
  · rintro ⟨j, hj, h⟩
    obtain ⟨rfl, js, rfl, hjs⟩ := means_object.mp hj
    obtain ⟨xs, hxs, hx⟩ := map_eq_ok.mp ((hR js).symm.trans h)
    exact ⟨rfl, xs, exists_means_recordOf.mp ⟨js, hjs, (ofMembers_eq_ok hnames).mp hxs⟩, hx⟩
  · rintro ⟨rfl, xs, hxs, hx⟩
    obtain ⟨js, hjs, hrecord⟩ := exists_means_recordOf.mpr hxs
    exact ⟨.object js, means_object.mpr ⟨rfl, js, rfl, hjs⟩,
      (hR js).trans (map_eq_ok.mpr ⟨xs, (ofMembers_eq_ok hnames).mpr hrecord, hx⟩)⟩

theorem exists_means_array {label : String} {vs : List Sketch}
    (hR : ∀ js, R (.array js) = build <$> readItems label 0 fs js) :
    (∃ j, (Sketch.array vs fault).Means j ∧ R j = .ok x) ↔
      fault = none ∧ ∃ xs, ItemsOf (Reads .buffered) fs vs xs ∧ build xs = x := by
  constructor
  · rintro ⟨j, hj, h⟩
    obtain ⟨rfl, js, rfl, hjs⟩ := means_array.mp hj
    obtain ⟨xs, hxs, hx⟩ := map_eq_ok.mp ((hR js).symm.trans h)
    exact ⟨rfl, xs, exists_means_itemsOf.mp ⟨js, hjs, readItems_eq_ok.mp hxs⟩, hx⟩
  · rintro ⟨rfl, xs, hxs, hx⟩
    obtain ⟨js, hjs, hitems⟩ := exists_means_itemsOf.mpr hxs
    exact ⟨.array js, means_array.mpr ⟨rfl, js, rfl, hjs⟩,
      (hR js).trans (map_eq_ok.mpr ⟨xs, readItems_eq_ok.mpr hitems, hx⟩)⟩

/-- What is made of a streamed record. -/
theorem exists_map_eq_ok {ε β : Type} {f : Nat → Except ε α} {build : α → β} {y : β} {P : α → Prop}
    {q : Prop} (h : ∀ a, (∃ n, f n = .ok a) ↔ q ∧ P a) :
    (∃ n, build <$> f n = .ok y) ↔ q ∧ ∃ a, P a ∧ build a = y := by
  constructor
  · rintro ⟨n, hn⟩
    obtain ⟨a, ha, rfl⟩ := map_eq_ok.mp hn
    obtain ⟨hq, hP⟩ := (h a).mp ⟨n, ha⟩
    exact ⟨hq, a, hP, rfl⟩
  · rintro ⟨hq, a, hP, rfl⟩
    obtain ⟨n, hn⟩ := (h a).mpr ⟨hq, hP⟩
    exact ⟨n, map_eq_ok.mpr ⟨a, hn, rfl⟩⟩

end

section

variable {s : Shape} {c : Composed s.Value} (h : s.record? = some c)

include h

theorem Composed.nodup : (c.fields.map Field.name).Nodup := by
  cases s with
  | span => exact Option.some.inj h ▸ nodup_spanFields
  | node | optionalNode => exact Option.some.inj h ▸ nodup_nodeFields
  | invocation => exact Option.some.inj h ▸ nodup_invocationFields
  | _ => exact nomatch h

theorem read_record_object (js : List (String × Json)) :
    read s (.object js) = c.build <$> ofMembers id read c.fields js := by
  cases s with
  | span => exact Option.some.inj h ▸ read_span_object js
  | node => exact Option.some.inj h ▸ read_node_object js
  | optionalNode => exact Option.some.inj h ▸ read_optionalNode_object js
  | invocation => exact Option.some.inj h ▸ read_invocation_object js
  | _ => exact nomatch h

theorem read_record_array (js : List Json) :
    read s (.array js) = c.build <$> readItems s.label 0 c.fields js := by
  cases s with
  | span | node | optionalNode | invocation => exact Option.some.inj h ▸ rfl
  | _ => exact nomatch h

/-- Of the records only spans and nodes are streamed. -/
theorem streamPart_record (hopens : Mode.streamed.opens s = true) : ∃ readAt : Stream,
    (∀ f ∈ c.fields, ∀ n v, readAt n f.shape v = streamPart n f.shape v) ∧
      ∀ n v, streamPart n s v = c.build <$> streamRecord readAt s.label c.fields n v := by
  cases s with
  | span =>
      obtain rfl := Option.some.inj h
      exact ⟨streamInSpan, streamInSpan_eq_streamPart, fun _ _ => rfl⟩
  | node =>
      obtain rfl := Option.some.inj h
      exact ⟨streamInNode, streamInNode_eq_streamPart, fun _ _ => rfl⟩
  | optionalNode | invocation => exact nomatch hopens
  | _ => exact nomatch h

end

theorem streamPart_of_not_opens {s : Shape} (h : Mode.streamed.opens s = false) (n : Nat)
    (v : Sketch) : streamPart n s v = streamLeaf s v := by
  cases s with
  | span | node | nodes | kind => exact nomatch h
  | _ => rfl

/-- Of the others no array or object is looked into. -/
theorem not_reads_of_not_opens {mode : Mode} {s : Shape} (h : mode.opens s = false) {x : s.Value} :
    (∀ vs fault, ¬ Reads mode s (.array vs fault) x) ∧
      ∀ ms fault, ¬ Reads mode s (.object ms fault) x := by
  cases mode with
  | buffered => exact nomatch h
  | streamed =>
      simp only [Reads, streamPart_of_not_opens h, streamLeaf.eq_def]
      constructor
      · rintro vs fault ⟨-, hx⟩
        exact streamWrongType_ne_ok hx
      · rintro ms fault ⟨-, hx⟩
        exact streamWrongType_ne_ok hx

/-- **A record given as an object** has the values of its fields in whatever order. -/
theorem reads_record_object {mode : Mode} {s : Shape} {c : Composed s.Value}
    (h : s.record? = some c) {ms : List (Quotation × Sketch)} {fault : Option Fault}
    {x : s.Value} :
    Reads mode s (.object ms fault) x ↔ mode.opens s = true ∧ fault = none ∧
      ∃ xs, ReadsMembers mode [] c.fields ms xs ∧ c.build xs = x := by
  cases hopens : mode.opens s with
  | false =>
      refine ⟨fun hx => absurd hx ((not_reads_of_not_opens hopens).2 ms fault), ?_⟩
      rintro ⟨hfalse, -⟩
      cases hfalse
  | true =>
      rw [eq_self, true_and]
      cases mode with
      | streamed =>
          obtain ⟨readAt, hread, hpart⟩ := streamPart_record h hopens
          simp only [Reads, hpart]
          exact exists_map_eq_ok fun xs => exists_streamRecord_object (Composed.nodup h) hread
      | buffered => exact exists_means_object (Composed.nodup h) (read_record_object h)

/-- **A record given as an array** has the values of its fields in order. -/
theorem reads_record_array {mode : Mode} {s : Shape} {c : Composed s.Value}
    (h : s.record? = some c) {vs : List Sketch} {fault : Option Fault} {x : s.Value} :
    Reads mode s (.array vs fault) x ↔ mode.opens s = true ∧ fault = none ∧
      ∃ xs, ItemsOf (Reads mode) c.fields vs xs ∧ c.build xs = x := by
  cases hopens : mode.opens s with
  | false =>
      refine ⟨fun hx => absurd hx ((not_reads_of_not_opens hopens).1 vs fault), ?_⟩
      rintro ⟨hfalse, -⟩
      cases hfalse
  | true =>
      rw [eq_self, true_and]
      cases mode with
      | streamed =>
          obtain ⟨readAt, hread, hpart⟩ := streamPart_record h hopens
          simp only [Reads, hpart]
          exact exists_map_eq_ok fun xs => exists_streamRecord_array hread
      | buffered => exact exists_means_array (read_record_array h)

/-! ## Lists of nodes -/

theorem readNodes_eq_ok {js : List Json} {ns : List Node} :
    readNodes js = .ok ns ↔ List.Forall₂ (fun j (n : Node) => read .node j = .ok n) js ns := by
  induction js generalizing ns with
  | nil =>
      rw [List.forall₂_nil_left_iff]
      exact ⟨fun h => (Except.ok.inj h).symm, fun h => h ▸ rfl⟩
  | cons j js ih =>
      rw [List.forall₂_cons_left_iff]
      constructor
      · intro h
        obtain ⟨n, hn, h⟩ := bind_eq_ok.mp h
        obtain ⟨ns', hns, h⟩ := bind_eq_ok.mp h
        exact ⟨n, ns', hn, ih.mp hns, (Except.ok.inj h).symm⟩
      · rintro ⟨n, ns', hn, hns, rfl⟩
        exact bind_eq_ok.mpr ⟨n, hn, bind_eq_ok.mpr ⟨ns', ih.mpr hns, rfl⟩⟩

/-- Nodes are read from what their sketches mean. -/
theorem exists_means_nodes {vs : List Sketch} {ns : List Node} :
    (∃ js, List.Forall₂ Sketch.Means vs js ∧
        List.Forall₂ (fun j (n : Node) => read .node j = .ok n) js ns) ↔
      List.Forall₂ (fun v (n : Node) => Reads .buffered .node v n) vs ns := by
  induction vs generalizing ns with
  | nil =>
      constructor
      · rintro ⟨js, hjs, hns⟩
        obtain rfl := List.forall₂_nil_left_iff.mp hjs
        obtain rfl := List.forall₂_nil_left_iff.mp hns
        exact .nil
      · intro h
        obtain rfl := List.forall₂_nil_left_iff.mp h
        exact ⟨[], .nil, .nil⟩
  | cons v vs ih =>
      constructor
      · rintro ⟨js, hjs, hns⟩
        obtain ⟨j, js', hj, hjs', rfl⟩ := List.forall₂_cons_left_iff.mp hjs
        obtain ⟨n, ns', hn, hns', rfl⟩ := List.forall₂_cons_left_iff.mp hns
        exact .cons ⟨j, hj, hn⟩ (ih.mp ⟨js', hjs', hns'⟩)
      · intro h
        obtain ⟨n, ns', ⟨j, hj, hn⟩, hns, rfl⟩ := List.forall₂_cons_left_iff.mp h
        obtain ⟨js, hjs, hns⟩ := ih.mpr hns
        exact ⟨j :: js, .cons hj hjs, .cons hn hns⟩

/-- **A list of nodes** is read node by node. -/
theorem reads_nodes_array {mode : Mode} {vs : List Sketch} {fault : Option Fault}
    {ns : List Node} :
    Reads mode .nodes (.array vs fault) ns ↔
      fault = none ∧ List.Forall₂ (fun v (n : Node) => Reads mode .node v n) vs ns := by
  cases mode with
  | streamed =>
      constructor
      · rintro ⟨n, h⟩
        obtain ⟨vs', k, hvs, -, hns⟩ := streamPart_nodes_eq_ok.mp h
        obtain ⟨rfl, rfl⟩ := Sketch.array.inj hvs
        exact ⟨rfl, hns.imp fun v x hx => ⟨k, hx⟩⟩
      · rintro ⟨rfl, hns⟩
        refine ⟨_, streamPart_nodes_eq_ok.mpr ⟨vs, Sketch.itemsDepth vs, rfl, rfl, ?_⟩⟩
        have hdepths : ∀ v ∈ vs, v.depth ≤ Sketch.itemsDepth vs := fun v => depth_le_itemsDepth
        refine ((List.forall₂_and_left vs ns).mpr ⟨hdepths, hns⟩).imp fun v x hx => ?_
        obtain ⟨hdepth, n, hx⟩ := hx
        exact streamPart_of_depth_le hx hdepth
  | buffered =>
      constructor
      · rintro ⟨j, hj, h⟩
        obtain ⟨rfl, js, rfl, hjs⟩ := means_array.mp hj
        exact ⟨rfl, exists_means_nodes.mp ⟨js, hjs, readNodes_eq_ok.mp h⟩⟩
      · rintro ⟨rfl, hns⟩
        obtain ⟨js, hjs, h⟩ := exists_means_nodes.mpr hns
        exact ⟨.array js, means_array.mpr ⟨rfl, js, rfl, hjs⟩, readNodes_eq_ok.mpr h⟩

/-! ## Arrays and objects -/

/-- Spans, nodes, lists of nodes and kinds are given as an array or object. -/
theorem array_or_object_of_reads {mode : Mode} {s : Shape} (hs : Mode.streamed.opens s = true)
    {v : Sketch} {x : s.Value} (h : Reads mode s v x) :
    (∃ vs fault, v = .array vs fault) ∨ ∃ ms fault, v = .object ms fault := by
  cases mode with
  | streamed =>
      obtain ⟨n, h⟩ := h
      cases s with
      | span | node =>
          obtain ⟨xs, hxs, -⟩ := map_eq_ok.mp h
          exact eq_of_streamRecord hxs
      | nodes =>
          obtain ⟨vs, k, rfl, -⟩ := streamPart_nodes_eq_ok.mp h
          exact Or.inl ⟨vs, none, rfl⟩
      | kind => exact eq_of_streamKind h
      | _ => cases hs
  | buffered =>
      obtain ⟨j, hj, h⟩ := h
      cases v with
      | array vs fault => exact Or.inl ⟨vs, fault, rfl⟩
      | object ms fault => exact Or.inr ⟨ms, fault, rfl⟩
      | _ =>
          -- what a leaf means is no array or object, and nothing else is such a part
          have hdepth : j.depth ≤ 0 := depth_le_of_means hj
          cases j with
          | array js | object js => exact absurd hdepth (Nat.not_succ_le_zero _)
          | _ =>
              cases s with
              | span | node | nodes | kind => cases h
              | _ => cases hs

/-! ## Documents -/

/-- A sketch gives this document, however deep it nests. -/
def Loads (v : Sketch) (d : Document) : Prop :=
  ∃ n, build <$> streamRecord streamInDocument (recordLabel "CaskDocument") fields n v = .ok d

/-- **A document given as an object** has the values of its fields in whatever order. -/
theorem loads_object {ms : List (Quotation × Sketch)} {fault : Option Fault} {d : Document} :
    Loads (.object ms fault) d ↔
      fault = none ∧ ∃ xs, ReadsMembers .streamed [] fields ms xs ∧ build xs = d :=
  exists_map_eq_ok fun _ => exists_streamRecord_object nodup_fields streamInDocument_eq_streamPart

/-- **A document given as an array** has the values of its fields in order. -/
theorem loads_array {vs : List Sketch} {fault : Option Fault} {d : Document} :
    Loads (.array vs fault) d ↔
      fault = none ∧ ∃ xs, ItemsOf (Reads .streamed) fields vs xs ∧ build xs = d :=
  exists_map_eq_ok fun _ => exists_streamRecord_array streamInDocument_eq_streamPart

/-- **The limit decides whether a document is loaded, and nothing else.** -/
theorem ofOutline_of_loads {v : Sketch} {d : Document} (h : Loads v d) (hv : v.depth ≤ maxDepth) :
    ofOutline ⟨v, false⟩ = .ok d := by
  obtain ⟨n, h⟩ := h
  obtain ⟨xs, hxs, hd⟩ := map_eq_ok.mp h
  have hfields : ∀ f ∈ fields, ∀ {n m : Nat} {v : Sketch} {x : f.shape.Value},
      streamInDocument n f.shape v = .ok x → v.depth ≤ m →
        streamInDocument m f.shape v = .ok x := by
    intro f hf n m v x hx hm
    rw [streamInDocument_eq_streamPart f hf] at hx ⊢
    exact streamPart_of_depth_le hx hm
  refine bind_eq_ok.mpr ⟨xs, streamRecord_of_depth_le nodup_fields hfields hxs hv, ?_⟩
  exact congrArg Except.ok hd

theorem loads_of_ofOutline {outline : Outline} {d : Document} (h : ofOutline outline = .ok d) :
    outline.trailing = false ∧ Loads outline.sketch d := by
  obtain ⟨xs, hxs, h⟩ := bind_eq_ok.mp h
  split at h
  · exact nomatch h
  · rename_i htrailing
    exact ⟨eq_false_of_ne_true htrailing, _, map_eq_ok.mpr ⟨xs, hxs, Except.ok.inj h⟩⟩

/-! ## Passing over -/

/-- What is asked of the name of a member in a value that is passed over. -/
def PassesName : Mode → Quotation → Prop
  | .streamed, q => q.fault = none
  | .buffered, q => ∃ name, q.read = .ok name

theorem passesName_of_read {mode : Mode} {q : Quotation} {name : String}
    (h : q.read = .ok name) : PassesName mode q := by
  cases mode with
  | streamed => exact Quotation.fault_eq_none_of_read h
  | buffered => exact ⟨name, h⟩

theorem skipItems_eq_ok {vs : List Sketch} :
    Sketch.skipItems vs = .ok () ↔ ∀ v ∈ vs, v.skip = .ok () := by
  induction vs with
  | nil => exact ⟨fun _ _ h => (nomatch h), fun _ => rfl⟩
  | cons v vs ih =>
      rw [List.forall_mem_cons, ← ih, Sketch.skipItems, bind_eq_ok]
      exact ⟨fun ⟨_, hv, hvs⟩ => ⟨hv, hvs⟩, fun ⟨hv, hvs⟩ => ⟨(), hv, hvs⟩⟩

theorem skipMembers_eq_ok {ms : List (Quotation × Sketch)} :
    Sketch.skipMembers ms = .ok () ↔ ∀ m ∈ ms, m.1.fault = none ∧ m.2.skip = .ok () := by
  induction ms with
  | nil => exact ⟨fun _ _ h => (nomatch h), fun _ => rfl⟩
  | cons m ms ih =>
      obtain ⟨q, v⟩ := m
      rw [List.forall_mem_cons, ← ih, Sketch.skipMembers, bind_eq_ok]
      constructor
      · rintro ⟨_, hname, h⟩
        obtain ⟨_, hv, hms⟩ := bind_eq_ok.mp h
        exact ⟨⟨failOn_eq_ok.mp hname, hv⟩, hms⟩
      · rintro ⟨⟨hname, hv⟩, hms⟩
        exact ⟨(), failOn_eq_ok.mpr hname, bind_eq_ok.mpr ⟨(), hv, hms⟩⟩

/-- An array can be passed over when its items can. -/
theorem passes_array {mode : Mode} {vs : List Sketch} :
    Passes mode (.array vs none) ↔ ∀ v ∈ vs, Passes mode v := by
  cases mode with
  | streamed =>
      show (Sketch.array vs none).skip = _ ↔ _
      rw [Sketch.skip, bind_eq_ok]
      exact ⟨fun ⟨_, h, _⟩ => skipItems_eq_ok.mp h, fun h => ⟨(), skipItems_eq_ok.mpr h, rfl⟩⟩
  | buffered =>
      constructor
      · rintro ⟨j, hj⟩ v hv
        obtain ⟨-, js, -, hjs⟩ := means_array.mp hj
        exact exists_of_forall₂ hjs hv
      · intro h
        obtain ⟨js, hjs⟩ := exists_forall₂_of_forall h
        exact ⟨.array js, means_array.mpr ⟨rfl, js, rfl, hjs⟩⟩

/-- An object can be passed over when its members can. -/
theorem passes_object {mode : Mode} {ms : List (Quotation × Sketch)} :
    Passes mode (.object ms none) ↔ ∀ m ∈ ms, PassesName mode m.1 ∧ Passes mode m.2 := by
  cases mode with
  | streamed =>
      show (Sketch.object ms none).skip = _ ↔ _
      rw [Sketch.skip, bind_eq_ok]
      exact ⟨fun ⟨_, h, _⟩ => skipMembers_eq_ok.mp h, fun h => ⟨(), skipMembers_eq_ok.mpr h, rfl⟩⟩
  | buffered =>
      constructor
      · rintro ⟨j, hj⟩ m hm
        obtain ⟨-, js, -, hjs⟩ := means_object.mp hj
        obtain ⟨name, hname, hpass⟩ := exists_means_iff.mp ⟨js, hjs⟩ m hm
        exact ⟨⟨name, hname⟩, hpass List.not_mem_nil List.not_mem_nil⟩
      · intro h
        obtain ⟨js, hjs⟩ := exists_means_iff.mpr fun m hm => by
          obtain ⟨⟨name, hname⟩, hpass⟩ := h m hm
          exact ⟨name, hname, fun _ _ => hpass⟩
        exact ⟨.object js, means_object.mpr ⟨rfl, js, rfl, hjs⟩⟩

end CaskLint.Document
