import CaskLint.Proofs.Document.Arrangement

/-!
# Nodes that are streamed and nodes that are buffered

  The statements of a document are streamed, and all nodes below them are buffered. Of a value
  that is well formed the two ways give the same node: what they do with members that nobody knows
  does not matter then, and a span is read alike (**`reads_span_iff`**). There is one difference
  between them. A type that is buffered may be a word or a position in the list of types, and one
  that is streamed must be a word (**`tags_streamed_iff`**). So a node is streamed as it is
  buffered, unless it gives its type as a number (**`reads_node_streamed_iff`**).
-/

namespace CaskLint.Document

open Record Json

/-! ## What a node gives its fields -/

/-- The field of a node that holds its kind. -/
def kindField : Field Shape.Value := ⟨"kind", .kind, none⟩

/-- The field of a node that holds its span. -/
def spanField : Field Shape.Value := ⟨"span", .span, some Span.dummy⟩

/-- What a record gives a field: the values under its name, or the item at its position. -/
def givenTo (i : Nat) (name : String) : Sketch → List Sketch
  | .array vs _ => vs[i]?.toList
  | .object ms _ => valuesAt ms name
  | _ => []

/-- The node that a sketch spells gives its type as a number. -/
def TypedByNumber (v : Sketch) : Prop :=
  ∃ k ∈ givenTo 0 "kind" v, ∃ t ∈ givenTo 0 "type" k, ∃ n, t = .number n

theorem mem_of_mem_givenTo {i : Nat} {name : String} {v w : Sketch} (h : w ∈ givenTo i name v) :
    (∃ vs fault, v = .array vs fault ∧ w ∈ vs) ∨
      ∃ ms fault q, v = .object ms fault ∧ (q, w) ∈ ms := by
  cases v with
  | array vs fault => exact Or.inl ⟨vs, fault, rfl, List.mem_of_getElem? (Option.mem_toList.mp h)⟩
  | object ms fault =>
      obtain ⟨q, hq, -⟩ := mem_of_mem_valuesAt h
      exact Or.inr ⟨ms, fault, q, rfl, hq⟩
  | _ => exact nomatch h

/-- What a sound record gives its fields is sound. -/
theorem sound_of_mem_givenTo {i : Nat} {name : String} {v w : Sketch} (hv : v.sound = true)
    (h : w ∈ givenTo i name v) : w.sound = true := by
  rcases mem_of_mem_givenTo h with ⟨vs, fault, rfl, hw⟩ | ⟨ms, fault, q, rfl, hw⟩
  · exact (Sketch.sound_array.mp hv).2 w hw
  · exact ((Sketch.sound_object.mp hv).2 _ hw).2

theorem namesRead_of_sound {mode : Mode} {ms : List (Quotation × Sketch)}
    (h : ∀ m ∈ ms, m.1.sound = true ∧ m.2.sound = true) (words : List String) (fs : Fields) :
    NamesRead (Passes mode) words fs ms := by
  intro m hm
  obtain ⟨hname, hvalue⟩ := h m hm
  obtain ⟨name, hread⟩ := Quotation.sound_iff.mp hname
  exact ⟨name, hread, fun _ _ => passes_of_sound hvalue⟩

/-- The first item of an array is what it gives the first field. -/
theorem itemsOf_cons {mode : Mode} {f : Field Shape.Value} {fs : Fields} {vs : List Sketch}
    {x : f.shape.Value} {xs : Values Shape.Value fs} :
    ItemsOf (Reads mode) (f :: fs) vs (x, xs) ↔
      FieldOf (Reads mode) f vs.head?.toList x ∧ ItemsOf (Reads mode) fs vs.tail xs := by
  cases vs with
  | nil => exact and_congr_left fun _ => fieldOf_nil.symm
  | cons v vs => exact and_congr_left fun _ => fieldOf_singleton.symm

/-- **A sound node is read from what it gives its two fields**, and from nothing else. -/
theorem reads_node_iff {mode : Mode} {v : Sketch} (hv : v.sound = true) {x : Node} :
    Reads mode .node v x ↔
      FieldOf (Reads mode) kindField (givenTo 0 "kind" v) x.kind ∧
        FieldOf (Reads mode) spanField (givenTo 1 "span" v) x.span ∧
          ∀ vs fault, v = .array vs fault → vs.length ≤ 2 := by
  have hrecord : Shape.record? .node = some ⟨nodeFields, buildNode⟩ := rfl
  have hopens : mode.opens .node = true := by cases mode <;> rfl
  constructor
  · intro h
    rcases array_or_object_of_reads rfl h with ⟨vs, fault, rfl⟩ | ⟨ms, fault, rfl⟩
    · obtain ⟨-, -, ⟨k, span, rest⟩, hxs, rfl⟩ := (reads_record_array hrecord).mp h
      have hlength := hxs.length_le
      obtain ⟨hkind, hxs⟩ := itemsOf_cons.mp hxs
      obtain ⟨hspan, -⟩ := itemsOf_cons.mp hxs
      rw [List.head?_eq_getElem?] at hkind hspan
      rw [List.getElem?_tail] at hspan
      refine ⟨hkind, hspan, ?_⟩
      rintro vs' fault' heq
      obtain ⟨rfl, -⟩ := Sketch.array.inj heq
      exact hlength
    · obtain ⟨-, -, ⟨k, span, rest⟩, ⟨-, hkind, hspan, -⟩, rfl⟩ :=
        (reads_record_object hrecord).mp h
      exact ⟨hkind, hspan, fun vs fault' heq => nomatch heq⟩
  · rintro ⟨hkind, hspan, hlength⟩
    obtain ⟨k, span⟩ := x
    cases v with
    | array vs fault =>
        obtain ⟨rfl, -⟩ := Sketch.sound_array.mp hv
        refine (reads_record_array hrecord).mpr ⟨hopens, rfl, (k, span, ()), ?_, rfl⟩
        refine itemsOf_cons.mpr ⟨?_, itemsOf_cons.mpr ⟨?_, ?_⟩⟩
        · rw [List.head?_eq_getElem?]
          exact hkind
        · rw [List.head?_eq_getElem?, List.getElem?_tail]
          exact hspan
        · have hlength := hlength vs none rfl
          have hrest : vs.tail.tail.length = 0 := by
            rw [List.length_tail, List.length_tail]
            omega
          exact List.eq_nil_of_length_eq_zero hrest
    | object ms fault =>
        obtain ⟨rfl, hms⟩ := Sketch.sound_object.mp hv
        exact (reads_record_object hrecord).mpr ⟨hopens, rfl, (k, span, ()),
          ⟨namesRead_of_sound hms [] nodeFields, hkind, hspan, trivial⟩, rfl⟩
    | _ =>
        -- nothing is given to the kind, which has no default
        rcases hkind with ⟨k, hk, -⟩ | ⟨-, hnone⟩
        · exact nomatch hk
        · exact nomatch hnone

/-! ## Types -/

/-- **A type that is streamed is one that is buffered, and is no number.** -/
theorem tags_streamed_iff {t : Sketch} {name : KindName} :
    Tags .streamed t name ↔ Tags .buffered t name ∧ ∀ n, t ≠ .number n := by
  constructor
  · intro h
    refine ⟨h.buffered, ?_⟩
    rintro n rfl
    obtain ⟨q, word, hq, -⟩ := streamTag_eq_ok.mp h
    exact nomatch hq
  · rintro ⟨⟨j, hj, hname⟩, hnumber⟩
    cases t with
    | text q =>
        obtain ⟨word, hword, rfl⟩ := map_eq_ok.mp hj
        exact streamTag_eq_ok.mpr ⟨q, word, rfl, hword, hname⟩
    | number n => exact absurd rfl (hnumber n)
    | array vs fault =>
        obtain ⟨-, js, rfl, -⟩ := means_array.mp hj
        cases hname
    | object ms fault =>
        obtain ⟨-, js, rfl, -⟩ := means_object.mp hj
        cases hname
    | broken f | brokenNumber f => cases hj
    | null | flag b =>
        obtain rfl := Except.ok.inj hj
        cases hname

/-- A kind is streamed as it is buffered, unless its type is a number. -/
theorem reads_kind_streamed_iff {v : Sketch} {k : Kind} :
    Reads .streamed .kind v k ↔
      Reads .buffered .kind v k ∧ ∀ t ∈ givenTo 0 "type" v, ∀ n, t ≠ .number n := by
  constructor
  · intro h
    refine ⟨h.kind_buffered, fun t ht => ?_⟩
    rcases array_or_object_of_reads rfl h with ⟨vs, fault, rfl⟩ | ⟨ms, fault, rfl⟩
    · obtain ⟨-, t', rest, name, xs, rfl, hname, -⟩ := reads_kind_array.mp h
      obtain rfl := List.mem_singleton.mp ht
      exact (tags_streamed_iff.mp hname).2
    · obtain ⟨-, t', name, xs, htype, hname, -⟩ := reads_kind_object.mp h
      have ht : t ∈ valuesAt ms "type" := ht
      rw [htype, List.mem_singleton] at ht
      exact ht ▸ (tags_streamed_iff.mp hname).2
  · rintro ⟨h, hnumber⟩
    rcases array_or_object_of_reads rfl h with ⟨vs, fault, rfl⟩ | ⟨ms, fault, rfl⟩
    · obtain ⟨hfault, t, rest, name, xs, rfl, hname, hxs⟩ := reads_kind_array.mp h
      have ht := hnumber t (List.mem_singleton_self t)
      exact reads_kind_array.mpr
        ⟨hfault, t, rest, name, xs, rfl, tags_streamed_iff.mpr ⟨hname, ht⟩, hxs⟩
    · obtain ⟨hfault, t, name, xs, htype, hname, hxs⟩ := reads_kind_object.mp h
      have ht : ∀ n, t ≠ .number n := by
        refine hnumber t ?_
        show t ∈ valuesAt ms "type"
        rw [htype]
        exact List.mem_singleton_self t
      exact reads_kind_object.mpr
        ⟨hfault, t, name, xs, htype, tags_streamed_iff.mpr ⟨hname, ht⟩, hxs⟩

/-! ## Spans -/

theorem reads_offset_buffered {v : Sketch} {x : UInt32} (h : Reads .streamed .offset v x) :
    Reads .buffered .offset v x := by
  cases v with
  | array vs fault => exact absurd h ((not_reads_of_not_opens rfl).1 vs fault)
  | object ms fault => exact absurd h ((not_reads_of_not_opens rfl).2 ms fault)
  | _ =>
      obtain ⟨n, h⟩ := h
      obtain ⟨j, hj, h⟩ := bind_eq_ok.mp h
      exact ⟨j, orFault_eq_ok.mp hj, orMismatch_eq_ok.mp h⟩

/-- **A sound span is streamed as it is buffered.** -/
theorem reads_span_iff {v : Sketch} (hv : v.sound = true) {x : Span} :
    Reads .streamed .span v x ↔ Reads .buffered .span v x := by
  constructor
  · intro h
    refine h.span_of (fun v x => reads_offset_buffered) fun ms fault hms _ => ?_
    rw [hms] at hv
    exact namesRead_of_sound (Sketch.sound_object.mp hv).2 [] spanFields
  · exact reads_span_streamed

/-! ## Nodes -/

/-- **A sound node is streamed as it is buffered**, unless it gives its type as a number. -/
theorem reads_node_streamed_iff {v : Sketch} (hv : v.sound = true) {x : Node} :
    Reads .streamed .node v x ↔ Reads .buffered .node v x ∧ ¬ TypedByNumber v := by
  rw [reads_node_iff hv, reads_node_iff hv, and_right_comm]
  have hspan : FieldOf (Reads .streamed) spanField (givenTo 1 "span" v) x.span ↔
      FieldOf (Reads .buffered) spanField (givenTo 1 "span" v) x.span :=
    ⟨FieldOf.imp fun w hw => (reads_span_iff (sound_of_mem_givenTo hv hw)).mp,
      FieldOf.imp fun w hw => (reads_span_iff (sound_of_mem_givenTo hv hw)).mpr⟩
  refine and_congr ?_ (and_congr_left fun _ => hspan)
  constructor
  · rintro (⟨k, hk, h⟩ | ⟨-, hnone⟩)
    · obtain ⟨h, hnumber⟩ := reads_kind_streamed_iff.mp h
      refine ⟨Or.inl ⟨k, hk, h⟩, ?_⟩
      rintro ⟨k', hk', t, ht, n, rfl⟩
      rw [hk, List.mem_singleton] at hk'
      exact hnumber _ (hk' ▸ ht) n rfl
    · exact nomatch hnone
  · rintro ⟨⟨k, hk, h⟩ | ⟨-, hnone⟩, hword⟩
    · refine Or.inl ⟨k, hk, reads_kind_streamed_iff.mpr ⟨h, fun t ht n hn => hword ?_⟩⟩
      exact ⟨k, hk ▸ List.mem_singleton_self k, t, ht, n, hn⟩
    · exact nomatch hnone

/-! ## Nodes that may be left out -/

theorem read_optionalNode_eq {j : Json} (hj : j ≠ .null) :
    read .optionalNode j = some <$> read .node j := by
  cases j with
  | null => exact absurd rfl hj
  | array js =>
      show (some ∘ buildNode) <$> readItems Shape.node.label 0 nodeFields js =
        some <$> buildNode <$> readItems Shape.node.label 0 nodeFields js
      cases readItems Shape.node.label 0 nodeFields js <;> rfl
  | object js =>
      rw [read_optionalNode_object, read_node_object]
      cases ofMembers id read nodeFields js <;> rfl
  | _ => rfl

/-- Besides `null`, only nodes are read where a node may be left out. -/
theorem reads_optionalNode_iff {v : Sketch} (hv : v ≠ .null) {o : Option Node} :
    Reads .buffered .optionalNode v o ↔ ∃ x, Reads .buffered .node v x ∧ o = some x := by
  have hnull : ∀ {j}, v.Means j → j ≠ .null := by
    rintro j hj rfl
    exact hv (eq_null_of_means hj)
  constructor
  · rintro ⟨j, hj, h⟩
    rw [read_optionalNode_eq (hnull hj)] at h
    obtain ⟨x, hx, rfl⟩ := map_eq_ok.mp h
    exact ⟨x, ⟨j, hj, hx⟩, rfl⟩
  · rintro ⟨x, ⟨j, hj, hx⟩, rfl⟩
    refine ⟨j, hj, ?_⟩
    rw [read_optionalNode_eq (hnull hj)]
    exact map_eq_ok.mpr ⟨x, hx, rfl⟩

end CaskLint.Document
