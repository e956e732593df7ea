import CaskLint.Proofs.Document.Parts

/-!
# Parts whose type is one of their members

  A kind of node and a literal have members that say how the others are read. These may stand
  anywhere (**`reads_kind_object`**, **`reads_literal_object`**), or come first in an array
  (`reads_kind_array`). The type of a kind is looked at while its other members are buffered, so it
  may be streamed although they are not (**`Tags`**).
-/

namespace CaskLint.Document

open Record Json

/-! ## Kinds of node -/

/-- The type of a node is given as this one. -/
def Tags : Mode → Sketch → KindName → Prop
  | .streamed, t, name => streamTag t = .ok name
  | .buffered, t, name => ∃ j, t.Means j ∧ kinds.ofJson j = .ok name

/-- A type that is streamed is a word, so it can be buffered as well. -/
theorem Tags.buffered {mode : Mode} {t : Sketch} {name : KindName} (h : Tags mode t name) :
    Tags .buffered t name := by
  cases mode with
  | buffered => exact h
  | streamed =>
      obtain ⟨q, word, rfl, hword, h⟩ := streamTag_eq_ok.mp h
      exact ⟨.text word, map_eq_ok.mpr ⟨word, hword, rfl⟩, h⟩

theorem NamesRead.of_words {passes : Sketch → Prop} {words : List String} {fs : Fields}
    {ms : List (Quotation × Sketch)} (h : NamesRead passes words fs ms)
    (hwords : ∀ word ∈ words, ∀ v ∈ valuesAt ms word, passes v) :
    NamesRead passes [] fs ms := by
  intro m hm
  obtain ⟨name, hname, hpass⟩ := h m hm
  refine ⟨name, hname, fun _ hfield => ?_⟩
  by_cases hword : name ∈ words
  · exact hwords name hword m.2 (mem_valuesAt hm hname)
  · exact hpass hword hfield

theorem NamesRead.to_words {passes : Sketch → Prop} {words : List String} {fs : Fields}
    {ms : List (Quotation × Sketch)} (h : NamesRead passes [] fs ms) :
    NamesRead passes words fs ms := by
  intro m hm
  obtain ⟨name, hname, hpass⟩ := h m hm
  exact ⟨name, hname, fun _ => hpass List.not_mem_nil⟩

theorem valuesAt_untyped {name : String} (h : name ≠ "type") (ms : List (Quotation × Sketch)) :
    valuesAt (untyped ms) name = valuesAt ms name := by
  induction ms with
  | nil => rfl
  | cons m ms ih =>
      obtain ⟨q, v⟩ := m
      by_cases htype : q.read = .ok "type"
      · have hne : q.read ≠ .ok name := by
          rw [htype]
          exact fun heq => h (Except.ok.inj heq).symm
        rw [untyped_cons_of_eq htype, valuesAt_cons_of_ne hne, ih]
      · rw [untyped_cons_of_ne htype]
        by_cases hname : q.read = .ok name
        · rw [valuesAt_cons_of_eq hname, valuesAt_cons_of_eq hname, ih]
        · rw [valuesAt_cons_of_ne hname, valuesAt_cons_of_ne hname, ih]

theorem namesRead_untyped {passes : Sketch → Prop} {fs : Fields}
    {ms : List (Quotation × Sketch)} :
    NamesRead passes [] fs (untyped ms) ↔ NamesRead passes ["type"] fs ms := by
  induction ms with
  | nil => exact ⟨fun _ _ h => (nomatch h), fun _ _ h => (nomatch h)⟩
  | cons m ms ih =>
      obtain ⟨q, v⟩ := m
      rw [namesRead_cons, ← ih]
      by_cases htype : q.read = .ok "type"
      · rw [untyped_cons_of_eq htype]
        refine (and_iff_right ?_).symm
        exact ⟨"type", htype, fun h => absurd (List.mem_singleton_self "type") h⟩
      · rw [untyped_cons_of_ne htype, namesRead_cons]
        refine and_congr_left fun _ => exists_congr fun name => and_congr_right fun hname => ?_
        have hne : name ∉ ["type"] := by
          rw [List.mem_singleton]
          rintro rfl
          exact htype hname
        exact ⟨fun h _ => h List.not_mem_nil, fun h _ => h hne⟩

/-- Without its type, the members of a kind of node are those of a record. -/
theorem readsMembers_untyped {mode : Mode} {name : KindName} {ms : List (Quotation × Sketch)}
    {xs : Values Shape.Value (kindFields name)} :
    ReadsMembers mode [] (kindFields name) (untyped ms) xs ↔
      ReadsMembers mode ["type"] (kindFields name) ms xs := by
  refine and_congr namesRead_untyped ?_
  have hvalues : ∀ f ∈ kindFields name, valuesAt (untyped ms) f.name = valuesAt ms f.name :=
    fun f hf => valuesAt_untyped (type_not_mem_kindFields name f hf) ms
  constructor
  · exact fun h => h.imp fun f hf x hx => hvalues f hf ▸ hx
  · exact fun h => h.imp fun f hf x hx => (hvalues f hf).symm ▸ hx

theorem tagOf_some_eq_ok {js : List (String × Json)} {name name' : KindName} :
    tagOf (some name) js = .ok name' ↔ given js "type" = [] ∧ name' = name := by
  induction js with
  | nil =>
      constructor
      · intro h
        exact ⟨rfl, (Except.ok.inj h).symm⟩
      · rintro ⟨-, rfl⟩
        rfl
  | cons m js ih =>
      obtain ⟨member, j⟩ := m
      rw [tagOf]
      by_cases htype : member = "type"
      · subst htype
        rw [if_pos rfl, given_cons_of_eq]
        constructor
        · intro h
          cases h
        · rintro ⟨h, -⟩
          cases h
      · rw [if_neg htype, given_cons_of_ne htype]
        exact ih

/-- The type may stand anywhere among the values of the members. -/
theorem tagOf_none_eq_ok {js : List (String × Json)} {name : KindName} :
    tagOf none js = .ok name ↔ ∃ t, given js "type" = [t] ∧ kinds.ofJson t = .ok name := by
  induction js with
  | nil =>
      constructor
      · intro h
        exact nomatch h
      · rintro ⟨t, h, -⟩
        exact nomatch h
  | cons m js ih =>
      obtain ⟨member, j⟩ := m
      rw [tagOf]
      by_cases htype : member = "type"
      · subst htype
        rw [if_pos rfl, given_cons_of_eq]
        constructor
        · intro h
          obtain ⟨name', hname, h⟩ := bind_eq_ok.mp h
          obtain ⟨hnone, rfl⟩ := tagOf_some_eq_ok.mp h
          exact ⟨j, by rw [hnone], hname⟩
        · rintro ⟨t, ht, hname⟩
          obtain ⟨rfl, hnone⟩ := List.cons.inj ht
          exact bind_eq_ok.mpr ⟨name, hname, tagOf_some_eq_ok.mpr ⟨hnone, rfl⟩⟩
      · rw [if_neg htype, given_cons_of_ne htype]
        exact ih

section

variable {k : Kind} {fault : Option Fault}

theorem reads_streamed_kind_object {ms : List (Quotation × Sketch)} :
    Reads .streamed .kind (.object ms fault) k ↔ fault = none ∧ ∃ t name xs,
      valuesAt ms "type" = [t] ∧ Tags .streamed t name ∧
        ReadsMembers .buffered ["type"] (kindFields name) ms xs ∧ buildKind name xs = k := by
  constructor
  · rintro ⟨n, h⟩
    obtain ⟨rfl, n, -, t, name, values, xs, ht, hname, hvalues, hxs, hk⟩ :=
      streamKind_object_eq_ok.mp h
    have hmeans := (forall₂_memberValue_iff.mp (memberValues_eq_ok.mp hvalues)).2
    have hrecord := (ofMembers_eq_ok (nodup_kindFields name)).mp hxs
    exact ⟨rfl, t, name, xs, ht, hname,
      readsMembers_untyped.mp (exists_means_recordOf.mp ⟨values, hmeans, hrecord⟩), hk⟩
  · rintro ⟨rfl, t, name, xs, ht, hname, hxs, hk⟩
    obtain ⟨values, hmeans, hrecord⟩ := exists_means_recordOf.mpr (readsMembers_untyped.mpr hxs)
    have hvalues := memberValues_eq_ok.mpr (forall₂_memberValue_iff.mpr ⟨Nat.le_refl _, hmeans⟩)
    exact ⟨_, streamKind_object_eq_ok.mpr ⟨rfl, _, rfl, t, name, values, xs, ht, hname, hvalues,
      (ofMembers_eq_ok (nodup_kindFields name)).mpr hrecord, hk⟩⟩

theorem reads_buffered_kind_object {ms : List (Quotation × Sketch)} :
    Reads .buffered .kind (.object ms fault) k ↔ fault = none ∧ ∃ t name xs,
      valuesAt ms "type" = [t] ∧ Tags .buffered t name ∧
        ReadsMembers .buffered ["type"] (kindFields name) ms xs ∧ buildKind name xs = k := by
  constructor
  · rintro ⟨j, hj, h⟩
    obtain ⟨rfl, js, rfl, hjs⟩ := means_object.mp hj
    rw [read_kind_object] at h
    obtain ⟨name, hname, h⟩ := bind_eq_ok.mp h
    obtain ⟨xs, hxs, hk⟩ := map_eq_ok.mp h
    obtain ⟨j, hj, hname⟩ := tagOf_none_eq_ok.mp hname
    -- under the name of the type there is one sketch, which means that type
    have htypes := forall₂_given hjs "type"
    rw [hj] at htypes
    obtain ⟨t, htype, ht⟩ := exists_eq_singleton_of_means htypes
    have hrecord := (ofMembers_eq_ok (nodup_kindFields name)).mp hxs
    obtain ⟨hpassed, hvalues⟩ := exists_means_recordOf.mp ⟨js, hjs, hrecord⟩
    exact ⟨rfl, t, name, xs, htype, ⟨j, ht, hname⟩, ⟨hpassed.to_words, hvalues⟩, hk⟩
  · rintro ⟨rfl, t, name, xs, htype, ⟨j, ht, hname⟩, ⟨hpassed, hvalues⟩, hk⟩
    have hall : NamesRead (Passes .buffered) [] (kindFields name) ms := by
      refine hpassed.of_words fun word hword v hv => ?_
      rw [List.mem_singleton.mp hword, htype, List.mem_singleton] at hv
      exact hv ▸ ⟨j, ht⟩
    obtain ⟨js, hjs, hrecord⟩ := exists_means_recordOf.mpr ⟨hall, hvalues⟩
    have htypes := forall₂_given hjs "type"
    rw [htype] at htypes
    refine ⟨.object js, means_object.mpr ⟨rfl, js, rfl, hjs⟩, ?_⟩
    rw [read_kind_object]
    exact bind_eq_ok.mpr
      ⟨name, tagOf_none_eq_ok.mpr ⟨j, eq_singleton_of_means ht htypes, hname⟩,
        map_eq_ok.mpr ⟨xs, (ofMembers_eq_ok (nodup_kindFields name)).mpr hrecord, hk⟩⟩

/-- **A kind of node given as an object** has its type and the values of its fields in whatever
    order. -/
theorem reads_kind_object {mode : Mode} {ms : List (Quotation × Sketch)} :
    Reads mode .kind (.object ms fault) k ↔ fault = none ∧ ∃ t name xs,
      valuesAt ms "type" = [t] ∧ Tags mode t name ∧
        ReadsMembers .buffered ["type"] (kindFields name) ms xs ∧ buildKind name xs = k := by
  cases mode with
  | streamed => exact reads_streamed_kind_object
  | buffered => exact reads_buffered_kind_object

/-- **A kind of node given as an array** has its type first. -/
theorem reads_kind_array {mode : Mode} {vs : List Sketch} :
    Reads mode .kind (.array vs fault) k ↔ fault = none ∧ ∃ t rest name xs, vs = t :: rest ∧
      Tags mode t name ∧ ItemsOf (Reads .buffered) (kindFields name) rest xs ∧
        buildKind name xs = k := by
  cases mode with
  | streamed =>
      constructor
      · rintro ⟨n, h⟩
        obtain ⟨rfl, n, -, t, rest, name, values, xs, hvs, hname, hvalues, hxs, hk⟩ :=
          streamKind_array_eq_ok.mp h
        have hmeans := (forall₂_value_iff.mp (values_eq_ok.mp hvalues)).2
        exact ⟨rfl, t, rest, name, xs, hvs, hname,
          exists_means_itemsOf.mp ⟨values, hmeans, readItems_eq_ok.mp hxs⟩, hk⟩
      · rintro ⟨rfl, t, rest, name, xs, hvs, hname, hxs, hk⟩
        obtain ⟨values, hmeans, hitems⟩ := exists_means_itemsOf.mpr hxs
        have hvalues := values_eq_ok.mpr (forall₂_value_iff.mpr ⟨Nat.le_refl _, hmeans⟩)
        exact ⟨_, streamKind_array_eq_ok.mpr ⟨rfl, _, rfl, t, rest, name, values, xs, hvs, hname,
          hvalues, readItems_eq_ok.mpr hitems, hk⟩⟩
  | buffered =>
      constructor
      · rintro ⟨j, hj, h⟩
        obtain ⟨rfl, js, rfl, hjs⟩ := means_array.mp hj
        cases hjs with
        | nil => exact nomatch h
        | @cons t j rest js ht hjs =>
            rw [read_kind_array] at h
            obtain ⟨name, hname, h⟩ := bind_eq_ok.mp h
            obtain ⟨xs, hxs, hk⟩ := map_eq_ok.mp h
            exact ⟨rfl, t, rest, name, xs, rfl, ⟨j, ht, hname⟩,
              exists_means_itemsOf.mp ⟨js, hjs, readItems_eq_ok.mp hxs⟩, hk⟩
      · rintro ⟨rfl, t, rest, name, xs, rfl, ⟨j, ht, hname⟩, hxs, hk⟩
        obtain ⟨js, hjs, hitems⟩ := exists_means_itemsOf.mpr hxs
        refine ⟨.array (j :: js), means_array.mpr ⟨rfl, _, rfl, .cons ht hjs⟩, ?_⟩
        rw [read_kind_array]
        exact bind_eq_ok.mpr ⟨name, hname,
          map_eq_ok.mpr ⟨xs, readItems_eq_ok.mpr hitems, hk⟩⟩

/-- A kind that is streamed can be buffered as well. -/
theorem Reads.kind_buffered {mode : Mode} {v : Sketch} (h : Reads mode .kind v k) :
    Reads .buffered .kind v k := by
  rcases array_or_object_of_reads rfl h with ⟨vs, fault, rfl⟩ | ⟨ms, fault, rfl⟩
  · obtain ⟨hfault, t, rest, name, xs, hvs, hname, hxs⟩ := reads_kind_array.mp h
    exact reads_kind_array.mpr ⟨hfault, t, rest, name, xs, hvs, hname.buffered, hxs⟩
  · obtain ⟨hfault, t, name, xs, ht, hname, hxs⟩ := reads_kind_object.mp h
    exact reads_kind_object.mpr ⟨hfault, t, name, xs, ht, hname.buffered, hxs⟩

end

/-! ## Literals -/

theorem noMore_eq_ok {l l' : Literal} {js : List (String × Json)} :
    noMore l js = .ok l' ↔ js = [] ∧ l' = l := by
  cases js with
  | nil =>
      constructor
      · intro h
        exact ⟨rfl, (Except.ok.inj h).symm⟩
      · rintro ⟨-, rfl⟩
        rfl
  | cons m js => exact ⟨fun h => (nomatch h), fun h => (nomatch h.1)⟩

/-- The literal of a type that the values under `value` make; a `nil` needs none. -/
def PayloadOf (name : LiteralName) (vs : List Json) (l : Literal) : Prop :=
  (∃ v, vs = [v] ∧ readPayload name v = .ok l) ∨ (vs = [] ∧ name = .nil ∧ l = .nil)

theorem length_given_kind_add_value {js : List (String × Json)}
    (h : ∀ m ∈ js, m.1 = "kind" ∨ m.1 = "value") :
    (given js "kind").length + (given js "value").length = js.length := by
  induction js with
  | nil => rfl
  | cons m js ih =>
      obtain ⟨hm, hjs⟩ := List.forall_mem_cons.mp h
      obtain ⟨name, j⟩ := m
      have hlength := ih hjs
      rcases hm with rfl | rfl
      · rw [given_cons_of_eq, given_cons_of_ne (by decide)]
        simp only [List.length_cons]
        omega
      · rw [given_cons_of_eq, given_cons_of_ne (by decide)]
        simp only [List.length_cons]
        omega

/-- What follows both members must be nothing. -/
theorem readBoth_eq_ok {k v : Json} {more : List (String × Json)}
    (h : ∀ m ∈ more, m.1 = "kind" ∨ m.1 = "value") {l : Literal} :
    (LiteralName.ofMember k >>= fun name => readPayload name v >>= fun l => noMore l more) = .ok l ↔
      ∃ k' name, k :: given more "kind" = [k'] ∧ LiteralName.ofMember k' = .ok name ∧
        PayloadOf name (v :: given more "value") l := by
  constructor
  · intro hl
    obtain ⟨name, hname, hl⟩ := bind_eq_ok.mp hl
    obtain ⟨l', hpayload, hl⟩ := bind_eq_ok.mp hl
    obtain ⟨rfl, rfl⟩ := noMore_eq_ok.mp hl
    exact ⟨k, name, rfl, hname, Or.inl ⟨v, rfl, hpayload⟩⟩
  · rintro ⟨k', name, hk, hname, ⟨v', hv, hpayload⟩ | ⟨hv, -⟩⟩
    · obtain ⟨rfl, hkinds⟩ := List.cons.inj hk
      obtain ⟨rfl, hvalues⟩ := List.cons.inj hv
      have hlength := length_given_kind_add_value h
      rw [hkinds, hvalues] at hlength
      obtain rfl := List.length_eq_zero_iff.mp hlength.symm
      exact bind_eq_ok.mpr ⟨name, hname, bind_eq_ok.mpr ⟨l, hpayload, rfl⟩⟩
    · exact nomatch hv

/-- The type alone is enough for a `nil`. -/
theorem readTagged_singleton_eq_ok {first : String} {v : Json}
    (h : first = "kind" ∨ first = "value") {l : Literal} :
    readTagged [(first, v)] = .ok l ↔ ∃ k name, given [(first, v)] "kind" = [k] ∧
      LiteralName.ofMember k = .ok name ∧ PayloadOf name (given [(first, v)] "value") l := by
  have hne : "value" ≠ "kind" := by decide
  rcases h with rfl | rfl
  · rw [readTagged, if_pos rfl, given_cons_of_eq, given_cons_of_ne hne.symm]
    constructor
    · intro hl
      obtain ⟨name, hname, hl⟩ := bind_eq_ok.mp hl
      split at hl
      · rename_i hnil
        exact ⟨v, name, rfl, hname, Or.inr ⟨rfl, hnil, (Except.ok.inj hl).symm⟩⟩
      · exact nomatch hl
    · rintro ⟨k, name, hk, hname, ⟨v', hv, -⟩ | ⟨-, rfl, rfl⟩⟩
      · exact nomatch hv
      · obtain ⟨rfl, -⟩ := List.cons.inj hk
        exact bind_eq_ok.mpr ⟨.nil, hname, rfl⟩
  · rw [readTagged, if_neg hne, given_cons_of_ne hne]
    constructor
    · intro hl
      exact nomatch hl
    · rintro ⟨k, name, hk, -⟩
      exact nomatch hk

/-- Of the two members of a literal either may come first. -/
theorem readTagged_eq_ok {js : List (String × Json)} (h : ∀ m ∈ js, m.1 = "kind" ∨ m.1 = "value")
    {l : Literal} :
    readTagged js = .ok l ↔ ∃ k name, given js "kind" = [k] ∧ LiteralName.ofMember k = .ok name ∧
      PayloadOf name (given js "value") l := by
  have hne : "value" ≠ "kind" := by decide
  match js with
  | [] =>
      constructor
      · intro hl
        exact nomatch hl
      · rintro ⟨k, name, hk, -⟩
        exact nomatch hk
  | [(first, v)] => exact readTagged_singleton_eq_ok (h (first, v) (List.mem_singleton_self _))
  | (first, v) :: (second, w) :: more =>
      obtain ⟨hfirst, h⟩ := List.forall_mem_cons.mp h
      obtain ⟨hsecond, hmore⟩ := List.forall_mem_cons.mp h
      rcases hfirst with rfl | rfl
      · rw [given_cons_of_eq, given_cons_of_ne hne.symm]
        rcases hsecond with rfl | rfl
        · rw [given_cons_of_eq]
          constructor
          · intro hl
            obtain ⟨name, -, hl⟩ := bind_eq_ok.mp hl
            exact nomatch hl
          · rintro ⟨k, name, hk, -⟩
            exact nomatch hk
        · rw [given_cons_of_ne hne, given_cons_of_eq]
          exact readBoth_eq_ok hmore
      · rw [given_cons_of_eq, given_cons_of_ne hne]
        rcases hsecond with rfl | rfl
        · rw [given_cons_of_eq, given_cons_of_ne hne.symm]
          exact readBoth_eq_ok hmore
        · rw [given_cons_of_eq]
          constructor
          · intro hl
            exact nomatch hl
          · rintro ⟨k, name, -, -, ⟨v', hv, -⟩ | ⟨hv, -⟩⟩
            · exact nomatch hv
            · exact nomatch hv

/-- The literal of sketches under `kind` and `value`. -/
def LiteralOf (ks vs : List Sketch) (l : Literal) : Prop :=
  ∃ k j name, ks = [k] ∧ k.Means j ∧ LiteralName.ofMember j = .ok name ∧
    ((∃ v w, vs = [v] ∧ v.Means w ∧ readPayload name w = .ok l) ∨
      (vs = [] ∧ name = .nil ∧ l = .nil))

/-- A literal takes what it takes in whatever order the values come. -/
theorem LiteralOf.perm {ks ks' vs vs' : List Sketch} {l : Literal} (hks : ks.Perm ks')
    (hvs : vs.Perm vs') (h : LiteralOf ks vs l) : LiteralOf ks' vs' l := by
  obtain ⟨k, j, name, rfl, hj, hname, hpayload⟩ := h
  refine ⟨k, j, name, List.perm_singleton.mp hks.symm, hj, hname, ?_⟩
  rcases hpayload with ⟨v, w, rfl, hw, hl⟩ | ⟨rfl, hnil, hl⟩
  · exact Or.inl ⟨v, w, List.perm_singleton.mp hvs.symm, hw, hl⟩
  · exact Or.inr ⟨List.nil_perm.mp hvs, hnil, hl⟩

theorem literalOf_means_iff {ks vs : List Sketch} {ks' vs' : List Json}
    (hks : List.Forall₂ Sketch.Means ks ks') (hvs : List.Forall₂ Sketch.Means vs vs')
    {l : Literal} :
    (∃ k name, ks' = [k] ∧ LiteralName.ofMember k = .ok name ∧ PayloadOf name vs' l) ↔
      LiteralOf ks vs l := by
  constructor
  · rintro ⟨j, name, rfl, hname, hpayload⟩
    obtain ⟨k, rfl, hk⟩ := exists_eq_singleton_of_means hks
    refine ⟨k, j, name, rfl, hk, hname, ?_⟩
    rcases hpayload with ⟨w, rfl, hl⟩ | ⟨rfl, hnil, hl⟩
    · obtain ⟨v, rfl, hv⟩ := exists_eq_singleton_of_means hvs
      exact Or.inl ⟨v, w, rfl, hv, hl⟩
    · exact Or.inr ⟨List.forall₂_nil_right_iff.mp hvs, hnil, hl⟩
  · rintro ⟨k, j, name, rfl, hj, hname, hpayload⟩
    refine ⟨j, name, eq_singleton_of_means hj hks, hname, ?_⟩
    rcases hpayload with ⟨v, w, rfl, hw, hl⟩ | ⟨rfl, hnil, hl⟩
    · exact Or.inl ⟨w, eq_singleton_of_means hw hvs, hl⟩
    · exact Or.inr ⟨List.forall₂_nil_left_iff.mp hvs, hnil, hl⟩

theorem given_filter_isLiteralMember {name : String} (h : isLiteralMember name = true)
    (js : List (String × Json)) :
    given (js.filter fun (name, _) => isLiteralMember name) name = given js name := by
  rw [given, given, List.filter_filter]
  refine congrArg _ (List.filter_congr fun m _ => ?_)
  obtain ⟨name', j⟩ := m
  show (name' == name && isLiteralMember name') = (name' == name)
  by_cases hname : name' = name
  · rw [hname, h, Bool.and_true]
  · rw [beq_eq_false_iff_ne.mpr hname, Bool.false_and]

theorem readLiteral_object_eq_ok {js : List (String × Json)} {l : Literal} :
    readLiteral (.object js) = .ok l ↔ ∃ k name, given js "kind" = [k] ∧
      LiteralName.ofMember k = .ok name ∧ PayloadOf name (given js "value") l := by
  have hmembers : ∀ m ∈ js.filter fun (name, _) => isLiteralMember name,
      m.1 = "kind" ∨ m.1 = "value" := by
    intro m hm
    have hname : (m.1 == "kind" || m.1 == "value") = true := (List.mem_filter.mp hm).2
    rwa [Bool.or_eq_true, beq_iff_eq, beq_iff_eq] at hname
  refine (readTagged_eq_ok hmembers).trans ?_
  rw [given_filter_isLiteralMember (by decide), given_filter_isLiteralMember (by decide)]

/-- **A literal given as an object** has its type and its value in whatever order. -/
theorem reads_literal_object {ms : List (Quotation × Sketch)} {fault : Option Fault}
    {l : Literal} :
    Reads .buffered .literal (.object ms fault) l ↔ fault = none ∧
      NamesRead (Passes .buffered) ["kind", "value"] [] ms ∧
        LiteralOf (valuesAt ms "kind") (valuesAt ms "value") l := by
  constructor
  · rintro ⟨j, hj, h⟩
    obtain ⟨rfl, js, rfl, hjs⟩ := means_object.mp hj
    rw [read_literal_eq] at h
    have hl := (literalOf_means_iff (forall₂_given hjs "kind") (forall₂_given hjs "value")).mp
      (readLiteral_object_eq_ok.mp h)
    exact ⟨rfl, (exists_means_iff.mp ⟨js, hjs⟩).to_words, hl⟩
  · rintro ⟨rfl, hpassed, h⟩
    have hall : NamesRead (Passes .buffered) [] [] ms := by
      refine hpassed.of_words fun word hword v hv => ?_
      obtain ⟨k, j, name, hk, hj, -, hpayload⟩ := h
      rcases List.mem_pair.mp hword with rfl | rfl
      · rw [hk, List.mem_singleton] at hv
        exact hv ▸ ⟨j, hj⟩
      · rcases hpayload with ⟨w, j, hw, hj, -⟩ | ⟨hnone, -⟩
        · rw [hw, List.mem_singleton] at hv
          exact hv ▸ ⟨j, hj⟩
        · rw [hnone] at hv
          exact nomatch hv
    obtain ⟨js, hjs⟩ := exists_means_iff.mpr hall
    refine ⟨.object js, means_object.mpr ⟨rfl, js, rfl, hjs⟩, ?_⟩
    rw [read_literal_eq]
    exact readLiteral_object_eq_ok.mpr ((literalOf_means_iff (forall₂_given hjs "kind")
      (forall₂_given hjs "value")).mpr h)

end CaskLint.Document
