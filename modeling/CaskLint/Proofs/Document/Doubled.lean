import CaskLint.Proofs.Document.Arrangement

/-!
# Where a member is there twice nothing is read

  Some object that is read has a member once more, at any depth and anywhere among the others
  (**`Doubled`**). Of what comes of it nothing is read (**`Doubled.refuses`**), neither with the
  first nor with the last of the two.

  That knows no order: each field takes what stands under its name if that is one value, and so does
  a type. So each step comes to what stands under one name (**`Refused`**), whether that is the
  member itself or one whose value is refused, and the induction over where the second member is
  goes up name by name and item by item.
-/

namespace CaskLint.Document

open Record Json

/-! ## Members that are there twice -/

/-- What is read straight from the text, seen from around a place: nothing inside a kind is. -/
def Site.outside : Site → Option (Shape × Sketch) → Option (Shape × Sketch)
  | .part .kind, _ => none
  | _, sooner => sooner

/-- Some object that is read has a member once more. If the new one comes sooner and is read
    straight from the text, then `sooner` is its value. -/
inductive Doubled : Site → Option (Shape × Sketch) → Sketch → Sketch → Prop
  /-- A member that says how the others are read. -/
  | word {site : Site} {before after : List (Quotation × Sketch)} {q : Quotation} {v : Sketch}
      {word : String} (hword : word ∈ site.words) (hgiven : valuesAt (before ++ after) word ≠ [])
      (hq : q.read = .ok word) (hv : v.sound = true) :
      Doubled site none (.object (before ++ after) none) (.object (before ++ (q, v) :: after) none)
  /-- A field, after the member that is there. -/
  | later {site : Site} {before after : List (Quotation × Sketch)} {q : Quotation} {v : Sketch}
      {f : Field Shape.Value} (hf : f ∈ site.fields (before ++ after))
      (hgiven : valuesAt before f.name ≠ []) (hq : q.read = .ok f.name) (hv : v.sound = true) :
      Doubled site none (.object (before ++ after) none) (.object (before ++ (q, v) :: after) none)
  /-- A field, before the member that is there. -/
  | sooner {site : Site} {before after : List (Quotation × Sketch)} {q : Quotation} {v : Sketch}
      {f : Field Shape.Value} (hf : f ∈ site.fields (before ++ after))
      (hgiven : valuesAt after f.name ≠ []) (hq : q.read = .ok f.name) (hv : v.sound = true) :
      Doubled site (site.outside (some (f.shape, v))) (.object (before ++ after) none)
        (.object (before ++ (q, v) :: after) none)
  /-- In the value of a field. -/
  | field {site : Site} {before after : List (Quotation × Sketch)} {q : Quotation} {v v' : Sketch}
      {f : Field Shape.Value} {sooner : Option (Shape × Sketch)}
      (hf : f ∈ site.fields (before ++ (q, v) :: after)) (hq : q.read = .ok f.name)
      (h : Doubled (.part f.shape) sooner v v') :
      Doubled site (site.outside sooner) (.object (before ++ (q, v) :: after) none)
        (.object (before ++ (q, v') :: after) none)
  /-- In an item of an array. -/
  | item {site site' : Site} {before after : List Sketch} {v v' : Sketch}
      {sooner : Option (Shape × Sketch)} (hsite : site.item? before = some site')
      (h : Doubled site' sooner v v') :
      Doubled site (site.outside sooner) (.array (before ++ v :: after) none)
        (.array (before ++ v' :: after) none)

theorem Site.outside_of_ne {site : Site} (h : site ≠ .part .kind)
    (sooner : Option (Shape × Sketch)) : site.outside sooner = sooner := by
  cases site with
  | part s =>
      cases s with
      | kind => exact absurd rfl h
      | _ => rfl
  | _ => rfl

/-! ## Nothing is read -/

/-- Something under a name keeps members from being read: two values under a word, or what no field
    takes where it took something before. -/
inductive Refused (mode : Mode) (words : List String) (fs : Fields)
    (ms ms' : List (Quotation × Sketch)) : Prop
  | word {word : String} (hword : word ∈ words) (h : 2 ≤ (valuesAt ms' word).length)
  | field {f : Field Shape.Value} (hwords : ∀ word ∈ words, valuesAt ms' word = valuesAt ms word)
      (hf : f ∈ fs) (h : ∀ x x', FieldOf (Reads mode) f (valuesAt ms f.name) x →
        ¬ FieldOf (Reads mode) f (valuesAt ms' f.name) x')

/-- Where something is read of one sketch at a place, nothing is read of the other. -/
def Site.Refuses : Site → Sketch → Sketch → Prop
  | .document, v, v' => ∀ d d', Loads v d → ¬ Loads v' d'
  | .part s, v, v' => ∀ mode x x', Reads mode s v x → ¬ Reads mode s v' x'
  | .unread, _, _ => True

section

variable {mode : Mode} {words : List String} {fs : Fields} {ms ms' : List (Quotation × Sketch)}

/-- Without words it is a field that refuses. -/
theorem Refused.not_readsMembers (h : Refused mode words fs ms ms')
    (hwords : ∀ word ∈ words, (valuesAt ms' word).length ≤ 1) {ws ws' : List String}
    {xs xs' : Values Shape.Value fs} (hxs : ReadsMembers mode ws fs ms xs) :
    ¬ ReadsMembers mode ws' fs ms' xs' := by
  intro hxs'
  cases h with
  | word hword h => exact absurd (hwords _ hword) (Nat.not_le_of_lt h)
  | field _ hf h =>
      obtain ⟨x, -, hx⟩ := hxs.2.exists_entry hf
      obtain ⟨x', -, hx'⟩ := hxs'.2.exists_entry hf
      exact h x x' hx hx'

end

theorem Site.fields_of_record {s : Shape} {c : Composed s.Value} (h : s.record? = some c)
    (ms : List (Quotation × Sketch)) : (Site.part s).fields ms = c.fields := by
  cases s with
  | span | node | optionalNode | invocation => exact Option.some.inj h ▸ rfl
  | _ => exact nomatch h

theorem Site.words_of_record {s : Shape} {c : Composed s.Value} (h : s.record? = some c) :
    (Site.part s).words = [] := by
  cases s with
  | span | node | optionalNode | invocation => rfl
  | _ => exact nomatch h

/-- A value names one type only. -/
theorem Tags.eq {mode mode' : Mode} {t : Sketch} {name name' : KindName} (h : Tags mode t name)
    (h' : Tags mode' t name') : name = name' :=
  Option.some.inj ((typeOf?_of_tags h).symm.trans (typeOf?_of_tags h'))

/-- A type is one value, the same as before, and so the fields are the same. -/
theorem refuses_kind {ms ms' : List (Quotation × Sketch)}
    (h : Refused .buffered (Site.part .kind).words ((Site.part .kind).fields ms) ms ms') :
    (Site.part .kind).Refuses (.object ms none) (.object ms' none) := by
  intro mode k k' hk hk'
  obtain ⟨-, t, name, xs, ht, hname, hxs, -⟩ := reads_kind_object.mp hk
  obtain ⟨-, t', name', xs', ht', hname', hxs', -⟩ := reads_kind_object.mp hk'
  have hwords : ∀ word ∈ (Site.part .kind).words, (valuesAt ms' word).length ≤ 1 := by
    intro word hword
    rw [List.mem_singleton.mp hword, ht']
    exact Nat.le_refl _
  have hfields : (Site.part .kind).fields ms = kindFields name := by
    rw [Site.fields, ht, typedFields_of_tags hname]
  rw [hfields] at h
  -- unless it is the type that is refused, both are read by the table of the same type
  by_cases heq : valuesAt ms' "type" = valuesAt ms "type"
  · rw [ht, ht', List.singleton_inj] at heq
    subst heq
    obtain rfl := hname.eq hname'
    exact h.not_readsMembers hwords hxs hxs'
  · cases h with
    | word hword h => exact absurd (hwords _ hword) (Nat.not_le_of_lt h)
    | field htype _ _ => exact heq (htype "type" (List.mem_singleton_self _))

/-- **What is refused under one name is refused as a whole.** -/
theorem refuses_object {site : Site} {ms ms' : List (Quotation × Sketch)}
    (h : ∀ mode, Refused mode site.words (site.fields ms) ms ms') :
    site.Refuses (.object ms none) (.object ms' none) := by
  cases site with
  | document =>
      intro d d' hd hd'
      obtain ⟨-, xs, hxs, -⟩ := loads_object.mp hd
      obtain ⟨-, xs', hxs', -⟩ := loads_object.mp hd'
      exact (h .streamed).not_readsMembers (fun _ hword => nomatch hword) hxs hxs'
  | unread => trivial
  | part s =>
      cases hrecord : s.record? with
      | some c =>
          intro mode x x' hx hx'
          obtain ⟨-, -, xs, hxs, -⟩ := (reads_record_object hrecord).mp hx
          obtain ⟨-, -, xs', hxs', -⟩ := (reads_record_object hrecord).mp hx'
          have hmode := h mode
          rw [Site.fields_of_record hrecord, Site.words_of_record hrecord] at hmode
          exact hmode.not_readsMembers (fun _ hword => nomatch hword) hxs hxs'
      | none =>
          by_cases hkind : s = .kind
          · subst hkind
            exact refuses_kind (h .buffered)
          by_cases hliteral : s = .literal
          · subst hliteral
            intro mode l l' hl hl'
            cases mode with
            | streamed => exact (not_reads_of_not_opens rfl).2 ms none hl
            | buffered =>
                obtain ⟨-, -, k, j, name, hk, -, -, hvalue⟩ := reads_literal_object.mp hl'
                cases h .buffered with
                | word hword htwo =>
                    rcases List.mem_pair.mp hword with rfl | rfl
                    · rw [hk] at htwo
                      exact absurd htwo (Nat.not_succ_le_self 1)
                    · rcases hvalue with ⟨v, w, hv, -⟩ | ⟨hnone, -⟩
                      · rw [hv] at htwo
                        exact absurd htwo (Nat.not_succ_le_self 1)
                      · rw [hnone] at htwo
                        exact absurd htwo (Nat.not_succ_le_zero 1)
                | field _ hf _ => exact nomatch hf
          · intro mode x x' hx
            exact absurd hx (not_reads_object hrecord hkind hliteral)

theorem getElem?_append_cons_of_ne {α : Type} {before after : List α} {a' : α} {i : Nat}
    (h : i ≠ before.length) (a : α) :
    (before ++ a' :: after)[i]? = (before ++ a :: after)[i]? := by
  rcases Nat.lt_or_gt_of_ne h with hlt | hgt
  · rw [List.getElem?_append_left hlt, List.getElem?_append_left hlt]
  · obtain ⟨k, rfl⟩ := Nat.exists_eq_add_of_lt hgt
    rw [List.getElem?_append_right (by omega), List.getElem?_append_right (by omega)]
    simp [Nat.add_assoc]

theorem not_itemsOf_of_item {mode : Mode} {fs : Fields} {before after : List Sketch}
    {v v' : Sketch} {f : Field Shape.Value} (hf : fs[before.length]? = some f)
    (h : ∀ x x', Reads mode f.shape v x → ¬ Reads mode f.shape v' x')
    {xs xs' : Values Shape.Value fs}
    (hxs : ItemsOf (Reads mode) fs (before ++ v :: after) xs) :
    ¬ ItemsOf (Reads mode) fs (before ++ v' :: after) xs' := by
  intro hxs'
  obtain ⟨x, -, hx⟩ := hxs.exists_entry hf (getElem?_append_cons_self before after v)
  obtain ⟨x', -, hx'⟩ := hxs'.exists_entry hf (getElem?_append_cons_self before after v')
  exact h x x' hx hx'

/-- An array of which one item gives nothing gives nothing. -/
theorem refuses_array {site site' : Site} {before after : List Sketch} {v v' : Sketch}
    (hsite : site.item? before = some site') (h : site'.Refuses v v') :
    site.Refuses (.array (before ++ v :: after) none) (.array (before ++ v' :: after) none) := by
  cases site with
  | document =>
      obtain ⟨f, hf, rfl⟩ := Option.map_eq_some_iff.mp hsite
      intro d d' hd hd'
      obtain ⟨-, xs, hxs, -⟩ := loads_array.mp hd
      obtain ⟨-, xs', hxs', -⟩ := loads_array.mp hd'
      exact not_itemsOf_of_item hf (h .streamed) hxs hxs'
  | unread => trivial
  | part s =>
      intro mode x x' hx hx'
      cases hrecord : s.record? with
      | some c =>
          obtain ⟨f, hf, rfl⟩ := item?_record hrecord hsite
          obtain ⟨-, -, xs, hxs, -⟩ := (reads_record_array hrecord).mp hx
          obtain ⟨-, -, xs', hxs', -⟩ := (reads_record_array hrecord).mp hx'
          exact not_itemsOf_of_item hf (h mode) hxs hxs'
      | none =>
          cases s with
          | nodes =>
              obtain rfl := Option.some.inj hsite
              obtain ⟨-, hns⟩ := reads_nodes_array.mp hx
              obtain ⟨-, hns'⟩ := reads_nodes_array.mp hx'
              obtain ⟨n, hn⟩ := exists_of_forall₂ hns (List.mem_append_right _ List.mem_cons_self)
              obtain ⟨n', hn'⟩ :=
                exists_of_forall₂ hns' (List.mem_append_right _ List.mem_cons_self)
              exact h mode n n' hn hn'
          | kind =>
              obtain ⟨-, t, _, name, xs, hvs, hname, hxs, -⟩ := reads_kind_array.mp hx
              obtain ⟨-, t', _, name', xs', hvs', hname', hxs', -⟩ := reads_kind_array.mp hx'
              cases before with
              | nil => exact nomatch hsite
              | cons first before =>
                  obtain ⟨rfl, rfl⟩ := List.cons.inj hvs
                  obtain ⟨rfl, rfl⟩ := List.cons.inj hvs'
                  obtain rfl := hname.eq hname'
                  obtain ⟨f, hf, rfl⟩ := Option.map_eq_some_iff.mp hsite
                  rw [typedFields_of_tags hname] at hf
                  exact not_itemsOf_of_item hf (h .buffered) hxs hxs'
          | span | node | optionalNode | invocation => exact nomatch hrecord
          | _ => exact nomatch hsite

section

variable {site : Site} {mode : Mode} {before after : List (Quotation × Sketch)} {q : Quotation}
  {v v' : Sketch}

theorem refused_of_word {word : String} (hword : word ∈ site.words)
    (hgiven : valuesAt (before ++ after) word ≠ []) (hq : q.read = .ok word) {fs : Fields} :
    Refused mode site.words fs (before ++ after) (before ++ (q, v) :: after) := by
  refine .word hword ?_
  rw [valuesAt_append] at hgiven
  rw [valuesAt_append_cons_of_eq hq, List.length_append, List.length_cons]
  have hlength := List.length_pos_of_ne_nil hgiven
  rw [List.length_append] at hlength
  omega

theorem refused_of_field {f : Field Shape.Value} (hf : f ∈ site.fields (before ++ after))
    (hgiven : valuesAt (before ++ after) f.name ≠ []) (hq : q.read = .ok f.name) :
    Refused mode site.words (site.fields (before ++ after)) (before ++ after)
      (before ++ (q, v) :: after) := by
  refine .field (fun word hword => valuesAt_word_of_field hf hq hword) hf fun _ x' _ hx' => ?_
  rw [valuesAt_append_cons_of_eq hq] at hx'
  obtain ⟨hbefore, hafter, -⟩ := hx'.of_append_cons
  rw [valuesAt_append, hbefore, hafter] at hgiven
  exact hgiven rfl

theorem refused_of_value {f : Field Shape.Value}
    (hf : f ∈ site.fields (before ++ (q, v) :: after)) (hq : q.read = .ok f.name)
    (h : ∀ x x', Reads mode f.shape v x → ¬ Reads mode f.shape v' x') :
    Refused mode site.words (site.fields (before ++ (q, v) :: after)) (before ++ (q, v) :: after)
      (before ++ (q, v') :: after) := by
  refine .field (fun word hword => ?_) hf fun x x' hx hx' => ?_
  · rw [valuesAt_word_of_field hf hq hword, valuesAt_word_of_field hf hq hword]
  · rw [valuesAt_append_cons_of_eq hq] at hx hx'
    obtain ⟨-, -, hread⟩ := hx.of_append_cons
    obtain ⟨-, -, hread'⟩ := hx'.of_append_cons
    exact h x x' hread hread'

end

/-- **Nothing is read where a member is there twice.** -/
theorem Doubled.refuses {site : Site} {sooner : Option (Shape × Sketch)} {v v' : Sketch}
    (h : Doubled site sooner v v') : site.Refuses v v' := by
  induction h with
  | word hword hgiven hq _ => exact refuses_object fun _ => refused_of_word hword hgiven hq
  | later hf hgiven hq _ =>
      refine refuses_object fun _ => refused_of_field hf ?_ hq
      rw [valuesAt_append]
      exact List.append_ne_nil_of_left_ne_nil hgiven _
  | sooner hf hgiven hq _ =>
      refine refuses_object fun _ => refused_of_field hf ?_ hq
      rw [valuesAt_append]
      exact List.append_ne_nil_of_right_ne_nil _ hgiven
  | field hf hq _ ih => exact refuses_object fun mode => refused_of_value hf hq (ih mode)
  | item hsite _ ih => exact refuses_array hsite ih

end CaskLint.Document
