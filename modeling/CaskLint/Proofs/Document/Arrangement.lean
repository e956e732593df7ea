import CaskLint.Proofs.Document.Variants
import Mathlib.Data.List.Nodup
import Mathlib.Logic.Relation

/-!
# Documents whose members are laid out differently

  How a host lays out the members of a document should not matter. A change (**`Changed`**)
  reorders the members of an object, inserts or deletes a member that makes no difference
  (**`Extended`**), or is such a change to the value of a member or to an item. Which members an
  object knows depends on the place where it stands (**`Site`**): for a kind of node they are those
  of the type that is named by its `type`.

  What an object gives depends only on what stands under each name that it knows, and on the other
  members being passed over. So each change comes to the same three conditions on the members
  (**`Kept`**), and these keep what is read (`preserves_object`). By induction over the change that
  holds at any depth (**`Changed.preserves`**).
-/

namespace CaskLint.Document

open Record Json

/-! ## Places -/

/-- What is read at a place of a document. -/
inductive Site where
  | document
  /-- The value of a field. -/
  | part (s : Shape)
  /-- The value of a member that nobody knows, or something inside it. -/
  | unread

/-- The fields of a record of this shape. -/
def Shape.fields (s : Shape) : Fields := (s.record?.map Composed.fields).getD []

/-- The type of a node that a value names: a word, or a position in the list of types. -/
def typeOf? (t : Sketch) : Option KindName :=
  (t.value t.depth).toOption.bind fun j => (kinds.ofJson j).toOption

/-- The fields of the type that the only one of these values names. -/
def typedFields : List Sketch → Fields
  | [t] => ((typeOf? t).map kindFields).getD []
  | _ => []

namespace Site

/-- The fields that an object with these members has at a place. -/
def fields : Site → List (Quotation × Sketch) → Fields
  | .document, _ => Document.fields
  | .part .kind, ms => typedFields (valuesAt ms "type")
  | .part s, _ => s.fields
  | .unread, _ => []

/-- The names of members that say how the others are read. -/
def words : Site → List String
  | .part .kind => ["type"]
  | .part .literal => ["kind", "value"]
  | _ => []

/-- The place of an item of an array that comes after these. -/
def item? : Site → List Sketch → Option Site
  | .document, before => Document.fields[before.length]?.map fun f => .part f.shape
  | .part .nodes, _ => some (.part .node)
  | .part .kind, t :: before => (typedFields [t])[before.length]?.map fun f => .part f.shape
  | .part s, before => s.fields[before.length]?.map fun f => .part f.shape
  | .unread, _ => some .unread

end Site

/-- No member that is looked for has this name. -/
def UnknownTo (words : List String) (fs : Fields) (q : Quotation) : Prop :=
  ∀ name, q.read = .ok name → name ∉ words ∧ name ∉ fs.map Field.name

/-- An object at a place does not know the name of a member. -/
def Site.Unknown (site : Site) (ms : List (Quotation × Sketch)) (q : Quotation) : Prop :=
  UnknownTo site.words (site.fields ms) q

/-! ## Changes -/

/-- A value that holds the default of a field. -/
def IsDefault (f : Field Shape.Value) (v : Sketch) : Prop :=
  ∃ j x, v.Means j ∧ read f.shape j = .ok x ∧ f.standIn = some x

/-- One member more, which makes no difference at a place: its name is not known there, or it holds
    the default of a field that is left out otherwise. -/
inductive Extended (site : Site) :
    List (Quotation × Sketch) → List (Quotation × Sketch) → Prop
  | unknown {before after : List (Quotation × Sketch)} {q : Quotation} {v : Sketch}
      (hq : q.sound = true) (hv : v.sound = true) (h : site.Unknown (before ++ after) q) :
      Extended site (before ++ after) (before ++ (q, v) :: after)
  | default {before after : List (Quotation × Sketch)} {q : Quotation} {v : Sketch}
      {f : Field Shape.Value} (hf : f ∈ site.fields (before ++ after)) (hq : q.read = .ok f.name)
      (hnone : valuesAt (before ++ after) f.name = []) (hv : IsDefault f v) :
      Extended site (before ++ after) (before ++ (q, v) :: after)

/-- One change to how members are laid out, at any depth. -/
inductive Changed : Site → Sketch → Sketch → Prop
  /-- The members of an object in another order. -/
  | reorder {site : Site} {ms ms' : List (Quotation × Sketch)} (h : ms.Perm ms') :
      Changed site (.object ms none) (.object ms' none)
  /-- One member more. -/
  | insert {site : Site} {ms ms' : List (Quotation × Sketch)} (h : Extended site ms ms') :
      Changed site (.object ms none) (.object ms' none)
  /-- One member less. -/
  | delete {site : Site} {ms ms' : List (Quotation × Sketch)} (h : Extended site ms' ms) :
      Changed site (.object ms none) (.object ms' none)
  /-- A change in the value of a field. -/
  | field {site : Site} {before after : List (Quotation × Sketch)} {q : Quotation}
      {v v' : Sketch} {f : Field Shape.Value} (hf : f ∈ site.fields (before ++ (q, v) :: after))
      (hq : q.read = .ok f.name) (h : Changed (.part f.shape) v v') :
      Changed site (.object (before ++ (q, v) :: after) none)
        (.object (before ++ (q, v') :: after) none)
  /-- A change in the value of a member that is not known. -/
  | unknown {site : Site} {before after : List (Quotation × Sketch)} {q : Quotation}
      {v v' : Sketch} (hq : site.Unknown (before ++ (q, v) :: after) q)
      (h : Changed .unread v v') :
      Changed site (.object (before ++ (q, v) :: after) none)
        (.object (before ++ (q, v') :: after) none)
  /-- A change in an item of an array. -/
  | item {site site' : Site} {before after : List Sketch} {v v' : Sketch}
      (hsite : site.item? before = some site') (h : Changed site' v v') :
      Changed site (.array (before ++ v :: after) none) (.array (before ++ v' :: after) none)

/-! ## The fields at a place -/

theorem typeOf?_of_tags {mode : Mode} {t : Sketch} {name : KindName} (h : Tags mode t name) :
    typeOf? t = some name := by
  obtain ⟨j, hj, hname⟩ := h.buffered
  rw [typeOf?, show t.value t.depth = .ok j from hj, toOption_ok, Option.bind_some, hname,
    toOption_ok]

theorem typedFields_of_tags {mode : Mode} {t : Sketch} {name : KindName} (h : Tags mode t name) :
    typedFields [t] = kindFields name := by
  rw [typedFields, typeOf?_of_tags h]
  rfl

/-- Typed fields are those of some type, or none. -/
theorem typedFields_cases (ts : List Sketch) :
    typedFields ts = [] ∨ ∃ name, typedFields ts = kindFields name := by
  match ts with
  | [] | _ :: _ :: _ => exact Or.inl rfl
  | [t] =>
      rw [typedFields]
      cases typeOf? t with
      | none => exact Or.inl rfl
      | some name => exact Or.inr ⟨name, rfl⟩

theorem Shape.nodup_fields (s : Shape) : (s.fields.map Field.name).Nodup := by
  rw [Shape.fields]
  cases h : s.record? with
  | none => exact List.nodup_nil
  | some c => exact Composed.nodup h

namespace Site

/-- No two fields at a place share a name. -/
theorem nodup_fields (site : Site) (ms : List (Quotation × Sketch)) :
    ((site.fields ms).map Field.name).Nodup := by
  cases site with
  | document => exact Document.nodup_fields
  | unread => exact List.nodup_nil
  | part s =>
      cases s with
      | kind =>
          rcases typedFields_cases (valuesAt ms "type") with h | ⟨name, h⟩
          · rw [fields, h]
            exact List.nodup_nil
          · rw [fields, h]
            exact nodup_kindFields name
      | _ => exact Shape.nodup_fields _

/-- No field is called like a word. -/
theorem not_mem_words_of_mem_fields {site : Site} {ms : List (Quotation × Sketch)}
    {f : Field Shape.Value} (hf : f ∈ site.fields ms) : f.name ∉ site.words := by
  cases site with
  | document => exact List.not_mem_nil
  | unread => exact List.not_mem_nil
  | part s =>
      cases s with
      | kind =>
          rcases typedFields_cases (valuesAt ms "type") with h | ⟨name, h⟩
          · rw [fields, h] at hf
            exact nomatch hf
          · rw [fields, h] at hf
            exact fun hword => type_not_mem_kindFields name f hf (List.mem_singleton.mp hword)
      | literal => exact nomatch hf
      | _ => exact List.not_mem_nil

/-- The fields depend on nothing but what the words say. -/
theorem fields_congr {site : Site} {ms ms' : List (Quotation × Sketch)}
    (h : ∀ word ∈ site.words, valuesAt ms' word = valuesAt ms word) :
    site.fields ms' = site.fields ms := by
  cases site with
  | document => rfl
  | unread => rfl
  | part s =>
      cases s with
      | kind => exact congrArg typedFields (h "type" (List.mem_singleton_self _))
      | _ => rfl

end Site

/-! ## What changes keep -/

/-- How the members of an object at a place are read. -/
def Site.ReadsIn : Site → Mode → Prop
  | .document, mode => mode = .streamed
  | .part .kind, mode => mode = .buffered
  | .part s, mode => mode.opens s = true
  | .unread, _ => True

/-- What is kept when members are laid out differently: what stands under each word, what each
    field takes, and that the others can be passed over. -/
structure Kept (mode : Mode) (words : List String) (fs : Fields)
    (ms ms' : List (Quotation × Sketch)) : Prop where
  byWords : ∀ word ∈ words, (valuesAt ms word).Perm (valuesAt ms' word)
  byFields : ∀ f ∈ fs, ∀ x, FieldOf (Reads mode) f (valuesAt ms f.name) x →
    FieldOf (Reads mode) f (valuesAt ms' f.name) x
  others : ∀ m' ∈ ms', (∃ m ∈ ms, m'.1 = m.1 ∧
      (UnknownTo words fs m.1 → Passes mode m.2 → Passes mode m'.2)) ∨
    (m'.1.sound = true ∧ m'.2.sound = true)

section

variable {mode : Mode} {words : List String} {fs : Fields} {ms ms' : List (Quotation × Sketch)}

theorem passes_of_sound {v : Sketch} (h : v.sound = true) : Passes mode v := by
  obtain ⟨j, hj⟩ := Sketch.sound_iff.mp h
  exact passes_of_means hj

theorem Kept.namesRead (h : Kept mode words fs ms ms') (hms : NamesRead (Passes mode) words fs ms) :
    NamesRead (Passes mode) words fs ms' := by
  intro m' hm'
  rcases h.others m' hm' with ⟨m, hm, hname', hpass'⟩ | ⟨hq, hv⟩
  · obtain ⟨name, hname, hpass⟩ := hms m hm
    refine ⟨name, hname' ▸ hname, fun hword hfield => hpass' ?_ (hpass hword hfield)⟩
    intro name' hname'
    obtain rfl := Except.ok.inj (hname.symm.trans hname')
    exact ⟨hword, hfield⟩
  · obtain ⟨name, hname⟩ := Quotation.sound_iff.mp hq
    exact ⟨name, hname, fun _ _ => passes_of_sound hv⟩

theorem Kept.readsMembers (h : Kept mode words fs ms ms') {xs : Values Shape.Value fs}
    (hxs : ReadsMembers mode words fs ms xs) : ReadsMembers mode words fs ms' xs :=
  ⟨h.namesRead hxs.1, hxs.2.imp h.byFields⟩

/-- An object that nobody knows can still be passed over. -/
theorem Kept.passes (h : Kept mode [] [] ms ms') (hms : Passes mode (.object ms none)) :
    Passes mode (.object ms' none) := by
  refine passes_object.mpr fun m' hm' => ?_
  rcases h.others m' hm' with ⟨m, hm, hname, hpass⟩ | ⟨hq, hv⟩
  · obtain ⟨hnamed, hpassed⟩ := passes_object.mp hms m hm
    have hunknown : UnknownTo [] [] m.1 := fun _ _ => ⟨List.not_mem_nil, List.not_mem_nil⟩
    exact ⟨hname ▸ hnamed, hpass hunknown hpassed⟩
  · obtain ⟨name, hname⟩ := Quotation.sound_iff.mp hq
    exact ⟨passesName_of_read hname, passes_of_sound hv⟩

/-- Another order keeps everything. -/
theorem kept_of_perm (h : ms.Perm ms') : Kept mode words fs ms ms' where
  byWords _ _ := (h.filter _).map _
  byFields _ _ _ := FieldOf.perm ((h.filter _).map _)
  others m' hm' := Or.inl ⟨m', h.mem_iff.mpr hm', rfl, fun _ => id⟩

end

/-! ## One member more or less -/

theorem valuesAt_append_cons_of_ne {q : Quotation} {name : String} (h : q.read ≠ .ok name)
    (before after : List (Quotation × Sketch)) (v : Sketch) :
    valuesAt (before ++ (q, v) :: after) name = valuesAt (before ++ after) name := by
  rw [valuesAt_append, valuesAt_append, valuesAt_cons_of_ne h]

theorem valuesAt_append_cons_of_eq {q : Quotation} {name : String} (h : q.read = .ok name)
    (before after : List (Quotation × Sketch)) (v : Sketch) :
    valuesAt (before ++ (q, v) :: after) name =
      valuesAt before name ++ v :: valuesAt after name := by
  rw [valuesAt_append, valuesAt_cons_of_eq h]

/-- Another value of one name leaves what stands under the others. -/
theorem valuesAt_replaced {q : Quotation} {name : String} (h : q.read ≠ .ok name)
    (before after : List (Quotation × Sketch)) (v v' : Sketch) :
    valuesAt (before ++ (q, v') :: after) name = valuesAt (before ++ (q, v) :: after) name := by
  rw [valuesAt_append_cons_of_ne h, valuesAt_append_cons_of_ne h]

/-- What is read as one name is not read as another one. -/
theorem read_ne_of_ne {q : Quotation} {name other : String} (h : q.read = .ok name)
    (hne : name ≠ other) : q.read ≠ .ok other := by
  intro hother
  exact hne (Except.ok.inj (h.symm.trans hother))

/-- A value is read in one way only. -/
theorem Reads.eq {mode : Mode} {s : Shape} {v : Sketch} {x y : s.Value} (hx : Reads mode s v x)
    (hy : Reads mode s v y) : x = y := by
  cases mode with
  | streamed =>
      obtain ⟨n, hx⟩ := hx
      obtain ⟨m, hy⟩ := hy
      have hx := streamPart_of_depth_le hx (Nat.le_refl _)
      have hy := streamPart_of_depth_le hy (Nat.le_refl _)
      exact Except.ok.inj (hx.symm.trans hy)
  | buffered =>
      obtain ⟨j, hj, hx⟩ := hx
      obtain ⟨j', hj', hy⟩ := hy
      obtain rfl := hj.eq hj'
      exact Except.ok.inj (hx.symm.trans hy)

/-! ## Defaults -/

/-- A value that is neither array nor object is streamed as it is buffered. -/
theorem streamLeaf_of_means {s : Shape} {v : Sketch} {j : Json} {x : s.Value} (hj : v.Means j)
    (harray : ∀ js, j ≠ .array js) (hobject : ∀ js, j ≠ .object js) (h : read s j = .ok x) :
    streamLeaf s v = .ok x := by
  cases v with
  | array vs fault =>
      obtain ⟨-, js, rfl, -⟩ := means_array.mp hj
      exact absurd rfl (harray js)
  | object ms fault =>
      obtain ⟨-, js, rfl, -⟩ := means_object.mp hj
      exact absurd rfl (hobject js)
  | _ => exact bind_eq_ok.mpr ⟨j, orFault_eq_ok.mpr hj, orMismatch_eq_ok.mpr h⟩

theorem reads_offset_streamed {v : Sketch} {x : UInt32} (h : Reads .buffered .offset v x) :
    Reads .streamed .offset v x := by
  obtain ⟨j, hj, hx⟩ := h
  cases j with
  | integer n => exact ⟨0, streamLeaf_of_means hj (fun _ => nofun) (fun _ => nofun) hx⟩
  | _ => exact nomatch hx

/-- A span that is read in one mode is read in the other if its offsets are, and if the members that
    it does not know can be passed over. -/
theorem Reads.span_of {mode mode' : Mode} {v : Sketch} {x : Span} (h : Reads mode .span v x)
    (hoffset : ∀ v x, Reads mode .offset v x → Reads mode' .offset v x)
    (hnames : ∀ ms fault, v = .object ms fault → NamesRead (Passes mode) [] spanFields ms →
      NamesRead (Passes mode') [] spanFields ms) : Reads mode' .span v x := by
  have hrecord : Shape.record? .span = some ⟨spanFields, buildSpan⟩ := rfl
  have hopens : mode'.opens .span = true := by cases mode' <;> rfl
  have hfields : ∀ f ∈ spanFields, ∀ v x, Reads mode f.shape v x → Reads mode' f.shape v x := by
    intro f hf v x hx
    rcases List.mem_pair.mp hf with rfl | rfl
    · exact hoffset v x hx
    · exact hoffset v x hx
  rcases array_or_object_of_reads rfl h with ⟨vs, fault, rfl⟩ | ⟨ms, fault, rfl⟩
  · obtain ⟨-, hfault, xs, hxs, hx⟩ := (reads_record_array hrecord).mp h
    refine (reads_record_array hrecord).mpr ⟨hopens, hfault, xs, ?_, hx⟩
    exact hxs.imp fun f hf v _ => hfields f hf v
  · obtain ⟨-, hfault, xs, hxs, hx⟩ := (reads_record_object hrecord).mp h
    refine (reads_record_object hrecord).mpr
      ⟨hopens, hfault, xs, ⟨hnames ms fault rfl hxs.1, ?_⟩, hx⟩
    exact hxs.2.imp fun f hf x => FieldOf.imp fun v _ => hfields f hf v x

/-- A span is streamed as it is buffered. -/
theorem reads_span_streamed {v : Sketch} {x : Span} (h : Reads .buffered .span v x) :
    Reads .streamed .span v x := by
  refine h.span_of (fun v x => reads_offset_streamed) fun ms fault _ hms m hm => ?_
  obtain ⟨name, hname, hpass⟩ := hms m hm
  refine ⟨name, hname, fun hword hfield => ?_⟩
  obtain ⟨j, hj⟩ := hpass hword hfield
  exact passes_of_means hj

/-- The empty list of nodes is streamed as it is buffered. -/
theorem reads_nil_streamed {v : Sketch} (h : Reads .buffered .nodes v ([] : List Node)) :
    Reads .streamed .nodes v ([] : List Node) := by
  rcases array_or_object_of_reads rfl h with ⟨vs, fault, rfl⟩ | ⟨ms, fault, rfl⟩
  · obtain ⟨rfl, hvs⟩ := reads_nodes_array.mp h
    obtain rfl := List.forall₂_nil_right_iff.mp hvs
    exact reads_nodes_array.mpr ⟨rfl, .nil⟩
  · obtain ⟨j, hj, hx⟩ := h
    obtain ⟨-, js, rfl, -⟩ := means_object.mp hj
    exact nomatch hx

/-- The default of a field is read as such, whether it is streamed or buffered. -/
theorem IsDefault.reads {site : Site} {ms : List (Quotation × Sketch)} {f : Field Shape.Value}
    {v : Sketch} {mode : Mode} (h : IsDefault f v) (hf : f ∈ site.fields ms)
    (hmode : site.ReadsIn mode) : ∃ x, f.standIn = some x ∧ Reads mode f.shape v x := by
  obtain ⟨j, x, hj, hread, hx⟩ := h
  cases mode with
  | buffered => exact ⟨x, hx, j, hj, hread⟩
  | streamed =>
      refine ⟨x, hx, ?_⟩
      have hnode : f ∈ nodeFields → Reads .streamed f.shape v x := by
        intro hf
        rcases List.mem_pair.mp hf with rfl | rfl
        · exact nomatch hx
        · exact reads_span_streamed ⟨j, hj, hread⟩
      cases site with
      | document =>
          rcases List.mem_cons.mp hf with rfl | hf
          · exact nomatch hx
          rcases List.mem_pair.mp hf with rfl | rfl
          · cases j with
            | null | text s =>
                exact ⟨0, streamLeaf_of_means hj (fun _ => nofun) (fun _ => nofun) hread⟩
            | _ => exact nomatch hread
          · obtain rfl := Option.some.inj hx
            exact reads_nil_streamed ⟨j, hj, hread⟩
      | unread => exact nomatch hf
      | part s =>
          cases s with
          | node => exact hnode hf
          | span =>
              rcases List.mem_pair.mp hf with rfl | rfl
              · exact nomatch hx
              · exact nomatch hx
          | kind | optionalNode | invocation => exact nomatch hmode
          | _ => exact nomatch hf

/-! ## What each change keeps -/

section

variable {site : Site} {mode : Mode} {ms ms' : List (Quotation × Sketch)}

/-- Under a name that is known there is the same as before, or the default of a field that was left
    out. -/
theorem Extended.valuesAt_cases (h : Extended site ms ms') {name : String}
    (hname : name ∈ site.words ∨ name ∈ (site.fields ms).map Field.name) :
    valuesAt ms' name = valuesAt ms name ∨ ∃ f ∈ site.fields ms, f.name = name ∧
      valuesAt ms name = [] ∧ ∃ v, valuesAt ms' name = [v] ∧ IsDefault f v := by
  cases h with
  | @unknown before after q v hq hv hunknown =>
      refine Or.inl (valuesAt_append_cons_of_ne (fun hread => ?_) before after v)
      obtain ⟨hword, hfield⟩ := hunknown name hread
      exact hname.elim hword hfield
  | @default before after q v f hf hq hnone hv =>
      by_cases heq : f.name = name
      · subst heq
        have hvalues := valuesAt_append_cons_of_eq hq before after v
        rw [valuesAt_append, List.append_eq_nil_iff] at hnone
        rw [hnone.1, hnone.2] at hvalues
        refine Or.inr ⟨f, hf, rfl, ?_, v, hvalues, hv⟩
        rw [valuesAt_append, hnone.1, hnone.2]
        rfl
      · exact Or.inl (valuesAt_append_cons_of_ne (read_ne_of_ne hq heq) before after v)

theorem Extended.valuesAt_word (h : Extended site ms ms') {word : String}
    (hword : word ∈ site.words) : valuesAt ms' word = valuesAt ms word := by
  rcases h.valuesAt_cases (Or.inl hword) with heq | ⟨f, hf, rfl, -⟩
  · exact heq
  · exact absurd hword (Site.not_mem_words_of_mem_fields hf)

/-- What a field takes is the same with the member and without it. -/
theorem Extended.fieldOf_iff (h : Extended site ms ms') (hmode : site.ReadsIn mode)
    {f : Field Shape.Value} (hf : f ∈ site.fields ms) {x : f.shape.Value} :
    FieldOf (Reads mode) f (valuesAt ms f.name) x ↔
      FieldOf (Reads mode) f (valuesAt ms' f.name) x := by
  rcases h.valuesAt_cases (Or.inr (List.mem_map_of_mem hf)) with
    heq | ⟨g, hg, hname, hnone, v, hvalue, hv⟩
  · rw [heq]
  · -- the member holds the default of this very field
    obtain rfl := List.inj_on_of_nodup_map (site.nodup_fields ms) hg hf hname
    obtain ⟨y, hy, hread⟩ := hv.reads hg hmode
    rw [hnone, hvalue]
    constructor
    · rintro (⟨w, hw, -⟩ | ⟨-, hx⟩)
      · exact nomatch hw
      · obtain rfl := Option.some.inj (hy.symm.trans hx)
        exact Or.inl ⟨v, rfl, hread⟩
    · rintro (⟨w, hw, hx⟩ | ⟨hw, -⟩)
      · obtain rfl := List.singleton_inj.mp hw
        obtain rfl := hread.eq hx
        exact Or.inr ⟨rfl, hy⟩
      · exact nomatch hw

theorem mem_append_cons_cases {α : Type} {before after : List α} {a b : α}
    (h : b ∈ before ++ a :: after) : b ∈ before ++ after ∨ b = a := by
  rcases List.mem_append.mp h with h | h
  · exact Or.inl (List.mem_append_left after h)
  · exact (List.mem_cons.mp h).symm.imp_left (List.mem_append_right before)

theorem Extended.mem_cases (h : Extended site ms ms') {m : Quotation × Sketch} (hm : m ∈ ms') :
    m ∈ ms ∨ (m.1.sound = true ∧ m.2.sound = true) := by
  cases h with
  | unknown hq hv _ =>
      refine (mem_append_cons_cases hm).imp_right ?_
      rintro rfl
      exact ⟨hq, hv⟩
  | default _ hq _ hv =>
      refine (mem_append_cons_cases hm).imp_right ?_
      rintro rfl
      obtain ⟨j, -, hj, -⟩ := hv
      exact ⟨Quotation.sound_iff.mpr ⟨_, hq⟩, Sketch.sound_iff.mpr ⟨j, hj⟩⟩

theorem getElem?_append_cons_self {α : Type} (before after : List α) (a : α) :
    (before ++ a :: after)[before.length]? = some a := by
  simp

theorem append_subset_append_cons {α : Type} (before after : List α) (a : α) :
    before ++ after ⊆ before ++ a :: after :=
  ((List.sublist_cons_self a after).append_left before).subset

theorem Extended.subset (h : Extended site ms ms') {m : Quotation × Sketch} (hm : m ∈ ms) :
    m ∈ ms' := by
  cases h with
  | unknown _ _ _ => exact append_subset_append_cons _ _ _ hm
  | default _ _ _ _ => exact append_subset_append_cons _ _ _ hm

theorem kept_of_extended (h : Extended site ms ms') (hmode : site.ReadsIn mode) :
    Kept mode site.words (site.fields ms) ms ms' where
  byWords word hword := by rw [h.valuesAt_word hword]
  byFields f hf x := (h.fieldOf_iff hmode hf).mp
  others m' hm' := (h.mem_cases hm').imp_left fun hm => ⟨m', hm, rfl, fun _ => id⟩

/-- Whoever reads the longer object knows the same fields. -/
theorem kept_of_extended_symm (h : Extended site ms' ms) (hmode : site.ReadsIn mode) :
    Kept mode site.words (site.fields ms) ms ms' := by
  rw [Site.fields_congr fun _ => h.valuesAt_word]
  exact {
    byWords := fun word hword => by rw [h.valuesAt_word hword]
    byFields := fun f hf x => (h.fieldOf_iff hmode hf).mpr
    others := fun m' hm' => Or.inl ⟨m', h.subset hm', rfl, fun _ => id⟩ }

variable {before after : List (Quotation × Sketch)} {q : Quotation} {v v' : Sketch}

theorem mem_cases_of_replaced {α : Type} {before after : List α} {a a' b : α}
    (h : b ∈ before ++ a' :: after) : b ∈ before ++ a :: after ∨ b = a' :=
  (mem_append_cons_cases h).imp_left fun h => append_subset_append_cons before after a h

/-- The value of a field says nothing about how the others are read. -/
theorem valuesAt_word_of_field {ms : List (Quotation × Sketch)} {f : Field Shape.Value}
    (hf : f ∈ site.fields ms) (hq : q.read = .ok f.name) {word : String}
    (hword : word ∈ site.words) :
    valuesAt (before ++ (q, v) :: after) word = valuesAt (before ++ after) word := by
  have hne : f.name ≠ word := by
    rintro rfl
    exact Site.not_mem_words_of_mem_fields hf hword
  exact valuesAt_append_cons_of_ne (read_ne_of_ne hq hne) before after v

/-- A field that gives what it gave keeps everything. -/
theorem kept_of_field {f : Field Shape.Value}
    (hf : f ∈ site.fields (before ++ (q, v) :: after)) (hq : q.read = .ok f.name)
    (h : ∀ x, Reads mode f.shape v x → Reads mode f.shape v' x) :
    Kept mode site.words (site.fields (before ++ (q, v) :: after)) (before ++ (q, v) :: after)
      (before ++ (q, v') :: after) where
  byWords word hword := by
    rw [valuesAt_word_of_field hf hq hword, valuesAt_word_of_field hf hq hword]
  byFields g hg x hx := by
    by_cases hname : f.name = g.name
    · obtain rfl := List.inj_on_of_nodup_map (site.nodup_fields _) hf hg hname
      rw [valuesAt_append_cons_of_eq hq] at hx ⊢
      -- the only value of the field is the one that changes
      obtain ⟨hbefore, hafter, hx⟩ := hx.of_append_cons
      exact Or.inl ⟨v', by rw [hbefore, hafter]; rfl, h x hx⟩
    · rw [valuesAt_replaced (read_ne_of_ne hq hname) before after v v']
      exact hx
  others m' hm' := by
    refine Or.inl ?_
    rcases mem_cases_of_replaced hm' with hm | rfl
    · exact ⟨m', hm, rfl, fun _ => id⟩
    · refine ⟨(q, v), List.mem_append_right _ List.mem_cons_self, rfl, fun hunknown => ?_⟩
      exact absurd (List.mem_map_of_mem hf) (hunknown f.name hq).2

/-- A member that nobody knows keeps everything if it can still be passed over. -/
theorem kept_of_unknown (hq : site.Unknown (before ++ (q, v) :: after) q)
    (h : Passes mode v → Passes mode v') :
    Kept mode site.words (site.fields (before ++ (q, v) :: after)) (before ++ (q, v) :: after)
      (before ++ (q, v') :: after) where
  byWords word hword := by
    have hne : q.read ≠ .ok word := fun hread => (hq word hread).1 hword
    rw [valuesAt_replaced hne before after v v']
  byFields g hg x hx := by
    have hne : q.read ≠ .ok g.name := fun hread => (hq g.name hread).2 (List.mem_map_of_mem hg)
    rw [valuesAt_replaced hne before after v v']
    exact hx
  others m' hm' := by
    refine Or.inl ?_
    rcases mem_cases_of_replaced hm' with hm | rfl
    · exact ⟨m', hm, rfl, fun _ => id⟩
    · exact ⟨(q, v), List.mem_append_right _ List.mem_cons_self, rfl, fun _ => h⟩

end

/-! ## What is read stays the same -/

/-- Whatever is read at a place of one sketch is read of the other. -/
def Site.Preserves : Site → Sketch → Sketch → Prop
  | .document, v, v' => ∀ d, Loads v d → Loads v' d
  | .part s, v, v' => ∀ mode x, Reads mode s v x → Reads mode s v' x
  | .unread, v, v' => ∀ mode, Passes mode v → Passes mode v'

/-- The other parts are no objects. -/
theorem not_reads_object {mode : Mode} {s : Shape} (hrecord : s.record? = none) (hkind : s ≠ .kind)
    (hliteral : s ≠ .literal) {ms : List (Quotation × Sketch)} {fault : Option Fault}
    {x : s.Value} : ¬ Reads mode s (.object ms fault) x := by
  cases mode with
  | streamed =>
      cases s with
      | nodes =>
          rintro ⟨n, h⟩
          obtain ⟨vs, k, hvs, -⟩ := streamPart_nodes_eq_ok.mp h
          exact nomatch hvs
      | kind => exact absurd rfl hkind
      | span | node | optionalNode | invocation => exact nomatch hrecord
      | _ => exact (not_reads_of_not_opens rfl).2 ms fault
  | buffered =>
      rintro ⟨j, hj, h⟩
      obtain ⟨-, js, rfl, -⟩ := means_object.mp hj
      cases s with
      | kind => exact absurd rfl hkind
      | literal => exact absurd rfl hliteral
      | span | node | optionalNode | invocation => exact nomatch hrecord
      | _ => exact nomatch h

theorem kept_of_record {s : Shape} {c : Composed s.Value} (hrecord : s.record? = some c)
    {ms ms' : List (Quotation × Sketch)}
    (h : ∀ mode, (Site.part s).ReadsIn mode →
      Kept mode (Site.part s).words ((Site.part s).fields ms) ms ms')
    {mode : Mode} (hopens : mode.opens s = true) : Kept mode [] c.fields ms ms' := by
  cases s with
  | span | node | optionalNode | invocation =>
      obtain rfl := Option.some.inj hrecord
      exact h mode hopens
  | _ => exact nomatch hrecord

/-- **What an object gives depends on what is kept of its members.** -/
theorem preserves_object {site : Site} {ms ms' : List (Quotation × Sketch)}
    (h : ∀ mode, site.ReadsIn mode → Kept mode site.words (site.fields ms) ms ms') :
    site.Preserves (.object ms none) (.object ms' none) := by
  cases site with
  | document =>
      intro d hd
      obtain ⟨-, xs, hxs, hbuild⟩ := loads_object.mp hd
      exact loads_object.mpr ⟨rfl, xs, (h .streamed rfl).readsMembers hxs, hbuild⟩
  | unread => exact fun mode hpass => (h mode trivial).passes hpass
  | part s =>
      intro mode x hx
      cases hrecord : s.record? with
      | some c =>
          obtain ⟨hopens, -, xs, hxs, hbuild⟩ := (reads_record_object hrecord).mp hx
          have hkept := kept_of_record hrecord h hopens
          exact (reads_record_object hrecord).mpr
            ⟨hopens, rfl, xs, hkept.readsMembers hxs, hbuild⟩
      | none =>
          by_cases hkind : s = .kind
          · subst hkind
            obtain ⟨-, t, name, xs, htype, hname, hxs, hbuild⟩ := reads_kind_object.mp hx
            have hkept := h .buffered rfl
            -- the fields are those of the type that stands there before and after
            have hfields : (Site.part .kind).fields ms = kindFields name := by
              rw [Site.fields, htype, typedFields_of_tags hname]
            rw [hfields] at hkept
            have htype' := hkept.byWords "type" (List.mem_singleton_self _)
            rw [htype] at htype'
            exact reads_kind_object.mpr ⟨rfl, t, name, xs, List.perm_singleton.mp htype'.symm,
              hname, hkept.readsMembers hxs, hbuild⟩
          · by_cases hliteral : s = .literal
            · subst hliteral
              cases mode with
              | streamed => exact absurd hx ((not_reads_of_not_opens rfl).2 ms none)
              | buffered =>
                  have hkept := h .buffered rfl
                  obtain ⟨-, hpassed, hl⟩ := reads_literal_object.mp hx
                  exact reads_literal_object.mpr ⟨rfl, hkept.namesRead hpassed,
                    hl.perm (hkept.byWords "kind" (List.mem_pair.mpr (Or.inl rfl)))
                      (hkept.byWords "value" (List.mem_pair.mpr (Or.inr rfl)))⟩
            · exact absurd hx (not_reads_object hrecord hkind hliteral)

theorem item?_record {s : Shape} {c : Composed s.Value} (hrecord : s.record? = some c)
    {before : List Sketch} {site : Site} (h : (Site.part s).item? before = some site) :
    ∃ f, c.fields[before.length]? = some f ∧ site = .part f.shape := by
  cases s with
  | span | node | optionalNode | invocation =>
      obtain rfl := Option.some.inj hrecord
      obtain ⟨f, hf, rfl⟩ := Option.map_eq_some_iff.mp h
      exact ⟨f, hf, rfl⟩
  | _ => exact nomatch hrecord

/-- Two lists related entry by entry, seen from one entry. -/
theorem forall₂_append_cons_iff {α β : Type} {R : α → β → Prop} {before after : List α} {a : α}
    {bs : List β} :
    List.Forall₂ R (before ++ a :: after) bs ↔ ∃ left b right, bs = left ++ b :: right ∧
      List.Forall₂ R before left ∧ R a b ∧ List.Forall₂ R after right := by
  induction before generalizing bs with
  | nil =>
      rw [List.nil_append, List.forall₂_cons_left_iff]
      constructor
      · rintro ⟨b, right, hb, hright, rfl⟩
        exact ⟨[], b, right, rfl, .nil, hb, hright⟩
      · rintro ⟨left, b, right, rfl, hleft, hb, hright⟩
        obtain rfl := List.forall₂_nil_left_iff.mp hleft
        exact ⟨b, right, hb, hright, rfl⟩
  | cons first before ih =>
      rw [List.cons_append, List.forall₂_cons_left_iff]
      constructor
      · rintro ⟨b', bs, hfirst, hbs, rfl⟩
        obtain ⟨left, b, right, rfl, hleft, hb, hright⟩ := ih.mp hbs
        exact ⟨b' :: left, b, right, rfl, .cons hfirst hleft, hb, hright⟩
      · rintro ⟨left, b, right, rfl, hleft, hb, hright⟩
        obtain ⟨b', left', hfirst, hrest, rfl⟩ := List.forall₂_cons_left_iff.mp hleft
        exact ⟨b', _, hfirst, ih.mpr ⟨left', b, right, rfl, hrest, hb, hright⟩, rfl⟩

/-- What an array gives depends on what its items give. -/
theorem preserves_array {site site' : Site} {before after : List Sketch} {v v' : Sketch}
    (hsite : site.item? before = some site') (h : site'.Preserves v v') :
    site.Preserves (.array (before ++ v :: after) none) (.array (before ++ v' :: after) none) := by
  cases site with
  | document =>
      obtain ⟨f, hf, rfl⟩ := Option.map_eq_some_iff.mp hsite
      intro d hd
      obtain ⟨-, xs, hxs, hbuild⟩ := loads_array.mp hd
      exact loads_array.mpr ⟨rfl, xs, hxs.replace hf (h .streamed), hbuild⟩
  | unread =>
      obtain rfl := Option.some.inj hsite
      intro mode hpass
      have hall := passes_array.mp hpass
      refine passes_array.mpr fun w hw => ?_
      rcases List.mem_append.mp hw with hw | hw
      · exact hall w (List.mem_append_left _ hw)
      · rcases List.mem_cons.mp hw with rfl | hw
        · exact h mode (hall v (List.mem_append_right _ List.mem_cons_self))
        · exact hall w (List.mem_append_right _ (List.mem_cons_of_mem _ hw))
  | part s =>
      intro mode x hx
      cases hrecord : s.record? with
      | some c =>
          obtain ⟨hopens, -, xs, hxs, hbuild⟩ := (reads_record_array hrecord).mp hx
          obtain ⟨f, hf, rfl⟩ := item?_record hrecord hsite
          exact (reads_record_array hrecord).mpr
            ⟨hopens, rfl, xs, hxs.replace hf (h mode), hbuild⟩
      | none =>
          cases s with
          | nodes =>
              obtain rfl := Option.some.inj hsite
              obtain ⟨-, hns⟩ := reads_nodes_array.mp hx
              obtain ⟨left, n, right, rfl, hleft, hn, hright⟩ := forall₂_append_cons_iff.mp hns
              exact reads_nodes_array.mpr ⟨rfl, forall₂_append_cons_iff.mpr
                ⟨left, n, right, rfl, hleft, h mode n hn, hright⟩⟩
          | kind =>
              obtain ⟨-, t, rest, name, xs, hvs, hname, hxs, hbuild⟩ := reads_kind_array.mp hx
              cases before with
              | nil => exact nomatch hsite
              | cons t' before =>
                  obtain ⟨rfl, rfl⟩ := List.cons.inj hvs
                  obtain ⟨f, hf, rfl⟩ := Option.map_eq_some_iff.mp hsite
                  rw [typedFields_of_tags hname] at hf
                  exact reads_kind_array.mpr ⟨rfl, t', _, name, xs, rfl, hname,
                    hxs.replace hf (h .buffered), hbuild⟩
          | span | node | optionalNode | invocation => exact nomatch hrecord
          | _ => exact nomatch hsite

/-- **Whatever is read is read after a change as well.** -/
theorem Changed.preserves {site : Site} {v v' : Sketch} (h : Changed site v v') :
    site.Preserves v v' := by
  induction h with
  | reorder h => exact preserves_object fun _ _ => kept_of_perm h
  | insert h => exact preserves_object fun _ => kept_of_extended h
  | delete h => exact preserves_object fun _ => kept_of_extended_symm h
  | field hf hq _ ih => exact preserves_object fun mode _ => kept_of_field hf hq (ih mode)
  | unknown hq _ ih => exact preserves_object fun mode _ => kept_of_unknown hq (ih mode)
  | item hsite _ ih => exact preserves_array hsite ih

end CaskLint.Document
