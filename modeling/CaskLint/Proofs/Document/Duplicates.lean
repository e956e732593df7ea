import CaskLint.Proofs.Document.Doubled
import CaskLint.Proofs.Document.Faults
import CaskLint.Proofs.Document.Rearranged

/-!
# No member is silently overridden

  A text in which some object has a member twice does not load (`Doubled.refuses`). It also fails
  for its data and not for a fault of the text (**`Doubled.fails`**), and here the order counts. A
  member that comes later is noticed before its value is looked at (**`streamSlots_later`**). One
  that comes sooner is read like any other value; outside the kinds that is straight from the text,
  so an array in it may be too long (`Overlong`). Inside a kind everything is buffered first.

  The induction is over where the second member is; an object fails as its members do
  (`fails_object`) and an array as its items do (`fails_array`). With both results at hand a text
  fails as it should (**`ofText_doubled`**). That a longer array does make a difference is
  `ofText_longerSpan`.
-/

namespace CaskLint.Document

open Record Json

/-! ## Kinds fail for their data -/

theorem passes_inserted {before after : List (Quotation × Sketch)} {q : Quotation} {v : Sketch}
    {name : String} (hq : q.read = .ok name) (hv : v.sound = true)
    (h : Passes .buffered (.object (before ++ after) none)) :
    Passes .buffered (.object (before ++ (q, v) :: after) none) := by
  refine passes_object.mpr fun m hm => ?_
  rcases mem_append_cons_cases hm with hm | rfl
  · exact passes_object.mp h m hm
  · exact ⟨passesName_of_read hq, passes_of_sound hv⟩

/-- What comes of a value that means something means something. -/
theorem Doubled.passes {site : Site} {sooner : Option (Shape × Sketch)} {v v' : Sketch}
    (h : Doubled site sooner v v') (hv : Passes .buffered v) : Passes .buffered v' := by
  induction h with
  | word _ _ hq hv' | later _ _ hq hv' | sooner _ _ hq hv' => exact passes_inserted hq hv' hv
  | field _ hq _ ih =>
      have hmembers := passes_object.mp hv
      refine passes_object.mpr fun m hm => ?_
      rcases mem_cases_of_replaced hm with hm | rfl
      · exact hmembers m hm
      · exact ⟨passesName_of_read hq,
          ih (hmembers _ (List.mem_append_right _ List.mem_cons_self)).2⟩
  | item _ _ ih =>
      have hitems := passes_array.mp hv
      refine passes_array.mpr fun w hw => ?_
      rcases mem_cases_of_replaced hw with hw | rfl
      · exact hitems w hw
      · exact ih (hitems _ (List.mem_append_right _ List.mem_cons_self))

/-- A kind is buffered as a whole, so it means something. -/
theorem passes_of_reads_kind {v : Sketch} {k : Kind} (h : Reads .streamed .kind v k) :
    Passes .buffered v := by
  obtain ⟨j, hj, -⟩ := h.kind_buffered
  exact ⟨j, hj⟩

/-! ## Other parts fail for their data, unless something is too long -/

/-- Where something is streamed of one sketch at a place, the other fails in one of these ways. -/
def Site.Fails (P : ReadError → Prop) : Site → Sketch → Sketch → Prop
  | .document, v, v' => ∀ d, Loads v d → ∀ n, v'.depth ≤ n →
      FailsOnly P (streamRecord streamInDocument (recordLabel "CaskDocument") Document.fields n v')
  | .part s, v, v' => ∀ x, Reads .streamed s v x → ∀ n, v'.depth ≤ n →
      FailsOnly P (streamPart n s v')
  | .unread, _, _ => True

theorem streamSlots_append {readAt : (s : Shape) → Sketch → Except ReadError s.Value} {fs : Fields}
    (slots : Slots Shape.Value fs) (ms ms' : List (Quotation × Sketch)) :
    streamSlots readAt fs slots (ms ++ ms') =
      streamSlots readAt fs slots ms >>= fun slots => streamSlots readAt fs slots ms' := by
  induction ms generalizing slots with
  | nil => rfl
  | cons m ms ih =>
      obtain ⟨q, v⟩ := m
      rw [List.cons_append, streamSlots, streamSlots, bind_assoc]
      refine bind_congr fun name => ?_
      cases Slots.assign? ReadError.mismatch name (fun s => readAt s v) fs slots with
      | none => exact (bind_congr fun _ => ih slots).trans (bind_assoc ..).symm
      | some assigned => exact (bind_congr fun slots => ih slots).trans (bind_assoc ..).symm

theorem failsOnly_of_reads {P : ReadError → Prop} {s : Shape} {v : Sketch} {x : s.Value}
    (h : Reads .streamed s v x) {n : Nat} (hn : v.depth ≤ n) : FailsOnly P (streamPart n s v) := by
  obtain ⟨m, hm⟩ := h
  rw [streamPart_of_depth_le hm hn]
  exact failsOnly_ok x

section

variable {fs : Fields} (hnames : (fs.map Field.name).Nodup) {n : Nat}
  {before after ms ms' : List (Quotation × Sketch)} {q : Quotation} {v : Sketch}
  {f : Field Shape.Value} {xs : Values Shape.Value fs}

include hnames

/-- Members that are read are streamed within any limit that their depth allows. -/
theorem exists_streamSlots (hxs : ReadsMembers .streamed [] fs ms xs)
    (hn : Sketch.membersDepth ms ≤ n) :
    ∃ slots, streamSlots (streamPart n) fs (Slots.empty fs) ms = .ok slots := by
  have hrecord : streamRecord streamPart "" fs (n + 1) (.object ms none) = .ok xs := by
    refine (streamRecord_object_eq_ok hnames).mpr ⟨rfl, n, rfl, hxs.1, ?_⟩
    refine hxs.2.imp fun f hf x hx => hx.imp fun v hv hvx => ?_
    obtain ⟨m, hvx⟩ := hvx
    obtain ⟨q, hq, -⟩ := mem_of_mem_valuesAt hv
    exact streamPart_of_depth_le hvx (Nat.le_trans (depth_le_membersDepth hq) hn)
  obtain ⟨slots, hslots, -⟩ := bind_eq_ok.mp hrecord
  exact ⟨slots, hslots⟩

/-- **A member that comes later is noticed before its value is looked at.** -/
theorem streamSlots_later (hf : f ∈ fs) (hgiven : valuesAt before f.name ≠ [])
    (hq : q.read = .ok f.name) (hxs : ReadsMembers .streamed [] fs (before ++ after) xs)
    (hn : Sketch.membersDepth (before ++ after) ≤ n) :
    streamSlots (streamPart n) fs (Slots.empty fs) (before ++ (q, v) :: after) =
      .error (.mismatch (.duplicateMember f.name)) := by
  obtain ⟨slots, hslots⟩ := exists_streamSlots hnames hxs hn
  rw [streamSlots_append] at hslots ⊢
  obtain ⟨slots, hbefore, -⟩ := bind_eq_ok.mp hslots
  obtain ⟨-, named, hnamed, hassigned⟩ := streamSlots_eq_ok.mp hbefore
  have hnamedGiven : given named f.name ≠ [] := by
    rw [given_eq_valuesAt hnamed]
    exact hgiven
  rw [hbefore, ok_bind, streamSlots, orFault_eq_ok.mpr hq, ok_bind,
    assign?_of_given hnames hassigned hf hnamedGiven]
  rfl

variable {P : ReadError → Prop} (hP : ∀ m, P (.mismatch m))

include hP

/-- Members fail as the only one does that is not read. -/
theorem failsOnly_of_others (hxs : ReadsMembers .streamed [] fs ms xs) (hf : f ∈ fs)
    (hq : q.read = .ok f.name) (hms : ∀ m ∈ ms', m ∈ ms ∨ m = (q, v))
    (hv : FailsOnly P (streamPart n f.shape v)) (hn : Sketch.membersDepth ms' ≤ n) :
    FailsOnly P (streamSlots (streamPart n) fs (Slots.empty fs) ms') := by
  refine failsOnly_streamSlots hP (fun m hm => ?_) _
  rcases hms m hm with hread | rfl
  · obtain ⟨name, hname, hpass⟩ := hxs.1 m hread
    refine ⟨name, hname, hpass List.not_mem_nil, ?_⟩
    rintro g hg rfl
    -- the member was there before, as the only one of its name
    have hvalue := mem_valuesAt hread hname
    obtain ⟨x, -, ⟨w, hw, hx⟩ | ⟨hnone, -⟩⟩ := hxs.2.exists_entry hg
    · rw [hw, List.mem_singleton] at hvalue
      subst hvalue
      exact failsOnly_of_reads hx (Nat.le_trans (depth_le_membersDepth hm) hn)
    · rw [hnone] at hvalue
      exact nomatch hvalue
  · refine ⟨f.name, hq, fun hunknown => absurd (List.mem_map_of_mem hf) hunknown, ?_⟩
    intro g hg hname
    obtain rfl := List.inj_on_of_nodup_map hnames hg hf hname
    exact hv

end

section

variable {P : ReadError → Prop} (hP : ∀ m, P (.mismatch m))

include hP

/-- **What the members fail for the object does.** A kind fails for its data anyway. -/
theorem fails_object {site : Site} {ms ms' : List (Quotation × Sketch)}
    (hpass : Passes .buffered (.object ms none) → Passes .buffered (.object ms' none))
    (h : site ≠ .part .kind → ∀ xs n, ReadsMembers .streamed [] (site.fields ms) ms xs →
      Sketch.membersDepth ms' ≤ n →
      FailsOnly P (streamSlots (streamPart n) (site.fields ms) (Slots.empty _) ms')) :
    site.Fails P (.object ms none) (.object ms' none) := by
  cases site with
  | document =>
      intro d hd n hn
      obtain ⟨n, rfl⟩ := Nat.exists_eq_add_one_of_ne_zero (Nat.ne_zero_of_lt hn)
      obtain ⟨-, xs, hxs, -⟩ := loads_object.mp hd
      rw [streamRecord_congr streamInDocument_eq_streamPart]
      exact failsOnly_streamRecord_object hP (h nofun xs n hxs (Nat.le_of_succ_le_succ hn))
  | unread => trivial
  | part s =>
      intro x hx n hn
      cases hrecord : s.record? with
      | some c =>
          obtain ⟨n, rfl⟩ := Nat.exists_eq_add_one_of_ne_zero (Nat.ne_zero_of_lt hn)
          obtain ⟨hopens, -, xs, hxs, -⟩ := (reads_record_object hrecord).mp hx
          have hkind : Site.part s ≠ .part .kind := by
            rintro heq
            obtain rfl := Site.part.inj heq
            exact nomatch hrecord
          rw [Site.fields_of_record hrecord] at h
          rw [streamPart_eq_streamRecord hrecord hopens]
          exact (failsOnly_streamRecord_object hP
            (h hkind xs n hxs (Nat.le_of_succ_le_succ hn))).map c.build
      | none =>
          by_cases hkind : s = .kind
          · subst hkind
            exact failsOnly_streamKind hP (hpass (passes_of_reads_kind hx)) hn
          by_cases hliteral : s = .literal
          · subst hliteral
            exact absurd hx ((not_reads_of_not_opens rfl).2 ms none)
          · exact absurd hx (not_reads_object hrecord hkind hliteral)

/-- Items fail as the only one does that is not read. -/
theorem failsOnly_of_item {fs : Fields} {before after : List Sketch} {v v' : Sketch}
    {f : Field Shape.Value} {xs : Values Shape.Value fs} {label : String} {n : Nat}
    (hf : fs[before.length]? = some f)
    (h : ∀ x, Reads .streamed f.shape v x → ∀ n, v'.depth ≤ n →
      FailsOnly P (streamPart n f.shape v'))
    (hxs : ItemsOf (Reads .streamed) fs (before ++ v :: after) xs)
    (hn : Sketch.itemsDepth (before ++ v' :: after) ≤ n) :
    FailsOnly P
      (streamRecord streamPart label fs (n + 1) (.array (before ++ v' :: after) none)) := by
  refine failsOnly_streamItems hP (fun hlong => ?_) fun i g w hg hw => ?_
  · have hlength := hxs.length_le
    simp only [List.length_append, List.length_cons] at hlong hlength
    omega
  · have hdepth := Nat.le_trans (depth_le_itemsDepth (List.mem_of_getElem? hw)) hn
    -- only the item at the position of the change is another one
    by_cases hi : i = before.length
    · subst hi
      obtain rfl := Option.some.inj (hf.symm.trans hg)
      rw [getElem?_append_cons_self] at hw
      obtain rfl := Option.some.inj hw
      obtain ⟨x, -, hx⟩ := hxs.exists_entry hf (getElem?_append_cons_self before after v)
      exact h x hx n hdepth
    · rw [getElem?_append_cons_of_ne hi v] at hw
      obtain ⟨x, -, hx⟩ := hxs.exists_entry hg hw
      exact failsOnly_of_reads hx hdepth

/-- **What an item fails for the array does.** -/
theorem fails_array {site site' : Site} {before after : List Sketch} {v v' : Sketch}
    (hpass : Passes .buffered (.array (before ++ v :: after) none) →
      Passes .buffered (.array (before ++ v' :: after) none))
    (hsite : site.item? before = some site') (h : site ≠ .part .kind → site'.Fails P v v') :
    site.Fails P (.array (before ++ v :: after) none) (.array (before ++ v' :: after) none) := by
  cases site with
  | document =>
      obtain ⟨f, hf, rfl⟩ := Option.map_eq_some_iff.mp hsite
      intro d hd n hn
      obtain ⟨n, rfl⟩ := Nat.exists_eq_add_one_of_ne_zero (Nat.ne_zero_of_lt hn)
      obtain ⟨-, xs, hxs, -⟩ := loads_array.mp hd
      rw [streamRecord_congr streamInDocument_eq_streamPart]
      exact failsOnly_of_item hP hf (h nofun) hxs (Nat.le_of_succ_le_succ hn)
  | unread => trivial
  | part s =>
      intro x hx n hn
      by_cases hkind : s = .kind
      · subst hkind
        exact failsOnly_streamKind hP (hpass (passes_of_reads_kind hx)) hn
      have hkind : Site.part s ≠ .part .kind := fun heq => hkind (Site.part.inj heq)
      obtain ⟨n, rfl⟩ := Nat.exists_eq_add_one_of_ne_zero (Nat.ne_zero_of_lt hn)
      cases hrecord : s.record? with
      | some c =>
          obtain ⟨f, hf, rfl⟩ := item?_record hrecord hsite
          obtain ⟨hopens, -, xs, hxs, -⟩ := (reads_record_array hrecord).mp hx
          rw [streamPart_eq_streamRecord hrecord hopens]
          exact (failsOnly_of_item hP hf (h hkind) hxs (Nat.le_of_succ_le_succ hn)).map c.build
      | none =>
          cases s with
          | nodes =>
              obtain rfl := Option.some.inj hsite
              obtain ⟨-, hns⟩ := reads_nodes_array.mp hx
              refine failsOnly_streamPart_nodes fun w hw => ?_
              have hdepth := Nat.le_trans (depth_le_itemsDepth hw) (Nat.le_of_succ_le_succ hn)
              rcases mem_cases_of_replaced hw with hread | rfl
              · obtain ⟨x, hx⟩ := exists_of_forall₂ hns hread
                exact failsOnly_of_reads hx hdepth
              · obtain ⟨x, hx⟩ :=
                  exists_of_forall₂ hns (List.mem_append_right _ List.mem_cons_self)
                exact h hkind x hx n hdepth
          | kind => exact absurd rfl hkind
          | span | node | optionalNode | invocation => exact nomatch hrecord
          | _ => exact nomatch hsite

/-- No part that is streamed has a member that says how the others are read. -/
theorem fails_word {site : Site} {word : String} {ms ms' : List (Quotation × Sketch)}
    (hword : word ∈ site.words)
    (hpass : Passes .buffered (.object ms none) → Passes .buffered (.object ms' none)) :
    site.Fails P (.object ms none) (.object ms' none) := by
  cases site with
  | document | unread => exact nomatch hword
  | part s =>
      cases s with
      | kind => exact fun k hk n hn => failsOnly_streamKind hP (hpass (passes_of_reads_kind hk)) hn
      | literal => exact fun l hl => absurd hl ((not_reads_of_not_opens rfl).2 ms none)
      | _ => exact nomatch hword

/-- **A member that is there twice fails for its data**, unless the one that comes sooner is too
    long. -/
theorem Doubled.fails {site : Site} {sooner : Option (Shape × Sketch)} {v v' : Sketch}
    (h : Doubled site sooner v v')
    (hlong : ∀ p ∈ sooner, Overlong p.1 p.2 → P (.fault .malformed)) : site.Fails P v v' := by
  induction h with
  | word hword hgiven hq hv => exact fails_word hP hword (Doubled.word hword hgiven hq hv).passes
  | @later site before after q v f hf hgiven hq hv =>
      refine fails_object hP (Doubled.later hf hgiven hq hv).passes fun _ xs n hxs hn => ?_
      -- without the new member the others nest no deeper, so they are read up to it
      have hold := Nat.le_trans
        (membersDepth_le_of_subset (append_subset_append_cons before after (q, v))) hn
      rw [streamSlots_later (site.nodup_fields _) hf hgiven hq hxs hold]
      exact failsOnly_error (hP _)
  | @sooner site before after q v f hf hgiven hq hv =>
      refine fails_object hP (Doubled.sooner hf hgiven hq hv).passes fun hkind xs n hxs hn => ?_
      rw [Site.outside_of_ne hkind] at hlong
      refine failsOnly_of_others (site.nodup_fields _) hP hxs hf hq
        (fun m => mem_append_cons_cases) ?_ hn
      have hmem : (q, v) ∈ before ++ (q, v) :: after := List.mem_append_right _ List.mem_cons_self
      have hdepth := Nat.le_trans (depth_le_membersDepth hmem) hn
      exact failsOnly_streamPart hP (passes_of_sound hv) hdepth (hlong _ rfl)
  | @field site before after q v v' f sooner hf hq h ih =>
      refine fails_object hP (Doubled.field hf hq h).passes fun hkind xs n hxs hn => ?_
      rw [Site.outside_of_ne hkind] at hlong
      -- the value was read before, so the failure is that of the second member in it
      obtain ⟨x, -, hx⟩ := hxs.2.exists_entry hf
      rw [valuesAt_append_cons_of_eq hq] at hx
      refine failsOnly_of_others (site.nodup_fields _) hP hxs hf hq
        (fun m => mem_cases_of_replaced) ?_ hn
      have hmem : (q, v') ∈ before ++ (q, v') :: after :=
        List.mem_append_right _ List.mem_cons_self
      exact ih hlong x hx.of_append_cons.2.2 n (Nat.le_trans (depth_le_membersDepth hmem) hn)
  | @item site site' before after v v' sooner hsite h ih =>
      refine fails_array hP (Doubled.item hsite h).passes hsite fun hkind => ?_
      rw [Site.outside_of_ne hkind] at hlong
      exact ih hlong

end

/-! ## Texts -/

/-- One text comes of another by giving some object a member once more; blanks do not matter. -/
def TextDoubled (sooner : Option (Shape × Sketch)) (text text' : String) : Prop :=
  ∃ s s', Spells text s ∧ Doubled .document sooner s s' ∧ Spells text' s'

/-- **No member is silently overridden**: a text in which a member is there twice does not load. It
    fails for its data, unless the member that comes sooner is streamed and too long. -/
theorem ofText_doubled {text text' : String} {d : Document} (h : ofText text = .ok d)
    {sooner : Option (Shape × Sketch)} (hdoubled : TextDoubled sooner text text')
    (hnesting : nesting text' ≤ 127) :
    ∃ e, ofText text' = .error e ∧
      ((∃ m, e = .mismatch m) ∨ e = .fault .malformed ∧ ∃ p ∈ sooner, Overlong p.1 p.2) := by
  obtain ⟨s, s', hs, hdoubled, hs'⟩ := hdoubled
  rw [ofText, outline_of_spells hs] at h
  have hloads := (loads_of_ofOutline h).2
  rw [nesting_of_spells hs'] at hnesting
  rw [ofText, outline_of_spells hs']
  cases hload : ofOutline ⟨s', false⟩ with
  | ok d' => exact absurd (loads_of_ofOutline hload).2 (hdoubled.refuses d d' hloads)
  | error e =>
      let P : ReadError → Prop := fun e =>
        (∃ m, e = .mismatch m) ∨ e = .fault .malformed ∧ ∃ p ∈ sooner, Overlong p.1 p.2
      have hfails : Site.document.Fails P s s' :=
        hdoubled.fails (fun m => Or.inl ⟨m, rfl⟩) fun p hp hlong => Or.inr ⟨rfl, p, hp, hlong⟩
      have hall : FailsOnly P (ofOutline ⟨s', false⟩) :=
        (hfails d hloads maxDepth hnesting).bind fun _ _ => failsOnly_ok _
      exact ⟨e, rfl, hall e hload⟩

/-- A document with one statement that has these members. -/
def statementWith (members : List (String × Json)) : Json :=
  .object [("token", .text "t"), ("body", .array [.object members])]

theorem Doubled.statementWith {sooner : Option (Shape × Sketch)}
    {members members' : List (String × Json)}
    (h : Doubled (.part .node) sooner (Json.object members).sketch (Json.object members').sketch) :
    Doubled .document sooner (statementWith members).sketch (statementWith members').sketch := by
  have hnodes : Doubled (.part .nodes) sooner (Json.array [.object members]).sketch
      (Json.array [.object members']).sketch :=
    @Doubled.item (.part .nodes) _ [] [] _ _ _ rfl h
  exact @Doubled.field .document [(quoted "token", .text (quoted "t"))] [] _ _ _ fields[2] _
    (.tail _ (.tail _ (.head _))) (read_quoted "body") hnodes

/-- The type of a kind once more, before the one that is there. -/
theorem textDoubled_type :
    TextDoubled none (oneStatement callMembers).compact
      (oneStatement (("type", .text "begin") :: callMembers)).compact := by
  refine ⟨_, _, spells_compact _, ?_, spells_compact _⟩
  have hkind : Doubled (.part .kind) none (Json.object callMembers).sketch
      (Json.object (("type", .text "begin") :: callMembers)).sketch :=
    @Doubled.word (.part .kind) [] (memberSketches callMembers) (quoted "type") _ "type"
      (List.mem_singleton_self _) (by decide) (read_quoted "type") (by decide)
  have hnode : Doubled (.part .node) none (Json.object [("kind", .object callMembers)]).sketch
      (Json.object [("kind", .object (("type", .text "begin") :: callMembers))]).sketch :=
    @Doubled.field (.part .node) [] [] _ _ _ nodeFields[0] _ List.mem_cons_self
      (read_quoted "kind") hkind
  exact hnode.statementWith

theorem ofText_doubled_type :
    let text := (oneStatement callMembers).compact
    let text' := (oneStatement (("type", .text "begin") :: callMembers)).compact
    ofText text = .ok callDocument ∧ TextDoubled none text text' ∧ nesting text' ≤ 127 ∧
      ∃ m, ofText text' = .error (.mismatch m) := by
  intro text text'
  have hload : ofText text = .ok callDocument := by
    rw [ofText, outline_compact]
    rfl
  have hnesting : nesting text' ≤ 127 := by
    rw [nesting_of_spells (spells_compact _)]
    decide
  refine ⟨hload, textDoubled_type, hnesting, ?_⟩
  obtain ⟨e, he, ⟨m, rfl⟩ | ⟨-, p, hp, -⟩⟩ := ofText_doubled hload textDoubled_type hnesting
  · exact ⟨m, he⟩
  · cases hp

/-! ## A member that is too long -/

/-- The members of a statement that calls a method and has a span. -/
def spannedMembers : List (String × Json) :=
  [("kind", .object callMembers), ("span", .array [.integer 1, .integer 2])]

/-- **Where the member that comes sooner is too long it is a fault of the text**: in a statement
    with a span of three numbers before its own span of two. -/
theorem ofText_longerSpan :
    let span : Json := .array [.integer 1, .integer 2, .integer 3]
    let text := (statementWith spannedMembers).compact
    let text' := (statementWith (("span", span) :: spannedMembers)).compact
    (∃ d, ofText text = .ok d) ∧ TextDoubled (some (.span, span.sketch)) text text' ∧
      nesting text' ≤ 127 ∧ ofText text' = .error (.fault .malformed) := by
  intro span text text'
  refine ⟨⟨⟨"t", none, [⟨.send ⟨none, "m", []⟩, ⟨1, 2⟩⟩]⟩, ?_⟩, ?_, ?_, ?_⟩
  · rw [ofText, outline_compact]
    rfl
  · refine ⟨_, _, spells_compact _, Doubled.statementWith ?_, spells_compact _⟩
    exact @Doubled.sooner (.part .node) [] (memberSketches spannedMembers) (quoted "span")
      span.sketch nodeFields[1] (.tail _ (.head _)) (by decide) (read_quoted "span")
      (by decide)
  · rw [nesting_of_spells (spells_compact _)]
    decide
  · rw [ofText, outline_compact]
    rfl

end CaskLint.Document
