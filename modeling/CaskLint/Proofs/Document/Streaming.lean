import CaskLint.Proofs.Document.RoundTrip
import CaskLint.Proofs.Json.Limits
import CaskLint.Proofs.Record.Order

/-!
# The outer parts of a document are streamed in any order

  Reading left to right, with a limit on the arrays and objects that are open, comes to conditions
  that know neither: a record is streamed from what stands under each name (`valuesAt`), whatever
  the order of the members (**`streamRecord_object_eq_ok`**), and so is a kind of node, whose type
  may stand anywhere (**`streamKind_object_eq_ok`**). The induction is over the members, in step
  with `Slots.assignAll` for a record (`streamSlots_eq_ok`), and with the type that has or has not
  come for a kind (`streamTagged_some_eq_ok`, `streamTagged_none_eq_ok`).

  The limit decides only whether a part is streamed (**`streamPart_of_depth_le`**).
-/

namespace CaskLint.Document

open Record Json

/-! ## Members by their names -/

/-- The values of the members with this name. -/
def valuesAt (ms : List (Quotation × Sketch)) (name : String) : List Sketch :=
  (ms.filter fun m => m.1.read.toOption == some name).map Prod.snd

theorem valuesAt_cons_of_eq {q : Quotation} {name : String} (h : q.read = .ok name) (v : Sketch)
    (ms : List (Quotation × Sketch)) : valuesAt ((q, v) :: ms) name = v :: valuesAt ms name := by
  simp [valuesAt, h]

theorem valuesAt_cons_of_ne {q : Quotation} {name : String} (h : q.read ≠ .ok name) (v : Sketch)
    (ms : List (Quotation × Sketch)) : valuesAt ((q, v) :: ms) name = valuesAt ms name := by
  have hname : (q.read.toOption == some name) = false := by
    rw [beq_eq_false_iff_ne]
    exact fun heq => h (toOption_eq_some.mp heq)
  simp [valuesAt, hname]

theorem valuesAt_append (ms ms' : List (Quotation × Sketch)) (name : String) :
    valuesAt (ms ++ ms') name = valuesAt ms name ++ valuesAt ms' name := by
  simp [valuesAt]

theorem mem_of_mem_valuesAt {ms : List (Quotation × Sketch)} {name : String} {v : Sketch}
    (h : v ∈ valuesAt ms name) : ∃ q, (q, v) ∈ ms ∧ q.read = .ok name := by
  obtain ⟨⟨q, v'⟩, hm, rfl⟩ := List.mem_map.mp h
  obtain ⟨hm, hname⟩ := List.mem_filter.mp hm
  exact ⟨q, hm, toOption_eq_some.mp (beq_iff_eq.mp hname)⟩

theorem mem_valuesAt {ms : List (Quotation × Sketch)} {m : Quotation × Sketch} {name : String}
    (hm : m ∈ ms) (hname : m.1.read = .ok name) : m.2 ∈ valuesAt ms name := by
  refine List.mem_map_of_mem (List.mem_filter.mpr ⟨hm, ?_⟩)
  rw [hname]
  exact beq_self_eq_true _

/-- Members whose names are read have under each name what they have there as sketches. -/
theorem forall₂_given {α : Type} {P : Sketch → α → Prop} {ms : List (Quotation × Sketch)}
    {ms' : List (String × α)}
    (h : List.Forall₂ (fun m m' => m.1.read = .ok m'.1 ∧ P m.2 m'.2) ms ms') (name : String) :
    List.Forall₂ P (valuesAt ms name) (given ms' name) := by
  induction h with
  | nil => exact .nil
  | @cons m m' ms ms' hm _ ih =>
      obtain ⟨q, v⟩ := m
      obtain ⟨name', w⟩ := m'
      obtain ⟨hread, hv⟩ := hm
      by_cases hname : name' = name
      · subst hname
        rw [valuesAt_cons_of_eq hread, given_cons_of_eq]
        exact .cons hv ih
      · have hne : q.read ≠ .ok name := by
          intro heq
          rw [hread] at heq
          exact hname (Except.ok.inj heq)
        rw [valuesAt_cons_of_ne hne, given_cons_of_ne hname]
        exact ih

/-! ## Records from sketches -/

/-- Every name can be read, and every member that no field and no word has can be passed over. -/
def NamesRead (passes : Sketch → Prop) (words : List String) (fs : Fields)
    (ms : List (Quotation × Sketch)) : Prop :=
  ∀ m ∈ ms, ∃ name, m.1.read = .ok name ∧
    (name ∉ words → name ∉ fs.map Field.name → passes m.2)

theorem namesRead_cons {passes : Sketch → Prop} {words : List String} {fs : Fields}
    {m : Quotation × Sketch} {ms : List (Quotation × Sketch)} :
    NamesRead passes words fs (m :: ms) ↔
      (∃ name, m.1.read = .ok name ∧ (name ∉ words → name ∉ fs.map Field.name → passes m.2)) ∧
        NamesRead passes words fs ms :=
  List.forall_mem_cons

theorem NamesRead.exists_named {passes : Sketch → Prop} {words : List String} {fs : Fields}
    {ms : List (Quotation × Sketch)} (h : NamesRead passes words fs ms) :
    ∃ ms' : List (String × Sketch),
      List.Forall₂ (fun m m' => m.1.read = .ok m'.1 ∧ m.2 = m'.2) ms ms' := by
  induction ms with
  | nil => exact ⟨[], .nil⟩
  | cons m ms ih =>
      obtain ⟨⟨name, hname, -⟩, hms⟩ := namesRead_cons.mp h
      obtain ⟨ms', hms'⟩ := ih hms
      exact ⟨(name, m.2) :: ms', .cons ⟨hname, rfl⟩ hms'⟩

theorem not_mem_names {fs : Fields} {name : String} :
    name ∉ fs.map Field.name ↔ ∀ f ∈ fs, f.name ≠ name := by
  constructor
  · rintro h f hf rfl
    exact h (List.mem_map_of_mem hf)
  · intro h hname
    obtain ⟨f, hf, rfl⟩ := List.mem_map.mp hname
    exact h f hf rfl

/-- Members are streamed like members whose names are known from the start; others are passed
    over. -/
theorem streamSlots_eq_ok {readAt : (s : Shape) → Sketch → Except ReadError s.Value} {fs : Fields}
    {ms : List (Quotation × Sketch)} {slots slots' : Slots Shape.Value fs} :
    streamSlots readAt fs slots ms = .ok slots' ↔
      NamesRead (fun v => v.skip = .ok ()) [] fs ms ∧ ∃ ms', List.Forall₂
        (fun m m' => m.1.read = .ok m'.1 ∧ m.2 = m'.2) ms ms' ∧
        Slots.assignAll .mismatch readAt fs slots ms' = .ok slots' := by
  induction ms generalizing slots with
  | nil =>
      constructor
      · intro h
        exact ⟨List.forall_mem_nil _, [], .nil, h⟩
      · rintro ⟨-, ms', hms, h⟩
        cases hms
        exact h
  | cons m ms ih =>
      obtain ⟨q, v⟩ := m
      rw [streamSlots, namesRead_cons]
      constructor
      · intro h
        obtain ⟨name, hname, h⟩ := bind_eq_ok.mp h
        rw [orFault_eq_ok] at hname
        cases hassign : Slots.assign? ReadError.mismatch name (fun s => readAt s v) fs slots with
        | none =>
            rw [hassign] at h
            obtain ⟨_, hskip, h⟩ := bind_eq_ok.mp h
            obtain ⟨hnames, ms', hms, hslots⟩ := ih.mp h
            refine ⟨⟨⟨name, hname, fun _ _ => orFault_eq_ok.mp hskip⟩, hnames⟩, (name, v) :: ms',
              .cons ⟨hname, rfl⟩ hms, ?_⟩
            rw [Slots.assignAll_of_none hassign]
            exact hslots
        | some assigned =>
            rw [hassign] at h
            obtain ⟨slots'', rfl, h⟩ := bind_eq_ok.mp h
            obtain ⟨hnames, ms', hms, hslots⟩ := ih.mp h
            -- the name is that of a field
            refine ⟨⟨⟨name, hname, fun _ hunknown => ?_⟩, hnames⟩, (name, v) :: ms',
              .cons ⟨hname, rfl⟩ hms, ?_⟩
            · rw [Slots.assign?_eq_none.mpr (not_mem_names.mp hunknown)] at hassign
              cases hassign
            · rw [Slots.assignAll_of_some hassign]
              exact hslots
      · rintro ⟨⟨⟨name, hname, hskip⟩, hnames⟩, ms', hms, hslots⟩
        obtain ⟨⟨name', v'⟩, ms'', ⟨hname', rfl⟩, hms', rfl⟩ := List.forall₂_cons_left_iff.mp hms
        obtain rfl : name = name' := Except.ok.inj (hname.symm.trans hname')
        refine bind_eq_ok.mpr ⟨name, orFault_eq_ok.mpr hname, ?_⟩
        cases hassign : Slots.assign? ReadError.mismatch name (fun s => readAt s v) fs slots with
        | none =>
            have hunknown := not_mem_names.mpr (Slots.assign?_eq_none.mp hassign)
            rw [Slots.assignAll_of_none hassign] at hslots
            exact bind_eq_ok.mpr ⟨(), orFault_eq_ok.mpr (hskip List.not_mem_nil hunknown),
              ih.mpr ⟨hnames, ms'', hms', hslots⟩⟩
        | some assigned =>
            rw [Slots.assignAll_of_some hassign] at hslots
            obtain ⟨slots'', rfl, hslots⟩ := bind_eq_ok.mp hslots
            exact ih.mpr ⟨hnames, ms'', hms', hslots⟩

theorem failOn_eq_ok {fault : Option Fault} {u : Unit} : failOn fault = .ok u ↔ fault = none := by
  cases fault with
  | none => exact ⟨fun _ => rfl, fun _ => rfl⟩
  | some f => exact ⟨fun h => (nomatch h), fun h => (nomatch h)⟩

/-- Where something should be closed there must be no fault. -/
theorem orFault_failOn_eq_ok {fault : Option Fault} {u : Unit} :
    orFault (failOn fault) = .ok u ↔ fault = none :=
  orFault_eq_ok.trans failOn_eq_ok

/-- Under each name there is the same, whether names are read before or on the way. -/
theorem given_eq_valuesAt {ms : List (Quotation × Sketch)} {ms' : List (String × Sketch)}
    (h : List.Forall₂ (fun m m' => m.1.read = .ok m'.1 ∧ m.2 = m'.2) ms ms') (name : String) :
    given ms' name = valuesAt ms name :=
  (List.forall₂_eq_eq_eq ▸ forall₂_given h name).symm

/-- **A record is streamed from its members in any order.** -/
theorem streamRecord_object_eq_ok {readAt : Stream} {label : String} {fs : Fields} {n : Nat}
    {ms : List (Quotation × Sketch)} {fault : Option Fault} {xs : Values Shape.Value fs}
    (hnames : (fs.map Field.name).Nodup) :
    streamRecord readAt label fs n (.object ms fault) = .ok xs ↔
      fault = none ∧ ∃ k, n = k + 1 ∧ NamesRead (fun v => v.skip = .ok ()) [] fs ms ∧
        RecordOf (fun s v x => readAt k s v = .ok x) (valuesAt ms) fs xs := by
  cases n with
  | zero =>
      constructor
      · intro h
        exact nomatch h
      · rintro ⟨-, k, h, -⟩
        exact nomatch h
  | succ n =>
      have hrecord : ∀ {ms' : List (String × Sketch)},
          List.Forall₂ (fun m m' => m.1.read = .ok m'.1 ∧ m.2 = m'.2) ms ms' →
          (ofMembers ReadError.mismatch (readAt n) fs ms' = .ok xs ↔
            RecordOf (fun s v x => readAt n s v = .ok x) (valuesAt ms) fs xs) := by
        intro ms' hms
        rw [ofMembers_eq_ok hnames, funext (given_eq_valuesAt hms)]
      constructor
      · intro h
        obtain ⟨slots, hslots, h⟩ := bind_eq_ok.mp h
        obtain ⟨_, hfault, h⟩ := bind_eq_ok.mp h
        obtain ⟨hread, ms', hms, hassign⟩ := streamSlots_eq_ok.mp hslots
        refine ⟨orFault_failOn_eq_ok.mp hfault, n, rfl, hread, (hrecord hms).mp ?_⟩
        exact bind_eq_ok.mpr ⟨slots, hassign, h⟩
      · rintro ⟨rfl, k, hk, hread, hxs⟩
        obtain rfl := Nat.succ.inj hk
        obtain ⟨ms', hms⟩ := hread.exists_named
        obtain ⟨slots, hassign, h⟩ := bind_eq_ok.mp ((hrecord hms).mpr hxs)
        exact bind_eq_ok.mpr ⟨slots, streamSlots_eq_ok.mpr ⟨hread, ms', hms, hassign⟩, h⟩

/-- A record given as an array is streamed item by item. -/
theorem streamItems_eq_ok {readAt : (s : Shape) → Sketch → Except ReadError s.Value}
    {label : String} {fault : Option Fault} {index : Nat} {fs : Fields} {vs : List Sketch}
    {xs : Values Shape.Value fs} :
    streamItems readAt label fault index fs vs = .ok xs ↔
      fault = none ∧ ItemsOf (fun s v x => readAt s v = .ok x) fs vs xs := by
  induction fs generalizing index vs with
  | nil =>
      cases vs with
      | nil =>
          constructor
          · intro h
            obtain ⟨_, hfault, -⟩ := bind_eq_ok.mp h
            exact ⟨orFault_failOn_eq_ok.mp hfault, rfl⟩
          · rintro ⟨rfl, -⟩
            rfl
      | cons v vs =>
          constructor
          · intro h
            exact nomatch h
          · rintro ⟨-, h⟩
            exact nomatch h
  | cons f fs ih =>
      obtain ⟨x, xs⟩ := xs
      cases vs with
      | nil =>
          constructor
          · intro h
            obtain ⟨_, hfault, h⟩ := bind_eq_ok.mp h
            exact ⟨orFault_failOn_eq_ok.mp hfault,
              standIns_eq_ok.mp (orMismatch_eq_ok.mp h)⟩
          · rintro ⟨rfl, h⟩
            exact bind_eq_ok.mpr ⟨(), rfl, orMismatch_eq_ok.mpr (standIns_eq_ok.mpr h)⟩
      | cons v vs =>
          constructor
          · intro h
            obtain ⟨y, hy, h⟩ := bind_eq_ok.mp h
            obtain ⟨ys, hys, h⟩ := bind_eq_ok.mp h
            obtain ⟨rfl, rfl⟩ := Prod.mk.inj (Except.ok.inj h)
            obtain ⟨hfault, hitems⟩ := ih.mp hys
            exact ⟨hfault, hy, hitems⟩
          · rintro ⟨hfault, hx, hitems⟩
            exact bind_eq_ok.mpr ⟨x, hx, bind_eq_ok.mpr ⟨xs, ih.mpr ⟨hfault, hitems⟩, rfl⟩⟩

theorem streamRecord_array_eq_ok {readAt : Stream} {label : String} {fs : Fields} {n : Nat}
    {vs : List Sketch} {fault : Option Fault} {xs : Values Shape.Value fs} :
    streamRecord readAt label fs n (.array vs fault) = .ok xs ↔
      fault = none ∧ ∃ k, n = k + 1 ∧
        ItemsOf (fun s v x => readAt k s v = .ok x) fs vs xs := by
  cases n with
  | zero =>
      constructor
      · intro h
        exact nomatch h
      · rintro ⟨-, k, h, -⟩
        exact nomatch h
  | succ n =>
      refine streamItems_eq_ok.trans (and_congr_right fun _ => ?_)
      constructor
      · intro h
        exact ⟨n, rfl, h⟩
      · rintro ⟨k, hk, h⟩
        obtain rfl := Nat.succ.inj hk
        exact h

/-- Only arrays and objects are records. -/
theorem eq_of_streamRecord {readAt : Stream} {label : String} {fs : Fields} {n : Nat}
    {sketch : Sketch} {xs : Values Shape.Value fs}
    (h : streamRecord readAt label fs n sketch = .ok xs) :
    (∃ vs fault, sketch = .array vs fault) ∨ ∃ ms fault, sketch = .object ms fault := by
  cases sketch with
  | array vs fault => exact Or.inl ⟨vs, fault, rfl⟩
  | object ms fault => exact Or.inr ⟨ms, fault, rfl⟩
  | _ =>
      rw [streamRecord.eq_def] at h
      cases n <;> exact absurd h streamWrongType_ne_ok

/-- A record that is streamed within a limit is the same within any limit that its depth allows, if
    its fields are. -/
theorem streamRecord_of_depth_le {readAt : Stream} {label : String} {fs : Fields}
    (hnames : (fs.map Field.name).Nodup)
    (hread : ∀ f ∈ fs, ∀ {n m : Nat} {v : Sketch} {x : f.shape.Value},
      readAt n f.shape v = .ok x → v.depth ≤ m → readAt m f.shape v = .ok x)
    {n m : Nat} {sketch : Sketch} {xs : Values Shape.Value fs}
    (h : streamRecord readAt label fs n sketch = .ok xs) (hm : sketch.depth ≤ m) :
    streamRecord readAt label fs m sketch = .ok xs := by
  rcases eq_of_streamRecord h with ⟨vs, fault, rfl⟩ | ⟨ms, fault, rfl⟩
  · obtain ⟨rfl, k, -, hitems⟩ := streamRecord_array_eq_ok.mp h
    obtain ⟨m, rfl⟩ := Nat.exists_eq_add_one_of_ne_zero (Nat.ne_zero_of_lt hm)
    refine streamRecord_array_eq_ok.mpr ⟨rfl, m, rfl, hitems.imp fun f hf v hv x hx => ?_⟩
    exact hread f hf hx (Nat.le_trans (depth_le_itemsDepth hv) (Nat.le_of_succ_le_succ hm))
  · obtain ⟨rfl, k, -, hpassed, hrecord⟩ := (streamRecord_object_eq_ok hnames).mp h
    obtain ⟨m, rfl⟩ := Nat.exists_eq_add_one_of_ne_zero (Nat.ne_zero_of_lt hm)
    refine (streamRecord_object_eq_ok hnames).mpr ⟨rfl, m, rfl, hpassed, ?_⟩
    refine hrecord.imp fun f hf x hx => hx.imp fun v hv hvx => ?_
    obtain ⟨q, hq, -⟩ := mem_of_mem_valuesAt hv
    exact hread f hf hvx (Nat.le_trans (depth_le_membersDepth hq) (Nat.le_of_succ_le_succ hm))

/-! ## Kinds from sketches -/

/-- The members of a kind of node other than its type. -/
def untyped (ms : List (Quotation × Sketch)) : List (Quotation × Sketch) :=
  ms.filter fun m => m.1.read.toOption != some "type"

theorem untyped_cons_of_eq {q : Quotation} (h : q.read = .ok "type") (v : Sketch)
    (ms : List (Quotation × Sketch)) : untyped ((q, v) :: ms) = untyped ms := by
  simp [untyped, h]

theorem untyped_cons_of_ne {q : Quotation} (h : q.read ≠ .ok "type") (v : Sketch)
    (ms : List (Quotation × Sketch)) : untyped ((q, v) :: ms) = (q, v) :: untyped ms := by
  have hname : (q.read.toOption != some "type") = true := by
    rw [bne_iff_ne]
    exact fun heq => h (toOption_eq_some.mp heq)
  simp [untyped, hname]

theorem membersDepth_untyped_le (ms : List (Quotation × Sketch)) :
    Sketch.membersDepth (untyped ms) ≤ Sketch.membersDepth ms := by
  induction ms with
  | nil => exact Nat.le_refl _
  | cons m ms ih =>
      obtain ⟨q, v⟩ := m
      by_cases h : q.read = .ok "type"
      · rw [untyped_cons_of_eq h, Sketch.membersDepth]
        omega
      · rw [untyped_cons_of_ne h, Sketch.membersDepth, Sketch.membersDepth]
        omega

/-- A type is streamed from a word. -/
theorem streamTag_eq_ok {t : Sketch} {name : KindName} :
    streamTag t = .ok name ↔
      ∃ q word, t = .text q ∧ q.read = .ok word ∧ kinds.ofText word = .ok name := by
  constructor
  · intro h
    cases t with
    | text q =>
        obtain ⟨word, hword, h⟩ := bind_eq_ok.mp h
        exact ⟨q, word, rfl, orFault_eq_ok.mp hword, orMismatch_eq_ok.mp h⟩
    | _ =>
        rw [streamTag.eq_def] at h
        exact absurd h streamWrongType_ne_ok
  · rintro ⟨q, word, rfl, hword, h⟩
    exact bind_eq_ok.mpr ⟨word, orFault_eq_ok.mpr hword, orMismatch_eq_ok.mpr h⟩

/-- The type is looked at as soon as it comes. -/
theorem streamTagged_type {n : Nat} {q : Quotation} (h : q.read = .ok "type") (v : Sketch)
    (ms : List (Quotation × Sketch)) :
    streamTagged n none ((q, v) :: ms) =
      streamTag v >>= fun name => streamTagged n (some name) ms := by
  rw [streamTagged, h]
  rfl

/-- A member that is not the type is one more value. -/
theorem streamTagged_cons_eq_ok {n : Nat} {tag tag' : Option KindName} {q : Quotation} {v : Sketch}
    {ms : List (Quotation × Sketch)} {values : List (String × Json)} (h : q.read ≠ .ok "type") :
    streamTagged n tag ((q, v) :: ms) = .ok (tag', values) ↔
      ∃ name value values', q.read = .ok name ∧ v.value n = .ok value ∧
        streamTagged n tag ms = .ok (tag', values') ∧ values = (name, value) :: values' := by
  rw [streamTagged]
  constructor
  · intro hms
    obtain ⟨name, hname, hms⟩ := bind_eq_ok.mp hms
    rw [orFault_eq_ok] at hname
    rw [if_neg (by rintro rfl; exact h hname)] at hms
    obtain ⟨value, hvalue, hms⟩ := bind_eq_ok.mp hms
    obtain ⟨⟨tag'', values'⟩, hrest, hms⟩ := bind_eq_ok.mp hms
    obtain ⟨rfl, rfl⟩ := Prod.mk.inj (Except.ok.inj hms)
    exact ⟨name, value, values', hname, orFault_eq_ok.mp hvalue, hrest, rfl⟩
  · rintro ⟨name, value, values', hname, hvalue, hrest, rfl⟩
    refine bind_eq_ok.mpr ⟨name, orFault_eq_ok.mpr hname, ?_⟩
    rw [if_neg (by rintro rfl; exact h hname)]
    exact bind_eq_ok.mpr ⟨value, orFault_eq_ok.mpr hvalue,
      bind_eq_ok.mpr ⟨(tag', values'), hrest, rfl⟩⟩

/-- After the type has come, no second one may follow. -/
theorem streamTagged_some_eq_ok {n : Nat} {name : KindName} {tag : Option KindName}
    {ms : List (Quotation × Sketch)} {values : List (String × Json)} :
    streamTagged n (some name) ms = .ok (tag, values) ↔
      tag = some name ∧ valuesAt ms "type" = [] ∧
        Sketch.memberValues n (untyped ms) = .ok values := by
  induction ms generalizing tag values with
  | nil =>
      constructor
      · intro h
        obtain ⟨rfl, rfl⟩ := Prod.mk.inj (Except.ok.inj h)
        exact ⟨rfl, rfl, rfl⟩
      · rintro ⟨rfl, -, h⟩
        obtain rfl := Except.ok.inj h
        rfl
  | cons m ms ih =>
      obtain ⟨q, v⟩ := m
      by_cases htype : q.read = .ok "type"
      · rw [streamTagged, htype, valuesAt_cons_of_eq htype]
        constructor
        · intro h
          cases h
        · rintro ⟨-, h, -⟩
          cases h
      · rw [streamTagged_cons_eq_ok htype, valuesAt_cons_of_ne htype, untyped_cons_of_ne htype,
          memberValues_cons_eq_ok]
        constructor
        · rintro ⟨name', value, values', hname, hvalue, hrest, rfl⟩
          obtain ⟨htag, hnone, hvalues⟩ := ih.mp hrest
          exact ⟨htag, hnone, name', value, values', hname, hvalue, hvalues, rfl⟩
        · rintro ⟨htag, hnone, name', value, values', hname, hvalue, hvalues, rfl⟩
          exact ⟨name', value, values', hname, hvalue, ih.mpr ⟨htag, hnone, hvalues⟩, rfl⟩

/-- The type may stand anywhere among the other members. -/
theorem streamTagged_none_eq_ok {n : Nat} {name : KindName} {ms : List (Quotation × Sketch)}
    {values : List (String × Json)} :
    streamTagged n none ms = .ok (some name, values) ↔
      (∃ t, valuesAt ms "type" = [t] ∧ streamTag t = .ok name) ∧
        Sketch.memberValues n (untyped ms) = .ok values := by
  induction ms generalizing values with
  | nil =>
      constructor
      · intro h
        exact nomatch h
      · rintro ⟨⟨t, h, -⟩, -⟩
        exact nomatch h
  | cons m ms ih =>
      obtain ⟨q, v⟩ := m
      by_cases htype : q.read = .ok "type"
      · rw [streamTagged_type htype, valuesAt_cons_of_eq htype, untyped_cons_of_eq htype]
        constructor
        · intro h
          obtain ⟨name', hname, h⟩ := bind_eq_ok.mp h
          obtain ⟨htag, hnone, hvalues⟩ := streamTagged_some_eq_ok.mp h
          obtain rfl := Option.some.inj htag
          exact ⟨⟨v, by rw [hnone], hname⟩, hvalues⟩
        · rintro ⟨⟨t, ht, hname⟩, hvalues⟩
          obtain ⟨rfl, hnone⟩ := List.cons.inj ht
          exact bind_eq_ok.mpr ⟨name, hname, streamTagged_some_eq_ok.mpr ⟨rfl, hnone, hvalues⟩⟩
      · rw [streamTagged_cons_eq_ok htype, valuesAt_cons_of_ne htype, untyped_cons_of_ne htype,
          memberValues_cons_eq_ok]
        constructor
        · rintro ⟨name', value, values', hname, hvalue, hrest, rfl⟩
          obtain ⟨htag, hvalues⟩ := ih.mp hrest
          exact ⟨htag, name', value, values', hname, hvalue, hvalues, rfl⟩
        · rintro ⟨htag, name', value, values', hname, hvalue, hvalues, rfl⟩
          exact ⟨name', value, values', hname, hvalue, ih.mpr ⟨htag, hvalues⟩, rfl⟩

theorem streamKind_object_eq_ok {n : Nat} {ms : List (Quotation × Sketch)} {fault : Option Fault}
    {k : Kind} :
    streamKind n (.object ms fault) = .ok k ↔
      fault = none ∧ ∃ m, n = m + 1 ∧ ∃ t name values xs, valuesAt ms "type" = [t] ∧
        streamTag t = .ok name ∧ Sketch.memberValues m (untyped ms) = .ok values ∧
        ofMembers id read (kindFields name) values = .ok xs ∧ buildKind name xs = k := by
  cases n with
  | zero =>
      constructor
      · intro h
        exact nomatch h
      · rintro ⟨-, m, h, -⟩
        exact nomatch h
  | succ n =>
      constructor
      · intro h
        obtain ⟨⟨tag, values⟩, hvalues, h⟩ := bind_eq_ok.mp h
        obtain ⟨_, hfault, h⟩ := bind_eq_ok.mp h
        cases tag with
        | none => exact nomatch h
        | some name =>
            obtain ⟨xs, hxs, hk⟩ := map_eq_ok.mp (orMismatch_eq_ok.mp h)
            obtain ⟨⟨t, ht, hname⟩, hvalues⟩ := streamTagged_none_eq_ok.mp hvalues
            rw [completed_readSlots] at hxs
            have hnone := orFault_failOn_eq_ok.mp hfault
            exact ⟨hnone, n, rfl, t, name, values, xs, ht, hname, hvalues, hxs, hk⟩
      · rintro ⟨rfl, m, hm, t, name, values, xs, ht, hname, hvalues, hxs, hk⟩
        obtain rfl := Nat.succ.inj hm
        refine bind_eq_ok.mpr ⟨(some name, values),
          streamTagged_none_eq_ok.mpr ⟨⟨t, ht, hname⟩, hvalues⟩, ?_⟩
        rw [← completed_readSlots] at hxs
        exact orMismatch_eq_ok.mpr (map_eq_ok.mpr ⟨xs, hxs, hk⟩)

theorem streamKind_array_eq_ok {n : Nat} {vs : List Sketch} {fault : Option Fault} {k : Kind} :
    streamKind n (.array vs fault) = .ok k ↔
      fault = none ∧ ∃ m, n = m + 1 ∧ ∃ t rest name values xs, vs = t :: rest ∧
        streamTag t = .ok name ∧ Sketch.values m rest = .ok values ∧
        readItems (kindLabel name) 0 (kindFields name) values = .ok xs ∧ buildKind name xs = k := by
  cases n with
  | zero =>
      constructor
      · intro h
        exact nomatch h
      · rintro ⟨-, m, h, -⟩
        exact nomatch h
  | succ n =>
      constructor
      · intro h
        cases vs with
        | nil =>
            obtain ⟨_, -, h⟩ := bind_eq_ok.mp h
            exact nomatch h
        | cons t rest =>
            obtain ⟨name, hname, h⟩ := bind_eq_ok.mp h
            obtain ⟨values, hvalues, h⟩ := bind_eq_ok.mp h
            obtain ⟨_, hfault, h⟩ := bind_eq_ok.mp h
            obtain ⟨xs, hxs, hk⟩ := map_eq_ok.mp (orMismatch_eq_ok.mp h)
            have hnone := orFault_failOn_eq_ok.mp hfault
            exact ⟨hnone, n, rfl, t, rest, name, values, xs, rfl, hname, orFault_eq_ok.mp hvalues,
              hxs, hk⟩
      · rintro ⟨rfl, m, hm, t, rest, name, values, xs, rfl, hname, hvalues, hxs, hk⟩
        obtain rfl := Nat.succ.inj hm
        exact bind_eq_ok.mpr ⟨name, hname, bind_eq_ok.mpr ⟨values, orFault_eq_ok.mpr hvalues,
          bind_eq_ok.mpr ⟨(), rfl, orMismatch_eq_ok.mpr (map_eq_ok.mpr ⟨xs, hxs, hk⟩)⟩⟩⟩

/-- Only arrays and objects are kinds of node. -/
theorem eq_of_streamKind {n : Nat} {v : Sketch} {k : Kind} (h : streamKind n v = .ok k) :
    (∃ vs fault, v = .array vs fault) ∨ ∃ ms fault, v = .object ms fault := by
  cases v with
  | array vs fault => exact Or.inl ⟨vs, fault, rfl⟩
  | object ms fault => exact Or.inr ⟨ms, fault, rfl⟩
  | _ =>
      rw [streamKind.eq_def] at h
      cases n <;> exact absurd h streamWrongType_ne_ok

/-! ## Parts within a limit -/

/-- Streams a part of a document, when `depth` more arrays and objects may be open. -/
def streamPart : Stream := fun depth s sketch =>
  match s with
  | .kind => streamKind depth sketch
  | .span => buildSpan <$> streamRecord streamInSpan Shape.span.label spanFields depth sketch
  | .node => streamNode depth sketch
  | .nodes => streamInDocument depth .nodes sketch
  | s => streamLeaf s sketch

theorem streamInSpan_eq_streamPart :
    ∀ f ∈ spanFields, ∀ n v, streamInSpan n f.shape v = streamPart n f.shape v := by
  intro f hf n v
  rcases List.mem_pair.mp hf with rfl | rfl <;> rfl

theorem streamInNode_eq_streamPart :
    ∀ f ∈ nodeFields, ∀ n v, streamInNode n f.shape v = streamPart n f.shape v := by
  intro f hf n v
  rcases List.mem_pair.mp hf with rfl | rfl <;> rfl

theorem streamInDocument_eq_streamPart :
    ∀ f ∈ fields, ∀ n v, streamInDocument n f.shape v = streamPart n f.shape v := by
  intro f hf n v
  rcases List.mem_cons.mp hf with rfl | hf
  · rfl
  · rcases List.mem_pair.mp hf with rfl | rfl <;> rfl

theorem streamNodes_eq_ok {n : Nat} {vs : List Sketch} {ns : List Node} :
    streamNodes n vs = .ok ns ↔ List.Forall₂ (fun v x => streamNode n v = .ok x) vs ns := by
  induction vs generalizing ns with
  | nil =>
      rw [List.forall₂_nil_left_iff]
      exact ⟨fun h => (Except.ok.inj h).symm, fun h => h ▸ rfl⟩
  | cons v vs ih =>
      rw [List.forall₂_cons_left_iff]
      constructor
      · intro h
        obtain ⟨x, hx, h⟩ := bind_eq_ok.mp h
        obtain ⟨xs, hxs, h⟩ := bind_eq_ok.mp h
        exact ⟨x, xs, hx, ih.mp hxs, (Except.ok.inj h).symm⟩
      · rintro ⟨x, xs, hx, hxs, rfl⟩
        exact bind_eq_ok.mpr ⟨x, hx, bind_eq_ok.mpr ⟨xs, ih.mpr hxs, rfl⟩⟩

/-- A list of nodes is streamed from an array. -/
theorem streamPart_nodes_eq_ok {n : Nat} {v : Sketch} {ns : List Node} :
    streamPart n .nodes v = .ok ns ↔ ∃ vs k, v = .array vs none ∧ n = k + 1 ∧
      List.Forall₂ (fun v x => streamPart k .node v = .ok x) vs ns := by
  constructor
  · intro h
    have h : streamInDocument n .nodes v = .ok ns := h
    cases v with
    | array vs fault =>
        cases n with
        | zero => exact nomatch h
        | succ n =>
            obtain ⟨ns', hns, h⟩ := bind_eq_ok.mp h
            obtain ⟨_, hfault, h⟩ := bind_eq_ok.mp h
            obtain rfl := Except.ok.inj h
            obtain rfl := orFault_failOn_eq_ok.mp hfault
            exact ⟨vs, n, rfl, rfl, streamNodes_eq_ok.mp hns⟩
    | _ =>
        rw [streamInDocument.eq_def] at h
        cases n <;> exact absurd h streamWrongType_ne_ok
  · rintro ⟨vs, k, rfl, rfl, h⟩
    exact bind_eq_ok.mpr ⟨ns, streamNodes_eq_ok.mpr h, rfl⟩

/-- A kind of node is the same within any limit that its depth allows. -/
theorem streamKind_of_depth_le {n m : Nat} {v : Sketch} {k : Kind} (h : streamKind n v = .ok k)
    (hm : v.depth ≤ m) : streamKind m v = .ok k := by
  rcases eq_of_streamKind h with ⟨vs, fault, rfl⟩ | ⟨ms, fault, rfl⟩
  · obtain ⟨rfl, n, rfl, t, rest, name, values, xs, rfl, hname, hvalues, hxs⟩ :=
      streamKind_array_eq_ok.mp h
    obtain ⟨m, rfl⟩ := Nat.exists_eq_add_one_of_ne_zero (Nat.ne_zero_of_lt hm)
    have hrest : Sketch.itemsDepth rest ≤ m :=
      Nat.le_trans (Nat.le_max_right ..) (Nat.le_of_succ_le_succ hm)
    exact streamKind_array_eq_ok.mpr ⟨rfl, m, rfl, t, rest, name, values, xs, rfl, hname,
      (stable_of_values hvalues).2 m hrest, hxs⟩
  · obtain ⟨rfl, n, rfl, t, name, values, xs, ht, hname, hvalues, hxs⟩ :=
      streamKind_object_eq_ok.mp h
    obtain ⟨m, rfl⟩ := Nat.exists_eq_add_one_of_ne_zero (Nat.ne_zero_of_lt hm)
    have hrest : Sketch.membersDepth (untyped ms) ≤ m :=
      Nat.le_trans (membersDepth_untyped_le ms) (Nat.le_of_succ_le_succ hm)
    exact streamKind_object_eq_ok.mpr ⟨rfl, m, rfl, t, name, values, xs, ht, hname,
      (stable_of_memberValues hvalues).2 m hrest, hxs⟩

theorem nodup_spanFields : (spanFields.map Field.name).Nodup := by decide

theorem nodup_nodeFields : (nodeFields.map Field.name).Nodup := by decide

theorem nodup_fields : (fields.map Field.name).Nodup := by decide

theorem nodup_invocationFields : (invocationFields.map Field.name).Nodup := by decide

/-- No kind of node has two fields of one name. -/
theorem nodup_kindFields (name : KindName) : ((kindFields name).map Field.name).Nodup := by
  cases name <;> decide

theorem streamSpan_of_depth_le {n m : Nat} {v : Sketch} {x : Span}
    (h : streamPart n .span v = .ok x) (hm : v.depth ≤ m) : streamPart m .span v = .ok x := by
  obtain ⟨xs, hxs, rfl⟩ := map_eq_ok.mp h
  -- the offsets are no arrays or objects, so no limit reaches them
  have hoffsets : ∀ f ∈ spanFields, ∀ {n m : Nat} {v : Sketch} {x : f.shape.Value},
      streamInSpan n f.shape v = .ok x → v.depth ≤ m → streamInSpan m f.shape v = .ok x :=
    fun _ _ _ _ _ _ h _ => h
  exact map_eq_ok.mpr ⟨xs, streamRecord_of_depth_le nodup_spanFields hoffsets hxs hm, rfl⟩

theorem streamNode_of_depth_le {n m : Nat} {v : Sketch} {x : Node}
    (h : streamPart n .node v = .ok x) (hm : v.depth ≤ m) : streamPart m .node v = .ok x := by
  obtain ⟨xs, hxs, rfl⟩ := map_eq_ok.mp h
  refine map_eq_ok.mpr ⟨xs, streamRecord_of_depth_le nodup_nodeFields ?_ hxs hm, rfl⟩
  intro f hf n m v x hx hm
  rcases List.mem_pair.mp hf with rfl | rfl
  · exact streamKind_of_depth_le hx hm
  · exact streamSpan_of_depth_le hx hm

/-- **A limit decides whether a part is streamed, and nothing else.** -/
theorem streamPart_of_depth_le {n m : Nat} {s : Shape} {v : Sketch} {x : s.Value}
    (h : streamPart n s v = .ok x) (hm : v.depth ≤ m) : streamPart m s v = .ok x := by
  cases s with
  | kind => exact streamKind_of_depth_le h hm
  | span => exact streamSpan_of_depth_le h hm
  | node => exact streamNode_of_depth_le h hm
  | nodes =>
      obtain ⟨vs, k, rfl, rfl, hns⟩ := streamPart_nodes_eq_ok.mp h
      obtain ⟨m, rfl⟩ := Nat.exists_eq_add_one_of_ne_zero (Nat.ne_zero_of_lt hm)
      refine streamPart_nodes_eq_ok.mpr ⟨vs, m, rfl, rfl, ?_⟩
      have hdepths : ∀ v ∈ vs, v.depth ≤ m := fun v hv =>
        Nat.le_trans (depth_le_itemsDepth hv) (Nat.le_of_succ_le_succ hm)
      exact ((List.forall₂_and_left vs _).mpr ⟨hdepths, hns⟩).imp fun v x h =>
        streamNode_of_depth_le h.2 h.1
  | _ => exact h

end CaskLint.Document
