import CaskLint.Proofs.Document.Arrangement

/-!
# Well-formed values fail for their data

  Where a value is read straight from the text, a fault wins over every mismatch. A value that means
  something (`Sketch.sound_iff`) has no fault of its own, and within the limit of open arrays and
  objects there is only one way left to fail for one: an array that stands for a span or a node and
  goes on after the last field (**`Overlong`**). So how such a value fails is told by the ways in
  which its fields do (**`failsOnly_streamPart`**).

  Kinds of node are buffered, so they are never at fault (`failsOnly_streamKind`). That leaves
  records, whose members may come in any order and any number (`failsOnly_streamSlots`, by induction
  on the members, whatever has been read before them), and lists of nodes.
-/

namespace CaskLint.Document

open Record Json

/-! ## Records whose fields are parts -/

section

variable {fs : Fields}

theorem streamSlots_congr {readAt readAt' : (s : Shape) → Sketch → Except ReadError s.Value}
    (h : ∀ f ∈ fs, ∀ v, readAt f.shape v = readAt' f.shape v) (slots : Slots Shape.Value fs)
    (ms : List (Quotation × Sketch)) :
    streamSlots readAt fs slots ms = streamSlots readAt' fs slots ms := by
  induction ms generalizing slots with
  | nil => rfl
  | cons m ms ih =>
      obtain ⟨q, v⟩ := m
      have hassign : ∀ name, Slots.assign? ReadError.mismatch name (fun s => readAt s v) fs slots =
          Slots.assign? ReadError.mismatch name (fun s => readAt' s v) fs slots := by
        intro name
        rcases Slots.assign?_cases ReadError.mismatch name slots with
          hnone | hset | ⟨f, hf, -, put, hput⟩
        · rw [hnone, hnone]
        · rw [hset, hset]
        · rw [hput, hput, h f hf v]
      simp only [streamSlots, hassign, ih]

theorem streamItems_congr {readAt readAt' : (s : Shape) → Sketch → Except ReadError s.Value}
    (h : ∀ f ∈ fs, ∀ v, readAt f.shape v = readAt' f.shape v) (label : String)
    (fault : Option Fault) (index : Nat) (vs : List Sketch) :
    streamItems readAt label fault index fs vs = streamItems readAt' label fault index fs vs := by
  induction fs generalizing index vs with
  | nil => cases vs <;> rfl
  | cons f fs ih =>
      obtain ⟨hf, hfs⟩ := List.forall_mem_cons.mp h
      cases vs with
      | nil => rfl
      | cons v vs => rw [streamItems, streamItems, hf v, ih hfs]

/-- A record depends on nothing but how its own fields are read. -/
theorem streamRecord_congr {readAt readAt' : Stream}
    (h : ∀ f ∈ fs, ∀ n v, readAt n f.shape v = readAt' n f.shape v) (label : String) (n : Nat)
    (v : Sketch) : streamRecord readAt label fs n v = streamRecord readAt' label fs n v := by
  cases n with
  | zero => cases v <;> rfl
  | succ n =>
      cases v with
      | array vs fault => exact streamItems_congr (fun f hf => h f hf n) label fault 0 vs
      | object ms fault =>
          rw [streamRecord, streamRecord, streamSlots_congr fun f hf => h f hf n]
      | _ => rfl

end

/-- The fields of a span and of a node are parts themselves. -/
theorem streamPart_eq_streamRecord {s : Shape} {c : Composed s.Value} (h : s.record? = some c)
    (hopens : Mode.streamed.opens s = true) (n : Nat) (v : Sketch) :
    streamPart n s v = c.build <$> streamRecord streamPart s.label c.fields n v := by
  obtain ⟨readAt, hread, hpart⟩ := streamPart_record h hopens
  rw [hpart, streamRecord_congr hread]

/-! ## What records fail for -/

section

variable {P : ReadError → Prop} (hP : ∀ m, P (.mismatch m))

include hP

theorem failsOnly_orMismatch {α : Type} (x : Except Mismatch α) : FailsOnly P (orMismatch x) :=
  failsOnly_mapError hP x

variable {fs : Fields} {readAt : (s : Shape) → Sketch → Except ReadError s.Value}

/-- Every member can be read or passed over, or fails in one of these ways. -/
def MembersFailOnly (P : ReadError → Prop)
    (readAt : (s : Shape) → Sketch → Except ReadError s.Value) (fs : Fields)
    (ms : List (Quotation × Sketch)) : Prop :=
  ∀ m ∈ ms, ∃ name, m.1.read = .ok name ∧ (name ∉ fs.map Field.name → m.2.skip = .ok ()) ∧
    ∀ f ∈ fs, f.name = name → FailsOnly P (readAt f.shape m.2)

/-- Members fail as one of them does, whatever has been read before them. -/
theorem failsOnly_streamSlots {ms : List (Quotation × Sketch)}
    (h : MembersFailOnly P readAt fs ms) (slots : Slots Shape.Value fs) :
    FailsOnly P (streamSlots readAt fs slots ms) := by
  induction ms generalizing slots with
  | nil => exact failsOnly_ok _
  | cons m ms ih =>
      obtain ⟨q, v⟩ := m
      obtain ⟨⟨name, hname, hskip, hfields⟩, hms⟩ := List.forall_mem_cons.mp h
      rw [streamSlots]
      refine failsOnly_ok_bind (orFault_eq_ok.mpr hname) ?_
      rcases Slots.assign?_cases ReadError.mismatch name slots with
        hnone | hset | ⟨f, hf, hfname, put, hput⟩
      · have hunknown := not_mem_names.mpr (Slots.assign?_eq_none.mp (hnone fun s => readAt s v))
        rw [hnone]
        exact failsOnly_ok_bind (orFault_eq_ok.mpr (hskip hunknown)) (ih hms slots)
      · rw [hset]
        exact failsOnly_error (hP _)
      · rw [hput]
        exact ((hfields f hf hfname).map put).bind fun slots _ => ih hms slots

/-- A record given as an object fails as its members do. -/
theorem failsOnly_streamRecord_object {label : String} {n : Nat}
    {ms : List (Quotation × Sketch)}
    (h : FailsOnly P (streamSlots (streamPart n) fs (Slots.empty fs) ms)) :
    FailsOnly P (streamRecord streamPart label fs (n + 1) (.object ms none)) :=
  h.bind fun _ _ => failsOnly_ok_bind rfl (failsOnly_orMismatch hP _)

/-- Items fail as one of them does, unless there are too many. -/
theorem failsOnly_streamItems {label : String} {index : Nat} {vs : List Sketch}
    (hlong : fs.length < vs.length → P (.fault .malformed))
    (h : ∀ (i : Nat) f v, fs[i]? = some f → vs[i]? = some v → FailsOnly P (readAt f.shape v)) :
    FailsOnly P (streamItems readAt label none index fs vs) := by
  induction fs generalizing index vs with
  | nil =>
      cases vs with
      | nil => exact failsOnly_ok _
      | cons v vs => exact failsOnly_error (hlong (Nat.zero_lt_succ _))
  | cons f fs ih =>
      cases vs with
      | nil => exact failsOnly_orMismatch hP _
      | cons v vs =>
          refine (h 0 f v rfl rfl).bind fun x _ => ?_
          refine (ih (fun hlt => hlong (Nat.succ_lt_succ hlt)) fun i => ?_).bind fun _ _ =>
            failsOnly_ok _
          exact h (i + 1)

/-! ## What kinds fail for -/

/-- What means something is of the wrong type, at worst. -/
theorem failsOnly_streamWrongType {α : Type} {expected : String} {v : Sketch}
    (hv : Passes .buffered v) : FailsOnly P (streamWrongType expected v : Except ReadError α) := by
  obtain ⟨j, hj⟩ := hv
  cases v with
  | array vs fault | object ms fault => exact failsOnly_error (hP _)
  | _ => exact failsOnly_ok_bind (orFault_eq_ok.mpr hj) (failsOnly_orMismatch hP _)

theorem failsOnly_streamLeaf {s : Shape} {v : Sketch} (hv : Passes .buffered v) :
    FailsOnly P (streamLeaf s v) := by
  obtain ⟨j, hj⟩ := hv
  cases v with
  | array vs fault | object ms fault => exact failsOnly_error (hP _)
  | _ => exact failsOnly_ok_bind (orFault_eq_ok.mpr hj) (failsOnly_orMismatch hP _)

theorem failsOnly_streamTag {v : Sketch} (hv : Passes .buffered v) : FailsOnly P (streamTag v) := by
  cases v with
  | text q =>
      obtain ⟨j, hj⟩ := hv
      obtain ⟨word, hword, -⟩ := map_eq_ok.mp hj
      exact failsOnly_ok_bind (orFault_eq_ok.mpr hword) (failsOnly_orMismatch hP _)
  | _ => exact failsOnly_streamWrongType hP hv

/-- Members that mean something are buffered without a fault; their type may be wrong. -/
theorem failsOnly_streamTagged {n : Nat} {ms : List (Quotation × Sketch)}
    {js : List (String × Json)} (h : List.Forall₂ MemberMeans ms js)
    (hn : Sketch.membersDepth ms ≤ n) (tag : Option KindName) :
    FailsOnly P (streamTagged n tag ms) := by
  induction h generalizing tag with
  | nil => exact failsOnly_ok _
  | @cons m j ms js hm _ ih =>
      obtain ⟨q, v⟩ := m
      obtain ⟨hname, hv⟩ := hm
      obtain ⟨hdepth, hdepths⟩ := Nat.max_le.mp hn
      refine failsOnly_ok_bind (orFault_eq_ok.mpr hname) ?_
      by_cases htype : j.1 = "type"
      · rw [if_pos htype]
        cases tag with
        | some tag => exact failsOnly_error (hP _)
        | none => exact (failsOnly_streamTag hP ⟨j.2, hv⟩).bind fun tag _ => ih hdepths (some tag)
      · rw [if_neg htype]
        refine failsOnly_ok_bind (orFault_eq_ok.mpr (value_eq_ok.mpr ⟨hdepth, hv⟩)) ?_
        exact (ih hdepths tag).bind fun _ _ => failsOnly_ok _

/-- A kind that means something does not fail for a fault, whatever it is. -/
theorem failsOnly_streamKind {n : Nat} {v : Sketch} (hv : Passes .buffered v) (hn : v.depth ≤ n) :
    FailsOnly P (streamKind n v) := by
  cases v with
  | array vs fault =>
      obtain ⟨j, hj⟩ := hv
      obtain ⟨rfl, js, -, hjs⟩ := means_array.mp hj
      obtain ⟨n, rfl⟩ := Nat.exists_eq_add_one_of_ne_zero (Nat.ne_zero_of_lt hn)
      cases hjs with
      | nil => exact failsOnly_error (hP _)
      | @cons t j items js ht hitems =>
          have hvalues : Sketch.values n items = .ok js := by
            refine values_eq_ok.mpr (forall₂_value_iff.mpr ⟨?_, hitems⟩)
            exact Nat.le_trans (Nat.le_max_right ..) (Nat.le_of_succ_le_succ hn)
          refine (failsOnly_streamTag hP ⟨j, ht⟩).bind fun name _ => ?_
          exact failsOnly_ok_bind (orFault_eq_ok.mpr hvalues) (failsOnly_orMismatch hP _)
  | object ms fault =>
      obtain ⟨j, hj⟩ := hv
      obtain ⟨rfl, js, -, hjs⟩ := means_object.mp hj
      obtain ⟨n, rfl⟩ := Nat.exists_eq_add_one_of_ne_zero (Nat.ne_zero_of_lt hn)
      refine (failsOnly_streamTagged hP hjs (Nat.le_of_succ_le_succ hn) none).bind ?_
      rintro ⟨tag, members⟩ -
      cases tag with
      | none => exact failsOnly_error (hP _)
      | some name => exact failsOnly_orMismatch hP _
  | _ =>
      rw [streamKind.eq_def]
      cases n <;> exact failsOnly_streamWrongType hP hv

end

/-! ## What parts fail for -/

/-- Read straight from the text, something in the value is an array that stands for a span or a node
    and has more items than that has fields. -/
inductive Overlong : Shape → Sketch → Prop
  | record {s : Shape} {vs : List Sketch} {fault : Option Fault} (hs : s = .span ∨ s = .node)
      (h : s.fields.length < vs.length) : Overlong s (.array vs fault)
  | item {s : Shape} {vs : List Sketch} {fault : Option Fault} {i : Nat} {f : Field Shape.Value}
      {v : Sketch} (hf : s.fields[i]? = some f) (hv : vs[i]? = some v) (h : Overlong f.shape v) :
      Overlong s (.array vs fault)
  | member {s : Shape} {ms : List (Quotation × Sketch)} {fault : Option Fault}
      {f : Field Shape.Value} {v : Sketch} (hf : f ∈ s.fields) (hv : v ∈ valuesAt ms f.name)
      (h : Overlong f.shape v) : Overlong s (.object ms fault)
  | nodes {vs : List Sketch} {fault : Option Fault} {v : Sketch} (hv : v ∈ vs)
      (h : Overlong .node v) : Overlong .nodes (.array vs fault)

/-- A list of nodes fails as one of them does. -/
theorem failsOnly_streamPart_nodes {P : ReadError → Prop} {n : Nat} {vs : List Sketch}
    (h : ∀ v ∈ vs, FailsOnly P (streamPart n .node v)) :
    FailsOnly P (streamPart (n + 1) .nodes (.array vs none)) := by
  have hnodes : FailsOnly P (streamNodes n vs) := by
    induction vs with
    | nil => exact failsOnly_ok _
    | cons v vs ih =>
        obtain ⟨hv, hvs⟩ := List.forall_mem_cons.mp h
        exact hv.bind fun _ _ => (ih hvs).bind fun _ _ => failsOnly_ok _
  exact hnodes.bind fun _ _ => failsOnly_ok_bind rfl (failsOnly_ok _)

section

variable {P : ReadError → Prop} (hP : ∀ m, P (.mismatch m))

include hP

/-- A record that means something fails as one of its fields does, or because it is too long. -/
theorem failsOnly_streamRecord {s : Shape} (hs : s = .span ∨ s = .node)
    (hfields : ∀ f ∈ s.fields, ∀ {n : Nat} {v : Sketch}, Passes .buffered v → v.depth ≤ n →
      (Overlong f.shape v → P (.fault .malformed)) → FailsOnly P (streamPart n f.shape v))
    {label : String} {n : Nat} {v : Sketch} (hv : Passes .buffered v) (hn : v.depth ≤ n)
    (hlong : Overlong s v → P (.fault .malformed)) :
    FailsOnly P (streamRecord streamPart label s.fields n v) := by
  cases v with
  | array vs fault =>
      obtain ⟨n, rfl⟩ := Nat.exists_eq_add_one_of_ne_zero (Nat.ne_zero_of_lt hn)
      obtain ⟨rfl, -⟩ := means_array.mp hv.choose_spec
      refine failsOnly_streamItems hP (fun hlt => hlong (.record hs hlt)) fun i f w hf hw => ?_
      have hmem := List.mem_of_getElem? hw
      refine hfields f (List.mem_of_getElem? hf) (passes_array.mp hv w hmem) ?_ ?_
      · exact Nat.le_trans (depth_le_itemsDepth hmem) (Nat.le_of_succ_le_succ hn)
      · exact fun h => hlong (.item hf hw h)
  | object ms fault =>
      obtain ⟨n, rfl⟩ := Nat.exists_eq_add_one_of_ne_zero (Nat.ne_zero_of_lt hn)
      obtain ⟨rfl, -⟩ := means_object.mp hv.choose_spec
      have hmembers : MembersFailOnly P (streamPart n) s.fields ms := by
        intro m hm
        obtain ⟨⟨name, hname⟩, hpass⟩ := passes_object.mp hv m hm
        refine ⟨name, hname, fun _ => skip_of_means hpass.choose_spec, ?_⟩
        rintro f hf rfl
        refine hfields f hf hpass ?_ fun h => hlong (.member hf (mem_valuesAt hm hname) h)
        exact Nat.le_trans (depth_le_membersDepth hm) (Nat.le_of_succ_le_succ hn)
      exact failsOnly_streamRecord_object hP (failsOnly_streamSlots hP hmembers _)
  | _ =>
      rw [streamRecord.eq_def]
      cases n <;> exact failsOnly_streamWrongType hP hv

theorem failsOnly_streamSpan {n : Nat} {v : Sketch} (hv : Passes .buffered v) (hn : v.depth ≤ n)
    (hlong : Overlong .span v → P (.fault .malformed)) : FailsOnly P (streamPart n .span v) := by
  have hfields : FailsOnly P (streamRecord streamPart Shape.span.label spanFields n v) := by
    refine failsOnly_streamRecord hP (Or.inl rfl) ?_ hv hn hlong
    intro f hf n v hv hn hlong
    rcases List.mem_pair.mp hf with rfl | rfl
    · exact failsOnly_streamLeaf hP hv
    · exact failsOnly_streamLeaf hP hv
  rw [streamPart_eq_streamRecord rfl rfl]
  exact hfields.map buildSpan

theorem failsOnly_streamNode {n : Nat} {v : Sketch} (hv : Passes .buffered v) (hn : v.depth ≤ n)
    (hlong : Overlong .node v → P (.fault .malformed)) : FailsOnly P (streamPart n .node v) := by
  have hfields : FailsOnly P (streamRecord streamPart Shape.node.label nodeFields n v) := by
    refine failsOnly_streamRecord hP (Or.inr rfl) ?_ hv hn hlong
    intro f hf n v hv hn hlong
    rcases List.mem_pair.mp hf with rfl | rfl
    · exact failsOnly_streamKind hP hv hn
    · exact failsOnly_streamSpan hP hv hn hlong
  rw [streamPart_eq_streamRecord rfl rfl]
  exact hfields.map buildNode

/-- **A part that means something fails for its data only**, unless it is too long. -/
theorem failsOnly_streamPart {s : Shape} {n : Nat} {v : Sketch} (hv : Passes .buffered v)
    (hn : v.depth ≤ n) (hlong : Overlong s v → P (.fault .malformed)) :
    FailsOnly P (streamPart n s v) := by
  cases s with
  | kind => exact failsOnly_streamKind hP hv hn
  | span => exact failsOnly_streamSpan hP hv hn hlong
  | node => exact failsOnly_streamNode hP hv hn hlong
  | nodes =>
      show FailsOnly P (streamInDocument n .nodes v)
      cases v with
      | array vs fault =>
          obtain ⟨n, rfl⟩ := Nat.exists_eq_add_one_of_ne_zero (Nat.ne_zero_of_lt hn)
          obtain ⟨rfl, -⟩ := means_array.mp hv.choose_spec
          refine failsOnly_streamPart_nodes fun v hmem => ?_
          refine failsOnly_streamNode hP (passes_array.mp hv v hmem) ?_ fun h =>
            hlong (.nodes hmem h)
          exact Nat.le_trans (depth_le_itemsDepth hmem) (Nat.le_of_succ_le_succ hn)
      | _ =>
          rw [streamInDocument.eq_def]
          cases n <;> exact failsOnly_streamWrongType hP hv
  | _ => exact failsOnly_streamLeaf hP hv

end

end CaskLint.Document
