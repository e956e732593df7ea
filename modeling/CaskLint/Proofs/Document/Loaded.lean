import CaskLint.Proofs.Document.Bounds
import CaskLint.Proofs.Json.Bounds

/-!
# Loaded documents are saved

  A text may leave out members that are written when the document is saved, so the text that
  is written can nest deeper than the one that was read. How much deeper is what
  **`within_of_read`** settles, by induction over the value: only innermost parts gain a level, so
  the whole gains at most one (`bounds_of_ofText`).

  That one level matters at the limit of the reader, and so do the digits of a number
  (**`saved_not_loaded`**). Otherwise a document that was loaded is loaded again once it is saved
  (**`saved_loaded_iff`**).
-/

namespace CaskLint

open Record Json

namespace Document

/-! ## Reading literals -/

theorem isFinite_of_readFloat {v : Json} {x : Binary64} (hv : v.numbersFinite = true)
    (h : readFloat v = .ok x) : x.isFinite = true := by
  cases v with
  | integer i =>
      obtain rfl := Except.ok.inj h
      exact hv
  | float y =>
      obtain rfl := Except.ok.inj h
      exact hv
  | _ => exact nomatch h

/-- Only a floating-point literal holds a number that could fail to be finite. -/
theorem finite_of_readPayload {name : LiteralName} {v : Json} {l : Literal}
    (hv : v.numbersFinite = true) (h : readPayload name v = .ok l) :
    l.floats.all Binary64.isFinite = true := by
  cases name with
  | float =>
      obtain ⟨x, hx, rfl⟩ := map_eq_ok.mp h
      exact (Bool.and_true _).trans (isFinite_of_readFloat hv hx)
  | nil =>
      cases v with
      | null =>
          obtain rfl := Except.ok.inj h
          rfl
      | _ => exact nomatch h
  | _ =>
      obtain ⟨x, -, rfl⟩ := map_eq_ok.mp h
      rfl

theorem eq_of_noMore {l l' : Literal} {ms : List (String × Json)} (h : noMore l ms = .ok l') :
    l = l' := by
  cases ms with
  | nil => exact Except.ok.inj h
  | cons m ms => exact nomatch h

theorem memberNumbersFinite_filter (p : String × Json → Bool) {ms : List (String × Json)}
    (h : memberNumbersFinite ms = true) : memberNumbersFinite (ms.filter p) = true := by
  induction ms with
  | nil => rfl
  | cons m ms ih =>
      obtain ⟨name, v⟩ := m
      rw [memberNumbersFinite, Bool.and_eq_true] at h
      rw [List.filter_cons]
      split
      · rw [memberNumbersFinite, h.1, ih h.2]
        rfl
      · exact ih h.2

theorem finite_of_readTagged {ms : List (String × Json)} {l : Literal}
    (hms : memberNumbersFinite ms = true) (h : readTagged ms = .ok l) :
    l.floats.all Binary64.isFinite = true := by
  match ms with
  | [] => exact nomatch h
  | [(first, v)] =>
      -- a type alone is that of a literal without a payload
      rw [readTagged] at h
      split at h
      · obtain ⟨name, -, hname⟩ := bind_eq_ok.mp h
        split at hname
        · obtain rfl := Except.ok.inj hname
          rfl
        · exact nomatch hname
      · exact nomatch h
  | (first, v) :: (second, w) :: more =>
      rw [memberNumbersFinite, memberNumbersFinite, Bool.and_eq_true, Bool.and_eq_true] at hms
      obtain ⟨hv, hw, -⟩ := hms
      -- type and payload may come in either order
      rw [readTagged] at h
      split at h
      · obtain ⟨name, -, h⟩ := bind_eq_ok.mp h
        dsimp only at h
        split at h
        · exact nomatch h
        · obtain ⟨l', hl, h⟩ := bind_eq_ok.mp h
          obtain rfl := eq_of_noMore h
          exact finite_of_readPayload hw hl
      · split at h
        · obtain ⟨name, -, h⟩ := bind_eq_ok.mp h
          obtain ⟨l', hl, h⟩ := bind_eq_ok.mp h
          obtain rfl := eq_of_noMore h
          exact finite_of_readPayload hv hl
        · exact nomatch h

theorem finite_of_readLiteral {v : Json} {l : Literal} (hv : v.numbersFinite = true)
    (h : readLiteral v = .ok l) : l.floats.all Binary64.isFinite = true := by
  match v with
  | .object ms => exact finite_of_readTagged (memberNumbersFinite_filter _ hv) h
  | .array [] => exact nomatch h
  | .array (kind :: more) =>
      obtain ⟨name, -, h⟩ := bind_eq_ok.mp h
      match more with
      | [] => exact nomatch h
      | value :: excess =>
          rw [numbersFinite, itemNumbersFinite, itemNumbersFinite, Bool.and_eq_true,
            Bool.and_eq_true] at hv
          obtain ⟨l', hl, h⟩ := bind_eq_ok.mp h
          split at h
          · obtain rfl := Except.ok.inj h
            exact finite_of_readPayload hv.2.1 hl
          · exact nomatch h
  | .null | .flag _ | .integer _ | .float _ | .text _ => exact nomatch h

theorem within_literal {b : Nat} (hb : 1 ≤ b) {l : Literal}
    (hfinite : l.floats.all Binary64.isFinite = true) : Within b .literal l := by
  refine ⟨?_, hfinite⟩
  refine Nat.le_trans ?_ hb
  cases l <;> exact Nat.le_refl 1

/-! ## Reading values -/

theorem all_of_completed {fs : Fields} {slots : Except Mismatch (Slots Shape.Value fs)} {b : Nat}
    {values : Values Shape.Value fs} (hstandIns : StandInsAll (Within b) fs)
    (hslots : ∀ s, slots = .ok s → Slots.All (Within b) fs s)
    (h : completed fs slots = .ok values) : Values.All (Within b) fs values := by
  obtain ⟨s, hs, hvalues⟩ := bind_eq_ok.mp h
  exact Slots.all_complete hstandIns (hslots s hs) hvalues

mutual

/-- **What is read from a value nests at most one level deeper when it is written**, and its
    numbers are finite if those of the value are. -/
theorem within_of_read (s : Shape) {v : Json} {x : s.Value} (hv : v.numbersFinite = true)
    (h : read s v = .ok x) : Within (v.depth + 1) s x := by
  -- enough for whatever holds no other values
  have hone : 1 ≤ v.depth + 1 := Nat.le_add_left 1 _
  match s with
  | .text | .offset => exact ⟨Nat.zero_le _, rfl⟩
  | .optionalText =>
      cases x with
      | none => exact ⟨Nat.zero_le _, rfl⟩
      | some t => exact ⟨Nat.zero_le _, rfl⟩
  | .texts => exact (within_texts x).mono hone
  | .span => exact (within_span x).mono hone
  | .literal =>
      rw [read_literal_eq] at h
      exact within_literal hone (finite_of_readLiteral hv h)
  | .node =>
      match v with
      | .array vs =>
          obtain ⟨values, hvalues, rfl⟩ := map_eq_ok.mp h
          exact within_node (all_of_readItems (Nat.le_refl _) standIns_nodeFields hv hvalues)
      | .object ms =>
          obtain ⟨values, hvalues, rfl⟩ := map_eq_ok.mp h
          exact within_node (all_of_completed standIns_nodeFields
            (fun _ => all_of_readSlots (Nat.le_refl _) hv (Slots.all_empty _)) hvalues)
      | .null | .flag _ | .integer _ | .float _ | .text _ => exact nomatch h
  | .optionalNode =>
      match v with
      | .array vs =>
          obtain ⟨values, hvalues, rfl⟩ := map_eq_ok.mp h
          have hnode := within_node
            (all_of_readItems (Nat.le_refl _) standIns_nodeFields hv hvalues)
          exact ⟨hnode.depth_le, hnode.finite⟩
      | .object ms =>
          obtain ⟨values, hvalues, rfl⟩ := map_eq_ok.mp h
          have hnode := within_node (all_of_completed standIns_nodeFields
            (fun _ => all_of_readSlots (Nat.le_refl _) hv (Slots.all_empty _)) hvalues)
          exact ⟨hnode.depth_le, hnode.finite⟩
      | .null =>
          obtain rfl := Except.ok.inj h
          exact ⟨Nat.zero_le _, rfl⟩
      | .flag _ | .integer _ | .float _ | .text _ => exact nomatch h
  | .nodes =>
      match v with
      | .array vs => exact within_of_readNodes hv h
      | .null | .flag _ | .integer _ | .float _ | .text _ | .object _ => exact nomatch h
  | .kind =>
      match v with
      | .array [] => exact nomatch h
      | .array (tag :: vs) =>
          -- the type is an item too, but one that adds no depth
          rw [numbersFinite, itemNumbersFinite, Bool.and_eq_true] at hv
          rw [read_kind_array] at h
          obtain ⟨name, -, h⟩ := bind_eq_ok.mp h
          obtain ⟨values, hvalues, rfl⟩ := map_eq_ok.mp h
          have hkind := within_kind
            (all_of_readItems (Nat.le_refl _) (standIns_kindFields name) hv.2 hvalues)
          refine hkind.mono (Nat.succ_le_succ (Nat.succ_le_succ ?_))
          exact Nat.le_max_right _ _
      | .object ms =>
          rw [read_kind_object] at h
          obtain ⟨name, -, h⟩ := bind_eq_ok.mp h
          obtain ⟨values, hvalues, rfl⟩ := map_eq_ok.mp h
          rw [← completed_readSlots] at hvalues
          exact within_kind (all_of_completed (standIns_kindFields name)
            (fun _ => all_of_readSlots (Nat.le_refl _) hv (Slots.all_empty _)) hvalues)
      | .null | .flag _ | .integer _ | .float _ | .text _ => exact nomatch h
  | .invocation =>
      match v with
      | .array vs =>
          obtain ⟨values, hvalues, rfl⟩ := map_eq_ok.mp h
          exact within_invocation
            (all_of_readItems (Nat.le_refl _) standIns_invocationFields hv hvalues)
      | .object ms =>
          obtain ⟨values, hvalues, rfl⟩ := map_eq_ok.mp h
          exact within_invocation (all_of_completed standIns_invocationFields
            (fun _ => all_of_readSlots (Nat.le_refl _) hv (Slots.all_empty _)) hvalues)
      | .null | .flag _ | .integer _ | .float _ | .text _ => exact nomatch h

theorem all_of_readItems {label : String} {index : Nat} {fs : Fields} {vs : List Json} {b : Nat}
    {values : Values Shape.Value fs} (hb : itemsDepth vs + 1 ≤ b)
    (hstandIns : StandInsAll (Within b) fs) (hvs : itemNumbersFinite vs = true)
    (h : readItems label index fs vs = .ok values) : Values.All (Within b) fs values := by
  match fs, vs with
  | fs, [] =>
      -- the items have run out, and stand-ins are taken for the rest
      rw [readItems.eq_def] at h
      exact Values.all_standIns hstandIns h
  | [], v :: vs => exact nomatch h
  | f :: fs, v :: vs =>
      rw [itemsDepth] at hb
      rw [itemNumbersFinite, Bool.and_eq_true] at hvs
      obtain ⟨x, hx, h⟩ := bind_eq_ok.mp h
      obtain ⟨xs, hxs, h⟩ := bind_eq_ok.mp h
      obtain rfl := Except.ok.inj h
      refine ⟨(within_of_read f.shape hvs.1 hx).mono (by omega), ?_⟩
      exact all_of_readItems (by omega) (fun g hg => hstandIns g (List.mem_cons_of_mem f hg))
        hvs.2 hxs

theorem all_of_readSlots {fs : Fields} {slots slots' : Slots Shape.Value fs}
    {ms : List (String × Json)} {b : Nat} (hb : membersDepth ms + 1 ≤ b)
    (hms : memberNumbersFinite ms = true) (hslots : Slots.All (Within b) fs slots)
    (h : readSlots fs slots ms = .ok slots') : Slots.All (Within b) fs slots' := by
  match ms with
  | [] =>
      obtain rfl := Except.ok.inj h
      exact hslots
  | (name, v) :: ms =>
      rw [membersDepth] at hb
      rw [memberNumbersFinite, Bool.and_eq_true] at hms
      have hread : ∀ s (x : s.Value), read s v = .ok x → Within b s x := fun s x hx =>
        (within_of_read s hms.1 hx).mono (by omega)
      rw [readSlots] at h
      split at h
      · exact all_of_readSlots (by omega) hms.2 hslots h
      · rename_i hassign
        exact all_of_readSlots (by omega) hms.2 (Slots.all_assign? hread hslots hassign) h
      · exact nomatch h

theorem within_of_readNodes {vs : List Json} {ns : List Node} (hvs : itemNumbersFinite vs = true)
    (h : readNodes vs = .ok ns) : Within (itemsDepth vs + 2) .nodes ns := by
  match vs with
  | [] =>
      obtain rfl := Except.ok.inj h
      exact ⟨Nat.le_succ 1, rfl⟩
  | v :: vs =>
      rw [itemNumbersFinite, Bool.and_eq_true] at hvs
      obtain ⟨n, hn, h⟩ := bind_eq_ok.mp h
      obtain ⟨ns', hns, h⟩ := bind_eq_ok.mp h
      obtain rfl := Except.ok.inj h
      exact within_cons (within_of_read .node hvs.1 hn) (within_of_readNodes hvs.2 hns)

end

/-! ## Reading sketches -/

theorem within_of_streamLeaf {s : Shape} {sketch : Sketch} {x : s.Value}
    (h : streamLeaf s sketch = .ok x) : Within 1 s x := by
  have hleaf : ∀ leaf : Sketch,
      (orFault (leaf.value 0) >>= fun v => orMismatch (read s v)) = .ok x → Within 1 s x := by
    intro leaf hleaf
    obtain ⟨v, hv, hx⟩ := bind_eq_ok.mp hleaf
    obtain ⟨hdepth, hfinite⟩ := bounds_of_value (orFault_eq_ok.mp hv)
    refine (within_of_read s hfinite (orMismatch_eq_ok.mp hx)).mono ?_
    omega
  cases sketch with
  | array items fault | object members fault => exact nomatch h
  | _ => exact hleaf _ h

section

variable {readAt : Stream}
  (hread : ∀ {n : Nat} {s : Shape} {sketch : Sketch} {x : s.Value},
    readAt n s sketch = .ok x → Within (min n sketch.depth + 1) s x)

include hread

theorem all_of_streamItems {label : String} {fault : Option Fault} {index n b : Nat} {fs : Fields}
    {items : List Sketch} {values : Values Shape.Value fs}
    (hb : min n (Sketch.itemsDepth items) + 1 ≤ b) (hstandIns : StandInsAll (Within b) fs)
    (h : streamItems (readAt n) label fault index fs items = .ok values) :
    Values.All (Within b) fs values := by
  induction items generalizing index fs with
  | nil =>
      cases fs with
      | nil => trivial
      | cons f fs =>
          -- the items have run out, and stand-ins are taken for the rest
          obtain ⟨-, -, h⟩ := bind_eq_ok.mp h
          exact Values.all_standIns hstandIns (orMismatch_eq_ok.mp h)
  | cons v vs ih =>
      cases fs with
      | nil => exact nomatch h
      | cons f fs =>
          rw [Sketch.itemsDepth] at hb
          obtain ⟨x, hx, h⟩ := bind_eq_ok.mp h
          obtain ⟨xs, hxs, h⟩ := bind_eq_ok.mp h
          obtain rfl := Except.ok.inj h
          refine ⟨(hread hx).mono (by omega), ?_⟩
          exact ih (by omega) (fun g hg => hstandIns g (List.mem_cons_of_mem f hg)) hxs

theorem all_of_streamSlots {n b : Nat} {fs : Fields} {slots slots' : Slots Shape.Value fs}
    {members : List (Quotation × Sketch)} (hb : min n (Sketch.membersDepth members) + 1 ≤ b)
    (hslots : Slots.All (Within b) fs slots)
    (h : streamSlots (readAt n) fs slots members = .ok slots') :
    Slots.All (Within b) fs slots' := by
  induction members generalizing slots with
  | nil =>
      obtain rfl := Except.ok.inj h
      exact hslots
  | cons m ms ih =>
      obtain ⟨quotation, v⟩ := m
      rw [Sketch.membersDepth] at hb
      rw [streamSlots] at h
      obtain ⟨name, -, h⟩ := bind_eq_ok.mp h
      split at h
      · obtain ⟨-, -, h⟩ := bind_eq_ok.mp h
        exact ih (by omega) hslots h
      · rename_i assigned hassign
        obtain ⟨slots'', rfl, h⟩ := bind_eq_ok.mp h
        refine ih (by omega) (Slots.all_assign? ?_ hslots hassign) h
        exact fun s x hx => (hread hx).mono (by omega)

/-- The values of a record that is streamed nest no deeper than the record when they are
    written. -/
theorem all_of_streamRecord {label : String} {n : Nat} {fs : Fields} {sketch : Sketch}
    {values : Values Shape.Value fs} (hstandIns : ∀ {b}, StandInsAll (Within (b + 1)) fs)
    (h : streamRecord readAt label fs n sketch = .ok values) :
    Values.All (Within (min n sketch.depth)) fs values := by
  cases sketch with
  | array items fault =>
      cases n with
      | zero => exact nomatch h
      | succ n =>
          rw [Sketch.depth, Nat.add_min_add_right]
          exact all_of_streamItems hread (Nat.le_refl _) hstandIns h
  | object members fault =>
      cases n with
      | zero => exact nomatch h
      | succ n =>
          rw [Sketch.depth, Nat.add_min_add_right]
          obtain ⟨slots, hslots, h⟩ := bind_eq_ok.mp h
          obtain ⟨-, -, h⟩ := bind_eq_ok.mp h
          exact Slots.all_complete hstandIns
            (all_of_streamSlots hread (Nat.le_refl _) (Slots.all_empty fs) hslots)
            (orMismatch_eq_ok.mp h)
  | _ =>
      rw [streamRecord.eq_def] at h
      cases n <;> exact absurd h streamWrongType_ne_ok

end

/-! ## Kinds, nodes and documents -/

theorem bounds_of_streamTagged {n : Nat} {tag tag' : Option KindName}
    {members : List (Quotation × Sketch)} {ms : List (String × Json)}
    (h : streamTagged n tag members = .ok (tag', ms)) :
    membersDepth ms ≤ min n (Sketch.membersDepth members) ∧ memberNumbersFinite ms = true := by
  induction members generalizing tag ms with
  | nil =>
      obtain ⟨-, rfl⟩ := Prod.mk.inj (Except.ok.inj h)
      exact ⟨Nat.zero_le _, rfl⟩
  | cons m members ih =>
      obtain ⟨quotation, v⟩ := m
      rw [Sketch.membersDepth]
      rw [streamTagged] at h
      obtain ⟨name, -, h⟩ := bind_eq_ok.mp h
      split at h
      · -- the type is taken out of the members, so it counts for nothing
        cases tag with
        | some name' => cases h
        | none =>
            obtain ⟨tag'', -, h⟩ := bind_eq_ok.mp h
            obtain ⟨hdepth, hfinite⟩ := ih h
            exact ⟨by omega, hfinite⟩
      · obtain ⟨value, hvalue, h⟩ := bind_eq_ok.mp h
        obtain ⟨⟨tag'', ms'⟩, hms, h⟩ := bind_eq_ok.mp h
        obtain ⟨rfl, rfl⟩ := Prod.mk.inj (Except.ok.inj h)
        obtain ⟨hdepth, hfinite⟩ := bounds_of_value (orFault_eq_ok.mp hvalue)
        obtain ⟨hdepths, hfinites⟩ := ih hms
        rw [membersDepth, memberNumbersFinite, hfinite, hfinites]
        exact ⟨by omega, rfl⟩

theorem within_of_streamKind {n : Nat} {sketch : Sketch} {k : Kind}
    (h : streamKind n sketch = .ok k) : Within (min n sketch.depth + 1) .kind k := by
  cases sketch with
  | array items fault =>
      cases n with
      | zero => exact nomatch h
      | succ n =>
          cases items with
          | nil =>
              obtain ⟨-, -, h⟩ := bind_eq_ok.mp h
              exact nomatch h
          | cons tag items =>
              obtain ⟨name, -, h⟩ := bind_eq_ok.mp h
              obtain ⟨vs, hvs, h⟩ := bind_eq_ok.mp h
              obtain ⟨-, -, h⟩ := bind_eq_ok.mp h
              obtain ⟨values, hvalues, rfl⟩ := map_eq_ok.mp (orMismatch_eq_ok.mp h)
              obtain ⟨hdepth, hfinite⟩ := bounds_of_values (orFault_eq_ok.mp hvs)
              have hkind := within_kind
                (all_of_readItems (Nat.le_refl _) (standIns_kindFields _) hfinite hvalues)
              refine hkind.mono ?_
              rw [Sketch.depth, Sketch.itemsDepth]
              omega
  | object members fault =>
      cases n with
      | zero => exact nomatch h
      | succ n =>
          obtain ⟨⟨tag, ms⟩, hms, h⟩ := bind_eq_ok.mp h
          obtain ⟨-, -, h⟩ := bind_eq_ok.mp h
          cases tag with
          | none => exact nomatch h
          | some name =>
              obtain ⟨values, hvalues, rfl⟩ := map_eq_ok.mp (orMismatch_eq_ok.mp h)
              obtain ⟨hdepth, hfinite⟩ := bounds_of_streamTagged hms
              have hkind := within_kind (all_of_completed (standIns_kindFields _)
                (fun _ => all_of_readSlots (Nat.le_refl _) hfinite (Slots.all_empty _)) hvalues)
              refine hkind.mono ?_
              rw [Sketch.depth]
              omega
  | _ =>
      rw [streamKind.eq_def] at h
      cases n <;> exact absurd h streamWrongType_ne_ok

theorem within_of_streamInNode {n : Nat} {s : Shape} {sketch : Sketch} {x : s.Value}
    (h : streamInNode n s sketch = .ok x) : Within (min n sketch.depth + 1) s x := by
  cases s with
  | kind => exact within_of_streamKind h
  | span => exact (within_span x).mono (Nat.le_add_left 1 _)
  | _ => exact (within_of_streamLeaf h).mono (Nat.le_add_left 1 _)

theorem within_of_streamNode {n : Nat} {sketch : Sketch} {node : Node}
    (h : streamNode n sketch = .ok node) : Within (min n sketch.depth + 1) .node node := by
  obtain ⟨values, hvalues, rfl⟩ := map_eq_ok.mp h
  exact within_node (all_of_streamRecord within_of_streamInNode standIns_nodeFields hvalues)

theorem within_of_streamNodes {n : Nat} {sketches : List Sketch} {ns : List Node}
    (h : streamNodes n sketches = .ok ns) :
    Within (min n (Sketch.itemsDepth sketches) + 2) .nodes ns := by
  induction sketches generalizing ns with
  | nil =>
      obtain rfl := Except.ok.inj h
      exact ⟨Nat.le_add_left 1 _, rfl⟩
  | cons v vs ih =>
      obtain ⟨node, hnode, h⟩ := bind_eq_ok.mp h
      obtain ⟨ns', hns, h⟩ := bind_eq_ok.mp h
      obtain rfl := Except.ok.inj h
      refine (within_cons (within_of_streamNode hnode) (ih hns)).mono ?_
      rw [Sketch.itemsDepth]
      omega

theorem within_of_streamInDocument {n : Nat} {s : Shape} {sketch : Sketch} {x : s.Value}
    (h : streamInDocument n s sketch = .ok x) : Within (min n sketch.depth + 1) s x := by
  cases s with
  | nodes =>
      cases sketch with
      | array items fault =>
          cases n with
          | zero => exact nomatch h
          | succ n =>
              obtain ⟨ns, hns, h⟩ := bind_eq_ok.mp h
              obtain ⟨-, -, h⟩ := bind_eq_ok.mp h
              obtain rfl := Except.ok.inj h
              rw [Sketch.depth, Nat.add_min_add_right]
              exact within_of_streamNodes hns
      | _ =>
          rw [streamInDocument.eq_def] at h
          cases n <;> exact absurd h streamWrongType_ne_ok
  | _ => exact (within_of_streamLeaf h).mono (Nat.le_add_left 1 _)

/-- **A document that is loaded is written at most one level deeper than its text**, and all its
    numbers are finite. -/
theorem bounds_of_ofText {text : String} {d : Document} (h : ofText text = .ok d) :
    d.toJson.depth ≤ min maxDepth (nesting text) + 1 ∧
      d.floats.all Binary64.isFinite = true := by
  obtain ⟨values, hvalues, h⟩ := bind_eq_ok.mp h
  have hall := all_of_streamRecord within_of_streamInDocument standIns_fields hvalues
  split at h
  · exact nomatch h
  · obtain rfl := Except.ok.inj h
    obtain ⟨token, source, body, _⟩ := values
    -- of the members only the body nests anything
    obtain ⟨-, -, hbody, -⟩ := hall
    have hdepth : itemsDepth (Node.listToJson body) + 1 ≤ min maxDepth (nesting text) :=
      hbody.depth_le
    refine ⟨?_, hbody.finite⟩
    cases source with
    | none =>
        show max 0 (max (itemsDepth (Node.listToJson body) + 1) 0) + 1 ≤ _
        omega
    | some source =>
        show max 0 (max 0 (max (itemsDepth (Node.listToJson body) + 1) 0)) + 1 ≤ _
        omega

/-! ## Saving what was loaded -/

/-- **A loaded document, once saved**, nests at most one level deeper than its text and at most 128
    arrays and objects. It is loaded again as an equal document exactly when that does not exceed
    127 and its numbers read back, and differs in numbers only if anything else is loaded. -/
theorem saved_loaded_iff {text : String} {d : Document} (h : ofText text = .ok d) :
    (nesting d.toText ≤ nesting text + 1 ∧ nesting d.toText ≤ 128) ∧
      ((∃ d', ofText d.toText = .ok d' ∧ (d' == d) = true) ↔
        nesting d.toText ≤ 127 ∧ ∀ x ∈ d.floats, x.readsBack = true) ∧
      ∀ d', ofText d.toText = .ok d' → d'.SameButFloats d := by
  obtain ⟨hdepth, hfinite⟩ := bounds_of_ofText h
  rw [List.all_eq_true] at hfinite
  rw [← nesting_toText, maxDepth] at hdepth
  -- numbers that were loaded are finite, which leaves two of the three conditions
  refine ⟨⟨by omega, by omega⟩, ?_, fun _ => sameButFloats_of_ofText⟩
  rw [loadsBack_iff]
  constructor
  · rintro ⟨hfloats, hnesting⟩
    exact ⟨hnesting, fun x hx => (hfloats x hx).2⟩
  · rintro ⟨hnesting, hfloats⟩
    exact ⟨fun x hx => ⟨hfinite x hx, hfloats x hx⟩, hnesting⟩

/-- A node of so many sequences, one in the other, around an invocation without arguments. All
    members that may be left out are left out. -/
def bareNode : Nat → Json
  | 0 => .object [("kind", .object [("type", .text "send"), ("method", .text "m")])]
  | n + 1 =>
    .object [("kind", .object [("type", .text "begin"), ("children", .array [bareNode n])])]

/-- The text of a document with one statement. -/
def textAround (statement : Json) : String :=
  (Json.object [("token", .text "t"), ("body", .array [statement])]).compact

/-- The shortest such document as it is loaded. -/
def bareDocument : Document := ⟨"t", none, [⟨.send ⟨none, "m", []⟩, Span.dummy⟩]⟩

theorem ofText_bareNode : ofText (textAround (bareNode 0)) = .ok bareDocument := by
  rw [ofText, textAround, outline_compact]
  rfl

theorem saved_loaded_iff_bareDocument :
    ofText (textAround (bareNode 0)) = .ok bareDocument ∧
      (nesting bareDocument.toText ≤ nesting (textAround (bareNode 0)) + 1 ∧
        nesting bareDocument.toText ≤ 128) ∧
      ((∃ d', ofText bareDocument.toText = .ok d' ∧ (d' == bareDocument) = true) ↔
        nesting bareDocument.toText ≤ 127 ∧ ∀ x ∈ bareDocument.floats, x.readsBack = true) ∧
      ∀ d', ofText bareDocument.toText = .ok d' → d'.SameButFloats bareDocument :=
  ⟨ofText_bareNode, saved_loaded_iff ofText_bareNode⟩

/-- A literal with the number nearest to 10^-30, whose digits are read as another one. -/
def inexactNode : Json :=
  .object [("kind", .object [("type", .text "literal"), ("value", .object [("kind", .text "float"),
    ("value", .float (Binary64.ofDecimal false 1 (-30)))])])]

/-- **Not every document that loads can be saved and loaded again**: not if its text nests as deep
    as the reader allows and leaves out an innermost member, nor if a number in it does not read
    back. -/
theorem saved_not_loaded :
    (∃ d, ofText (textAround (bareNode 41)) = .ok d ∧
        ¬ ∃ d', ofText d.toText = .ok d' ∧ (d' == d) = true) ∧
      ∃ d, ofText (textAround inexactNode) = .ok d ∧
        ¬ ∃ d', ofText d.toText = .ok d' ∧ (d' == d) = true := by
  have hdeep : (ofOutline ⟨(Json.object [("token", .text "t"),
      ("body", .array [bareNode 41])]).sketch, false⟩).toOption.any
        (fun d => decide (127 < d.toJson.depth)) = true := by decide +kernel
  have hinexact : (ofOutline ⟨(Json.object [("token", .text "t"),
      ("body", .array [inexactNode])]).sketch, false⟩).toOption.any
        (fun d => d.floats.any fun x => !x.reread.sameValue x) = true := by decide +kernel
  constructor
  · -- the innermost invocation gains its list of arguments
    obtain ⟨d, hd, hdepth⟩ := (Option.any_eq_true _ _).mp hdeep
    rw [← outline_compact] at hd
    refine ⟨d, toOption_eq_some.mp hd, ?_⟩
    rw [loadsBack_iff, nesting_toText]
    rintro ⟨-, hle⟩
    exact absurd (of_decide_eq_true hdepth) (Nat.not_lt.mpr hle)
  · -- the digits that are read first and those that are written give different numbers
    obtain ⟨d, hd, hfloats⟩ := (Option.any_eq_true _ _).mp hinexact
    rw [← outline_compact] at hd
    refine ⟨d, toOption_eq_some.mp hd, ?_⟩
    obtain ⟨x, hx, hvalue⟩ := List.any_eq_true.mp hfloats
    rw [loadsBack_iff]
    rintro ⟨hback, -⟩
    obtain ⟨-, -, hsame⟩ := readsBack_iff.mp (hback x hx).2
    rw [hsame] at hvalue
    exact nomatch hvalue

end Document

end CaskLint
