import CaskLint.Document.FromText
import CaskLint.Proofs.Document.Written

/-!
# Written documents are read back

  A written document is loaded exactly when its text nests no deeper than the reader allows and
  all its numbers are finite and in the reader's range (`toOption_ofText_toText`). What is loaded
  then is the document with every floating-point number as its digits are read, so it is an equal
  one exactly when each number is read back as an equal number (**`ofText_toText_iff`**).

  The outer parts are streamed from the sketch of the text and the kinds of nodes are read from
  values. A written record comes to the same either way (`streamRecord_sketch`), because
  nothing in it has to be passed over and nothing in it is at fault.
-/

namespace CaskLint

open Record Json

theorem orFault_eq_ok {α : Type} {x : Except Fault α} {a : α} : orFault x = .ok a ↔ x = .ok a :=
  mapError_eq_ok

theorem orMismatch_eq_ok {α : Type} {x : Except Mismatch α} {a : α} :
    orMismatch x = .ok a ↔ x = .ok a :=
  mapError_eq_ok

theorem orFault_read_quoted (s : String) : orFault (quoted s).read = .ok s := by
  rw [read_quoted]
  rfl

theorem toOption_orMismatch {α : Type} (x : Except Mismatch α) :
    (orMismatch x).toOption = x.toOption :=
  toOption_mapError x _

namespace Json

mutual

/-- A written value can be passed over. -/
theorem skip_sketch (v : Json) : v.sketch.skip = .ok () := by
  match v with
  | .null | .flag _ | .integer _ | .text _ => rfl
  | .float x => cases x <;> rfl
  | .array items =>
      rw [sketch, Sketch.skip, skipItems_itemSketches items]
      rfl
  | .object members =>
      rw [sketch, Sketch.skip, skipMembers_memberSketches members]
      rfl

theorem skipItems_itemSketches (items : List Json) :
    Sketch.skipItems (itemSketches items) = .ok () := by
  match items with
  | [] => rfl
  | v :: vs =>
      rw [itemSketches, Sketch.skipItems, skip_sketch v, skipItems_itemSketches vs]
      rfl

theorem skipMembers_memberSketches (members : List (String × Json)) :
    Sketch.skipMembers (memberSketches members) = .ok () := by
  match members with
  | [] => rfl
  | (name, v) :: ms =>
      rw [memberSketches, Sketch.skipMembers, skip_sketch v, skipMembers_memberSketches ms]
      rfl

end

end Json

namespace Document

/-! ## Values of another type -/

theorem streamWrongType_ne_ok {α : Type} {expected : String} {sketch : Sketch} {a : α} :
    streamWrongType expected sketch ≠ .ok a := by
  have hleaf : ∀ leaf : Sketch, (orFault (leaf.value 0) >>= fun v =>
      (orMismatch (wrongType v expected) : Except ReadError α)) ≠ .ok a := by
    intro leaf h
    obtain ⟨v, -, h⟩ := bind_eq_ok.mp h
    exact nomatch h
  intro h
  cases sketch with
  | array items fault | object members fault => exact nomatch h
  | _ => exact hleaf _ h

/-! ## Records -/

theorem streamSlots_memberSketches (readAt : (s : Shape) → Sketch → Except ReadError s.Value)
    (fs : Fields) (slots : Slots Shape.Value fs) (ms : List (String × Json)) :
    streamSlots readAt fs slots (memberSketches ms) =
      Slots.assignAll .mismatch (fun s v => readAt s v.sketch) fs slots ms := by
  induction ms generalizing slots with
  | nil => rfl
  | cons m ms ih =>
      obtain ⟨name, v⟩ := m
      rw [memberSketches, streamSlots, orFault_read_quoted, ok_bind, skip_sketch, Slots.assignAll]
      -- a member without a field is passed over on both sides
      cases Slots.assign? ReadError.mismatch name (fun s => readAt s v.sketch) fs slots with
      | none => exact ih slots
      | some assigned => exact congrArg (assigned >>= ·) (funext ih)

/-- A written record is streamed member by member. -/
theorem streamRecord_sketch (readAt : Stream) (label : String) (fs : Fields) (n : Nat)
    (ms : List (String × Json)) :
    streamRecord readAt label fs (n + 1) (Json.object ms).sketch =
      ofMembers .mismatch (fun s v => readAt n s v.sketch) fs ms := by
  rw [sketch, streamRecord, streamSlots_memberSketches, ofMembers]
  rfl

/-! ## Kinds -/

theorem streamTagged_memberSketches {ms : List (String × Json)} (h : ∀ m ∈ ms, m.1 ≠ "type")
    (n : Nat) (name : KindName) :
    streamTagged n (some name) (memberSketches ms) =
      okIf (membersFit n ms) (.fault .malformed) (some name, rereadMembers ms) := by
  induction ms with
  | nil => rfl
  | cons m ms ih =>
      obtain ⟨member, v⟩ := m
      obtain ⟨hm, hms⟩ := List.forall_mem_cons.mp h
      rw [memberSketches, streamTagged, orFault_read_quoted, ok_bind, if_neg hm, value_sketch,
        ih hms, membersFit_cons]
      cases v.fits n <;> cases membersFit n ms <;> rfl

/-- A written kind of node is streamed when it fits and its numbers are finite. -/
theorem streamKind_sketch (n : Nat) (k : Kind) :
    (streamKind n k.toJson.sketch).toOption =
      someIf (k.toJson.fits n && k.floats.all Binary64.isFinite)
        (k.mapFloats Binary64.reread) := by
  have hread := read_kind k
  rw [read_kind_toJson] at hread
  rw [k.toJson_eq]
  cases n with
  | zero => rfl
  | succ n =>
      have htag : streamTag (.text (quoted k.name.text)) = .ok k.name := by
        rw [streamTag, read_quoted]
        cases k.name <;> rfl
      -- the type comes first; the other members are buffered as values
      have htagged : streamTagged n none
          (memberSketches (("type", .text k.name.text) :: k.members)) =
            okIf (membersFit n k.members) (.fault .malformed)
              (some k.name, rereadMembers k.members) := by
        rw [memberSketches, streamTagged, orFault_read_quoted, ok_bind, if_pos rfl, sketch, htag]
        exact streamTagged_memberSketches k.type_not_mem_members n k.name
      rw [fits_object_succ, membersFit_cons, sketch, streamKind, htagged]
      show _ = someIf ((true && membersFit n k.members) && _) _
      rw [Bool.true_and]
      -- what is left is to read the buffered values
      refine toOption_bind_someIf (toOption_okIf _ _ _) ?_
      show (orMismatch (buildKind k.name <$> completed (kindFields k.name)
        (readSlots (kindFields k.name) (Slots.empty _) (rereadMembers k.members)))).toOption = _
      rw [toOption_orMismatch, completed_readSlots]
      exact hread

/-! ## Nodes -/

theorem streamInSpan_offset (n : Nat) {i : Int} (h : (Numeral.ofInt i).read = .ok (.integer i)) :
    streamInSpan n .offset (Json.integer i).sketch = orMismatch (readOffset i) := by
  show (orFault (Numeral.ofInt i).read >>= fun v => orMismatch (read .offset v)) = _
  rw [h]
  rfl

theorem toOption_streamInSpan (n : Nat) (i : UInt32) :
    (streamInSpan n .offset (Json.integer i.toNat).sketch).toOption = someIf true i := by
  have hlt := i.toNat_lt
  have hnumber : (Numeral.ofInt i.toNat).read = .ok (.integer i.toNat) := by
    rw [Numeral.read, value?_ofInt (by omega) (by omega)]
  rw [streamInSpan_offset n hnumber, readOffset_toNat]
  rfl

/-- A span is streamed if one more object may be open. -/
theorem streamSpan_sketch (n : Nat) (s : Span) :
    (streamInNode n .span s.toJson.sketch).toOption = someIf (s.toJson.fits n) s := by
  cases n with
  | zero => rfl
  | succ n =>
      have h : (ofMembers .mismatch (fun s (v : Json) => streamInSpan n s v.sketch) spanFields
          [("start", .integer s.start.toNat), ("end", .integer s.stop.toNat)]).toOption =
            someIf (true && true) (s.start, s.stop, ()) :=
        toOption_ofMembers_given (by simp) (toOption_streamInSpan n s.start)
          (toOption_ofMembers_last (toOption_streamInSpan n s.stop))
      have hfits : s.toJson.fits (n + 1) = true := by
        rw [fits, s.inRange_toJson, Bool.and_true]
        exact decide_eq_true (Nat.succ_le_succ (Nat.zero_le n))
      rw [← streamRecord_sketch streamInSpan Shape.span.label] at h
      rw [hfits]
      exact toOption_map_someIf buildSpan h

/-- A written node is streamed when it fits and its numbers are finite. -/
theorem streamNode_sketch (n : Nat) (node : Node) :
    (streamNode n node.toJson.sketch).toOption =
      someIf (node.toJson.fits n && node.floats.all Binary64.isFinite)
        (node.mapFloats Binary64.reread) := by
  obtain ⟨kind, span⟩ := node
  cases n with
  | zero => rfl
  | succ n =>
      have h : (ofMembers .mismatch (fun s (v : Json) => streamInNode n s v.sketch) nodeFields
          [("kind", kind.toJson), ("span", span.toJson)]).toOption =
            someIf
              ((kind.toJson.fits n && kind.floats.all Binary64.isFinite) && span.toJson.fits n)
              (kind.mapFloats Binary64.reread, span, ()) :=
        toOption_ofMembers_given (by simp) (streamKind_sketch n kind)
          (toOption_ofMembers_last (streamSpan_sketch n span))
      have hfits : (Node.mk kind span).toJson.fits (n + 1) =
          (kind.toJson.fits n && span.toJson.fits n) := by
        rw [Node.toJson, fits_object_succ, membersFit_cons, membersFit_cons]
        exact congrArg (kind.toJson.fits n && ·) (Bool.and_true _)
      have hcondition : ((Node.mk kind span).toJson.fits (n + 1) &&
          kind.floats.all Binary64.isFinite) =
            ((kind.toJson.fits n && kind.floats.all Binary64.isFinite) && span.toJson.fits n) := by
        rw [hfits]
        ac_rfl
      rw [← streamRecord_sketch streamInNode Shape.node.label] at h
      rw [Node.floats, hcondition]
      exact toOption_map_someIf buildNode h

theorem streamNodes_sketches (n : Nat) (ns : List Node) :
    (streamNodes n (itemSketches (Node.listToJson ns))).toOption =
      someIf (itemsFit n (Node.listToJson ns) && (Node.listFloats ns).all Binary64.isFinite)
        (Node.listMapFloats Binary64.reread ns) := by
  induction ns with
  | nil => rfl
  | cons node ns ih =>
      have hcondition : (itemsFit n (Node.listToJson (node :: ns)) &&
          (Node.listFloats (node :: ns)).all Binary64.isFinite) =
            ((node.toJson.fits n && node.floats.all Binary64.isFinite) &&
              (itemsFit n (Node.listToJson ns) &&
                (Node.listFloats ns).all Binary64.isFinite)) := by
        rw [Node.listToJson, itemsFit_cons, Node.listFloats, List.all_append]
        ac_rfl
      rw [hcondition]
      exact toOption_bind_someIf (streamNode_sketch n node) (toOption_map_someIf _ ih)

/-! ## Documents -/

/-- The body of a written document is streamed when it fits and its numbers are finite. -/
theorem streamBody_sketch (n : Nat) (ns : List Node) :
    (streamInDocument n .nodes (Json.array (Node.listToJson ns)).sketch).toOption =
      someIf ((Json.array (Node.listToJson ns)).fits n &&
          (Node.listFloats ns).all Binary64.isFinite)
        (Node.listMapFloats Binary64.reread ns) := by
  cases n with
  | zero => rfl
  | succ n =>
      rw [fits_array_succ]
      exact toOption_map_someIf id (streamNodes_sketches n ns)

theorem streamText_sketch (n : Nat) (s : String) :
    (streamInDocument n .text (Json.text s).sketch).toOption = someIf true s := by
  show (orFault (Json.text <$> (quoted s).read) >>= fun v => orMismatch (read .text v)).toOption = _
  rw [read_quoted]
  rfl

theorem streamSource_sketch (n : Nat) (s : String) :
    (streamInDocument n .optionalText (Json.text s).sketch).toOption = someIf true (some s) := by
  show (orFault (Json.text <$> (quoted s).read) >>=
    fun v => orMismatch (read .optionalText v)).toOption = _
  rw [read_quoted]
  rfl

/-- The members of a written document. -/
def members (d : Document) : List (String × Json) :=
  ("token", .text d.token) :: (d.source.toList.map fun source => ("source", Json.text source)) ++
    [("body", .array (Node.listToJson d.body))]

theorem toJson_eq (d : Document) : d.toJson = .object d.members := rfl

theorem streamMembers_sketch (n : Nat) (d : Document) :
    (ofMembers .mismatch (fun s (v : Json) => streamInDocument n s v.sketch) fields
      d.members).toOption =
        someIf ((Json.array (Node.listToJson d.body)).fits n && d.floats.all Binary64.isFinite)
          (d.token, d.source, Node.listMapFloats Binary64.reread d.body, ()) := by
  obtain ⟨token, source, body⟩ := d
  have hbody : (ofMembers .mismatch (fun s (v : Json) => streamInDocument n s v.sketch)
      [fields[2]] [("body", .array (Node.listToJson body))]).toOption =
        someIf ((Json.array (Node.listToJson body)).fits n &&
            (Node.listFloats body).all Binary64.isFinite)
          (Node.listMapFloats Binary64.reread body, ()) :=
    toOption_ofMembers_last (streamBody_sketch n body)
  cases source with
  | none =>
      -- a source that is absent is not written
      have hrest := toOption_ofMembers_omitted (f := fields[1]) (by simp [fields]) rfl hbody
      show _ = someIf (true && _) _
      exact toOption_ofMembers_given (by simp) (streamText_sketch n token) hrest
  | some source =>
      have hrest : (ofMembers .mismatch (fun s (v : Json) => streamInDocument n s v.sketch)
          fields.tail
          [("source", .text source), ("body", .array (Node.listToJson body))]).toOption =
            someIf (true && _) (some source, Node.listMapFloats Binary64.reread body, ()) :=
        toOption_ofMembers_given (by simp) (streamSource_sketch n source) hbody
      show _ = someIf (true && (true && _)) _
      exact toOption_ofMembers_given (by simp) (streamText_sketch n token) hrest

theorem fits_toJson (n : Nat) (d : Document) :
    d.toJson.fits (n + 1) = (Json.array (Node.listToJson d.body)).fits n := by
  obtain ⟨token, source, body⟩ := d
  have hbody : membersFit n [("body", .array (Node.listToJson body))] =
      (Json.array (Node.listToJson body)).fits n := by
    rw [membersFit_cons]
    exact Bool.and_true _
  have htext : ∀ name s ms, membersFit n ((name, Json.text s) :: ms) = membersFit n ms := by
    intro name s ms
    rw [membersFit_cons]
    exact Bool.true_and _
  rw [toJson_eq, fits_object_succ, ← hbody]
  cases source with
  | none => exact htext _ _ _
  | some source => exact (htext _ _ _).trans (htext _ _ _)

/-- **What the text of a document is loaded as**: the document, with each number as its digits are
    read, when the text fits and every number is finite. -/
theorem toOption_ofText_toText (d : Document) :
    (ofText d.toText).toOption =
      someIf (d.toJson.fits maxDepth && d.floats.all Binary64.isFinite)
        (d.mapFloats Binary64.reread) := by
  have hmembers := streamMembers_sketch 126 d
  rw [← streamRecord_sketch streamInDocument (recordLabel "CaskDocument"), ← toJson_eq,
    ← fits_toJson] at hmembers
  rw [ofText, toText, outline_pretty, ofOutline]
  exact toOption_map_someIf build hmembers

theorem inRange_toJson (d : Document) : d.toJson.inRange = d.floats.all Binary64.inRange := by
  obtain ⟨token, source, body⟩ := d
  have hbody : membersInRange [("body", .array (Node.listToJson body))] =
      (Node.listFloats body).all Binary64.inRange :=
    (Bool.and_true _).trans (itemsInRange_nodes body)
  cases source with
  | none => exact hbody
  | some source => exact hbody

theorem ofText_toText_eq_ok {d d' : Document} :
    ofText d.toText = .ok d' ↔
      ((d.toJson.depth ≤ 127 ∧ ∀ x ∈ d.floats, x.inRange = true) ∧
        ∀ x ∈ d.floats, x.isFinite = true) ∧ d.mapFloats Binary64.reread = d' := by
  rw [← toOption_eq_some, toOption_ofText_toText, someIf_eq_some, fits, inRange_toJson,
    Bool.and_eq_true, Bool.and_eq_true, decide_eq_true_iff, List.all_eq_true, List.all_eq_true,
    maxDepth]

theorem nesting_toText (d : Document) : nesting d.toText = d.toJson.depth :=
  nesting_pretty d.toJson

/-- When the text of a document is loaded as an equal document. -/
theorem loadsBack_iff (d : Document) :
    (∃ d', ofText d.toText = .ok d' ∧ (d' == d) = true) ↔
      (∀ x ∈ d.floats, x.isFinite = true ∧ x.readsBack = true) ∧ nesting d.toText ≤ 127 := by
  rw [nesting_toText]
  constructor
  · rintro ⟨d', hok, heq⟩
    obtain ⟨⟨⟨hdepth, hrange⟩, hfinite⟩, rfl⟩ := ofText_toText_eq_ok.mp hok
    rw [beq_mapFloats, List.all_eq_true] at heq
    refine ⟨fun x hx => ⟨hfinite x hx, ?_⟩, hdepth⟩
    exact readsBack_iff.mpr ⟨hfinite x hx, hrange x hx, heq x hx⟩
  · -- each number reads back, so it is in range and the whole text is loaded
    rintro ⟨hfloats, hdepth⟩
    have hback := fun x hx => readsBack_iff.mp (hfloats x hx).2
    refine ⟨d.mapFloats Binary64.reread, ofText_toText_eq_ok.mpr ⟨⟨⟨hdepth, ?_⟩, ?_⟩, rfl⟩, ?_⟩
    · exact fun x hx => (hback x hx).2.1
    · exact fun x hx => (hback x hx).1
    · rw [beq_mapFloats, List.all_eq_true]
      exact fun x hx => (hback x hx).2.2

/-- Whatever is loaded from the text of a document differs from it in numbers only. -/
theorem sameButFloats_of_ofText {d d' : Document} (h : ofText d.toText = .ok d') :
    d'.SameButFloats d := by
  obtain ⟨-, rfl⟩ := ofText_toText_eq_ok.mp h
  exact sameButFloats_mapFloats Binary64.reread d

/-- **A document is loaded back as an equal one** exactly when every number is finite and reads
    back and its text nests at most 127 arrays and objects. Whatever is loaded instead differs
    from it in numbers only. -/
theorem ofText_toText_iff (d : Document) :
    ((∃ d', ofText d.toText = .ok d' ∧ (d' == d) = true) ↔
        (∀ x ∈ d.floats, x.isFinite = true ∧ x.readsBack = true) ∧ nesting d.toText ≤ 127) ∧
      ∀ d', ofText d.toText = .ok d' → d'.SameButFloats d :=
  ⟨loadsBack_iff d, fun _ h => sameButFloats_of_ofText h⟩

end Document

end CaskLint
