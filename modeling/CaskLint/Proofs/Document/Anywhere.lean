import CaskLint.Proofs.Document.Nodes
import CaskLint.Proofs.Document.Rearranged

/-!
# A node is read the same wherever it stands

  Two texts leave room for a node at a place (**`RoomAt`**) if they are the text of a document that
  loads, but for a value that stands there. Whether the text of a node may stand in that room, and
  which node it is, does not depend on the room: **`ofText_inPlace`** compares it with the same text
  as the only statement of a document (`soleStatement`). Only a node that gives its type as a number
  is not read everywhere. It is no statement, and may stand anywhere below one.
-/

namespace CaskLint.Document

open Record Json

/-! ## A single statement -/

/-- The text of a document, up to its only statement. -/
def soleBefore : String := "\x7b\"token\":\"t\",\"body\":["

/-- The text of a document after its only statement. -/
def soleAfter : String := "]\x7d"

/-- The text of a document whose body is one node. -/
def soleStatement (n : String) : String := soleBefore ++ n ++ soleAfter

/-- A document with one statement around what stands around a hole in that. -/
def aroundSole (inner : Surroundings) : Surroundings :=
  .member [(quoted "token", .text (quoted "t"))] (quoted "body") (.item [] inner []) []

/-- A member whose value is a text, before other members. -/
theorem spaced_textMember (name s : String) {ts : List Token} {rest : List Char}
    (h : Spaced ts rest) :
    Spaced (.text (quoted name) :: .colon :: .text (quoted s) :: .comma :: ts)
      (writeText name ++ ':' :: (writeText s ++ ',' :: rest)) := by
  have hcomma : Spaced (.comma :: ts) (',' :: rest) := h.mark rfl
  exact spaced_writeName Layout.blank_compact name (hcomma.token (spells_writeText s))

theorem spells_aroundSole {inner : Surroundings} {before after : String}
    (h : inner.Spells before after) :
    (aroundSole inner).Spells (soleBefore ++ before) (after ++ soleAfter) where
  before := by
    have hchars : soleBefore.toList = '\x7b' :: (writeText "token" ++ ':' :: (writeText "t" ++
        ',' :: (writeText "body" ++ [':', '[']))) := by decide
    have hopen : Spaced (.openArray :: inner.tokensBefore) ('[' :: before.toList) :=
      h.before.mark rfl
    have hmembers := spaced_textMember "token" "t"
      (spaced_writeName Layout.blank_compact "body" hopen)
    rw [String.toList_append, hchars]
    simp only [List.cons_append, List.append_assoc, List.nil_append]
    exact hmembers.mark rfl
  after := by
    have hchars : soleAfter.toList = [']', '\x7d'] := by decide
    have hobject : Spaced [.closeObject] ['\x7d'] := Spaced.empty.mark rfl
    have hclosed : Spaced [.closeArray, .closeObject] [']', '\x7d'] := hobject.mark rfl
    rw [String.toList_append, hchars]
    show Spaced ((inner.tokensAfter ++ [.closeArray]) ++ [.closeObject]) _
    rw [List.append_assoc]
    exact h.after.append hclosed

theorem spells_soleStatement {n : String} {v : Sketch} (h : Spells n v) :
    Spells (soleStatement n) ((aroundSole .hole).fill v) := by
  have hhole : Surroundings.hole.Spells "" "" := ⟨.empty, .empty⟩
  have htext := Surroundings.spells_fill (spells_aroundSole hhole) h
  rwa [String.append_empty, String.empty_append] at htext

/-- **A document with one statement loads when that is streamed**, and has nothing else. -/
theorem loads_sole {v : Sketch} {d : Document} :
    Loads ((aroundSole .hole).fill v) d ↔
      ∃ x, Reads .streamed .node v x ∧ d = ⟨"t", none, [x]⟩ := by
  have htext : Reads .streamed .text (.text (quoted "t")) "t" := ⟨0, rfl⟩
  refine loads_object.trans ⟨?_, ?_⟩
  · rintro ⟨-, ⟨token, source, body, rest⟩, ⟨-, htoken, hsource, hbody, -⟩, rfl⟩
    have htoken : Reads .streamed .text (.text (quoted "t")) token := fieldOf_singleton.mp htoken
    have hsource : some none = some source := fieldOf_nil.mp hsource
    have hbody : Reads .streamed .nodes (.array [v] none) body := fieldOf_singleton.mp hbody
    obtain rfl : token = "t" := htoken.eq htext
    obtain rfl := Option.some.inj hsource
    obtain ⟨x, nodes, hx, hnodes, rfl⟩ :=
      List.forall₂_cons_left_iff.mp (reads_nodes_array.mp hbody).2
    obtain rfl := List.forall₂_nil_left_iff.mp hnodes
    exact ⟨x, hx, rfl⟩
  · rintro ⟨x, hx, rfl⟩
    have hbody : Reads .streamed .nodes (.array [v] none) [x] :=
      reads_nodes_array.mpr ⟨rfl, .cons hx .nil⟩
    refine ⟨rfl, ("t", none, [x], ()), ⟨fun m hm => ?_, fieldOf_singleton.mpr htext,
      fieldOf_nil.mpr rfl, fieldOf_singleton.mpr hbody, trivial⟩, rfl⟩
    rcases List.mem_pair.mp hm with rfl | rfl
    · exact ⟨"token", read_quoted "token", fun _ hfield => absurd List.mem_cons_self hfield⟩
    · exact ⟨"body", read_quoted "body",
        fun _ hfield => absurd (.tail _ (.tail _ (.head _))) hfield⟩

/-! ## Room for a node -/

/-- Two texts are the text of a document before and after this place, where a node may stand: the
    document loads with some value there. -/
def RoomAt (before after : String) (place : Nat × List Role) : Prop :=
  ∃ c hole w d, LeadsTo c place hole ∧ c.Spells before after ∧ Loads (c.fill w) d

/-- A text that spells a sketch within the limit loads as what the sketch gives. -/
theorem ofText_eq_ok_iff {text : String} {s : Sketch} (h : Spells text s)
    (hdepth : s.depth ≤ maxDepth) {d : Document} : ofText text = .ok d ↔ Loads s d := by
  rw [ofText, outline_of_spells h]
  exact ⟨fun hd => (loads_of_ofOutline hd).2, fun hd => ofOutline_of_loads hd hdepth⟩

/-- Where a node stands makes a difference only if it gives its type as a number. -/
theorem reads_below_iff {v : Sketch} (hv : v.sound = true) (roles : List Role) {x : Node} :
    Reads .streamed .node v x ↔
      Reads (Mode.streamed.below roles) .node v x ∧ (roles = [] ∨ ¬ TypedByNumber v) := by
  cases roles with
  | nil => exact (and_iff_left (Or.inl rfl)).symm
  | cons role roles =>
      have hroles : (role :: roles = [] ∨ ¬ TypedByNumber v) ↔ ¬ TypedByNumber v :=
        or_iff_right (List.cons_ne_nil role roles)
      rw [hroles]
      exact reads_node_streamed_iff hv

/-- **The text of a node is read the same wherever there is room for it.** The document loads
    exactly if the one whose body is that text does, and has the node of that at the place; but
    below a statement a node may also give its type as a number, which no statement does. -/
theorem ofText_inPlace {before n after : String} {place : Nat × List Role} {v : Sketch}
    (hroom : RoomAt before after place) (hn : Spells n v) (hsound : v.sound = true)
    (hnull : v ≠ .null) (hnesting : nesting (before ++ n ++ after) ≤ 127) :
    ((∃ d, ofText (soleStatement n) = .ok d) ↔
        (∃ d, ofText (before ++ n ++ after) = .ok d) ∧ (place.2 = [] ∨ ¬ TypedByNumber v)) ∧
      ∀ d, ofText (before ++ n ++ after) = .ok d → ∃ x, d.at? place = some x ∧
        (place.2 = [] ∨ ¬ TypedByNumber v → ofText (soleStatement n) = .ok ⟨"t", none, [x]⟩) := by
  obtain ⟨c, hole, w, d₀, hplace, htexts, hd₀⟩ := hroom
  have htext := Surroundings.spells_fill htexts hn
  have hsole := spells_soleStatement hn
  rw [nesting_of_spells htext] at hnesting
  -- the document nests the node at least as deep as the other one does
  have hsoleDepth : ((aroundSole .hole).fill v).depth ≤ maxDepth := by
    have hdepth := Surroundings.depth_add_le_depth_fill (c := c) (v := v)
    have htwo := hplace.two_le_depth
    show max 0 (max (max v.depth 0 + 1) 0) + 1 ≤ 127
    omega
  have hstatement : ∀ {d}, ofText (soleStatement n) = .ok d ↔
      ∃ x, Reads .streamed .node v x ∧ d = ⟨"t", none, [x]⟩ :=
    (ofText_eq_ok_iff hsole hsoleDepth).trans loads_sole
  have hload : ∀ {d}, ofText (before ++ n ++ after) = .ok d ↔ Loads (c.fill v) d :=
    ofText_eq_ok_iff htext hnesting
  refine ⟨⟨?_, ?_⟩, ?_⟩
  · rintro ⟨d, hd⟩
    obtain ⟨x, hx, -⟩ := hstatement.mp hd
    obtain ⟨hx, hword⟩ := (reads_below_iff hsound place.2).mp hx
    obtain ⟨d', hd'⟩ := hplace.exists_loads hnull hd₀ hx
    exact ⟨⟨d', hload.mpr hd'⟩, hword⟩
  · rintro ⟨⟨d, hd⟩, hword⟩
    obtain ⟨x, hx, -⟩ := hplace.at?_of_loads hnull (hload.mp hd)
    exact ⟨_, hstatement.mpr ⟨x, (reads_below_iff hsound place.2).mpr ⟨hx, hword⟩, rfl⟩⟩
  · intro d hd
    obtain ⟨x, hx, hat⟩ := hplace.at?_of_loads hnull (hload.mp hd)
    refine ⟨x, hat, fun hword => ?_⟩
    exact hstatement.mpr ⟨x, (reads_below_iff hsound place.2).mpr ⟨hx, hword⟩, rfl⟩

/-! ## Room for a receiver -/

/-- The text of a document whose only statement is a call, up to the receiver of that. -/
def receiverBefore : String :=
  soleBefore ++ "\x7b\"kind\":\x7b\"type\":\"send\",\"method\":\"m\",\"receiver\":"

/-- The text of that document after the receiver. -/
def receiverAfter : String := "\x7d\x7d" ++ soleAfter

/-- The members of a call before its receiver. -/
def membersBefore : List (Quotation × Sketch) :=
  [(quoted "type", .text (quoted "send")), (quoted "method", .text (quoted "m"))]

/-- What stands around the receiver in its statement. -/
def aroundReceiver : Surroundings :=
  .member [] (quoted "kind") (.member membersBefore (quoted "receiver") .hole []) []

theorem spells_aroundReceiver :
    (aroundSole aroundReceiver).Spells receiverBefore receiverAfter := by
  refine spells_aroundSole ⟨?_, ?_⟩
  · have hchars : "\x7b\"kind\":\x7b\"type\":\"send\",\"method\":\"m\",\"receiver\":".toList =
        '\x7b' :: (writeText "kind" ++ ':' :: '\x7b' :: (writeText "type" ++ ':' ::
          (writeText "send" ++ ',' :: (writeText "method" ++ ':' :: (writeText "m" ++ ',' ::
            (writeText "receiver" ++ [':'])))))) := by decide
    have hmembers := spaced_textMember "type" "send" (spaced_textMember "method" "m"
      (spaced_writeName Layout.blank_compact "receiver" .empty))
    have hcall : Spaced (.openObject :: _) ('\x7b' :: _) := hmembers.mark rfl
    have hkind := spaced_writeName Layout.blank_compact "kind" hcall
    rw [hchars]
    exact hkind.mark rfl
  · have hchars : "\x7d\x7d".toList = ['\x7d', '\x7d'] := by decide
    have hnode : Spaced [.closeObject] ['\x7d'] := Spaced.empty.mark rfl
    rw [hchars]
    exact hnode.mark rfl

theorem leadsTo_receiver : LeadsTo (aroundSole aroundReceiver) (0, [.receiver]) .optionalNode := by
  have hkind : Enters nodeFields aroundReceiver kindField _ :=
    .member List.mem_cons_self (read_quoted "kind")
  have hreceiver : EntersKind .send (.member membersBefore (quoted "receiver") .hole [])
      invocationFields[0] .hole :=
    .member (t := .text (quoted "send")) rfl rfl List.mem_cons_self (read_quoted "receiver")
  exact ⟨_, _, .member (.tail _ (.tail _ (.head _))) (read_quoted "body"), .item,
    .step hkind (.field hreceiver rfl .optionalNode) .here⟩

/-- A call without a receiver loads, so there is room for one. -/
theorem roomAt_receiver : RoomAt receiverBefore receiverAfter (0, [.receiver]) :=
  ⟨_, _, .null, ⟨"t", none, [⟨.send ⟨none, "m", []⟩, .dummy⟩]⟩, leadsTo_receiver,
    spells_aroundReceiver, 9, rfl⟩

/-- A call as a value, its kind given as an array. -/
def calledValue : Json :=
  .object [("kind", .array [.text "send", .null, .text "m"]),
    ("span", .array [.integer 1, .integer 2])]

/-- The node of that value. -/
def called : Node := ⟨.send ⟨none, "m", []⟩, ⟨1, 2⟩⟩

theorem ofText_inPlace_called :
    RoomAt receiverBefore receiverAfter (0, [.receiver]) ∧
      Spells calledValue.compact calledValue.sketch ∧ calledValue.sketch.sound = true ∧
      calledValue.sketch ≠ .null ∧
      nesting (receiverBefore ++ calledValue.compact ++ receiverAfter) ≤ 127 ∧
      ofText (soleStatement calledValue.compact) = .ok ⟨"t", none, [called]⟩ ∧
      ∃ d, ofText (receiverBefore ++ calledValue.compact ++ receiverAfter) = .ok d ∧
        d.at? (0, [.receiver]) = some called := by
  have htext := spells_compact calledValue
  have hsound : calledValue.sketch.sound = true := rfl
  have hnull : calledValue.sketch ≠ .null := nofun
  have hnesting : nesting (receiverBefore ++ calledValue.compact ++ receiverAfter) ≤ 127 := by
    rw [nesting_of_spells (Surroundings.spells_fill spells_aroundReceiver htext)]
    decide
  have hsole : ofText (soleStatement calledValue.compact) = .ok ⟨"t", none, [called]⟩ := by
    rw [ofText, outline_of_spells (spells_soleStatement htext)]
    rfl
  obtain ⟨hiff, hnode⟩ := ofText_inPlace roomAt_receiver htext hsound hnull hnesting
  obtain ⟨⟨d, hd⟩, hword⟩ := hiff.mp ⟨_, hsole⟩
  obtain ⟨x, hx, hbody⟩ := hnode d hd
  have heq := Except.ok.inj ((hbody hword).symm.trans hsole)
  obtain ⟨rfl, -⟩ := List.cons.inj (Document.mk.inj heq).2.2
  exact ⟨roomAt_receiver, htext, hsound, hnull, hnesting, hsole, d, hd, hx⟩

/-- A sequence as a value that gives its type by position. -/
def numberedValue : Json :=
  .object [("kind", .object [("type", .integer 2), ("children", .array [])])]

/-- **A node that gives its type as a number may be a receiver, but no statement.** -/
theorem ofText_numberedReceiver :
    RoomAt receiverBefore receiverAfter (0, [.receiver]) ∧
      Spells numberedValue.compact numberedValue.sketch ∧ numberedValue.sketch.sound = true ∧
      numberedValue.sketch ≠ .null ∧
      nesting (receiverBefore ++ numberedValue.compact ++ receiverAfter) ≤ 127 ∧
      (∃ d, ofText (receiverBefore ++ numberedValue.compact ++ receiverAfter) = .ok d) ∧
      ∀ d, ofText (soleStatement numberedValue.compact) ≠ .ok d := by
  have htext := spells_compact numberedValue
  have hplaced := Surroundings.spells_fill spells_aroundReceiver htext
  refine ⟨roomAt_receiver, htext, rfl, nofun, ?_, ?_, ?_⟩
  · rw [nesting_of_spells hplaced]
    decide
  · have hloaded : (ofOutline ⟨(aroundSole aroundReceiver).fill numberedValue.sketch,
        false⟩).toOption.isSome = true := by decide +kernel
    obtain ⟨d, hd⟩ := Option.isSome_iff_exists.mp hloaded
    refine ⟨d, ?_⟩
    rw [ofText, outline_of_spells hplaced]
    exact toOption_eq_some.mp hd
  · intro d hd
    rw [ofText, outline_of_spells (spells_soleStatement htext)] at hd
    cases hd

end CaskLint.Document
