import CaskLint.Proofs.Document.Arrangement
import CaskLint.Proofs.Json.Spelled

/-!
# How a text is laid out does not matter

  A text is **`Rearranged`** when the sketch that it spells is changed any number of times, at any
  depth, and the result is spelled again, with other blanks if need be. Whatever loads, loads as
  the same document after that (**`ofText_rearranged`**), unless the text nests deeper than the
  reader allows. Every text that loads spells some sketch (`spells_of_ofText`), so there is always
  something to change.

  One object stands apart: that of the type of a literal, which must have its variant as only
  member (`ofText_textWithType`).
-/

namespace CaskLint.Document

open Record Json

/-- One text comes of another by changing how members are laid out, and the blanks. -/
def Rearranged (text text' : String) : Prop :=
  ∃ s s', Spells text s ∧ Relation.ReflTransGen (Changed .document) s s' ∧ Spells text' s'

theorem nesting_of_spells {text : String} {s : Sketch} (h : Spells text s) :
    nesting text = s.depth := by
  rw [nesting, outline_of_spells h]

/-- What gives a document is no fault. -/
theorem faulty_of_loads {v : Sketch} {d : Document} (h : Loads v d) : v.faulty = false := by
  obtain ⟨n, hn⟩ := h
  obtain ⟨xs, hxs, -⟩ := map_eq_ok.mp hn
  rcases eq_of_streamRecord hxs with ⟨vs, fault, rfl⟩ | ⟨ms, fault, rfl⟩
  · obtain ⟨rfl, -⟩ := loads_array.mp ⟨n, hn⟩
    rfl
  · obtain ⟨rfl, -⟩ := loads_object.mp ⟨n, hn⟩
    rfl

/-- **A text that loads spells the sketch of its outline.** -/
theorem spells_of_ofText {text : String} {d : Document} (h : ofText text = .ok d) :
    Spells text (Outline.ofText text).sketch := by
  obtain ⟨htrailing, hloads⟩ := loads_of_ofOutline h
  refine spells_of_outline ?_ (faulty_of_loads hloads)
  rw [← htrailing]

/-- What a sketch gives it gives after any number of changes. -/
theorem loads_of_changes {s s' : Sketch} (h : Relation.ReflTransGen (Changed .document) s s')
    {d : Document} (hd : Loads s d) : Loads s' d := by
  induction h with
  | refl => exact hd
  | tail _ hstep ih => exact hstep.preserves d ih

/-- **A text that loads can be rearranged, and loads as the same document after that** if it nests
    no deeper than the reader allows. -/
theorem ofText_rearranged {text : String} {d : Document} (h : ofText text = .ok d) :
    Rearranged text text ∧
      ∀ text', Rearranged text text' → nesting text' ≤ 127 → ofText text' = .ok d := by
  constructor
  · exact ⟨_, _, spells_of_ofText h, .refl, spells_of_ofText h⟩
  · rintro text' ⟨s, s', hs, hchanges, hs'⟩ hnesting
    rw [ofText, outline_of_spells hs] at h
    rw [nesting_of_spells hs'] at hnesting
    rw [ofText, outline_of_spells hs']
    exact ofOutline_of_loads (loads_of_changes hchanges (loads_of_ofOutline h).2) hnesting

/-! ## A text that is rearranged -/

/-- A document with one statement, whose kind has these members. -/
def oneStatement (members : List (String × Json)) : Json :=
  .object [("token", .text "t"), ("body", .array [.object [("kind", .object members)]])]

/-- The members of a call of a method. -/
def callMembers : List (String × Json) := [("type", .text "send"), ("method", .text "m")]

/-- The same call with its type last, an argument list and a member that no call knows. -/
def otherMembers : List (String × Json) :=
  [("note", .object []), ("method", .text "m"), ("args", .array []), ("type", .text "send")]

/-- A change of the kind of the only statement. -/
theorem Changed.oneStatement {members members' : List (String × Json)}
    (h : Changed (.part .kind) (Json.object members).sketch (Json.object members').sketch) :
    Changed .document (oneStatement members).sketch (oneStatement members').sketch := by
  have hnode : Changed (.part .node) (Json.object [("kind", .object members)]).sketch
      (Json.object [("kind", .object members')]).sketch :=
    @Changed.field (.part .node) [] [] _ _ _ nodeFields[0] List.mem_cons_self
      (read_quoted "kind") h
  have hnodes : Changed (.part .nodes) (Json.array [.object [("kind", .object members)]]).sketch
      (Json.array [.object [("kind", .object members')]]).sketch :=
    @Changed.item (.part .nodes) _ [] [] _ _ rfl hnode
  exact @Changed.field .document [(quoted "token", .text (quoted "t"))] [] _ _ _ fields[2]
    (.tail _ (.tail _ (.head _))) (read_quoted "body") hnodes

theorem rearranged_otherMembers :
    Rearranged (oneStatement callMembers).compact (oneStatement otherMembers).pretty := by
  refine ⟨_, _, spells_compact _, ?_, spells_pretty _⟩
  have hinsert : Changed (.part .kind) (Json.object callMembers).sketch
      (Json.object (("note", .object []) :: callMembers)).sketch := by
    refine .insert (@Extended.unknown _ [] _ (quoted "note") (.object [] none) (by decide) rfl ?_)
    intro name hname
    obtain rfl := Except.ok.inj ((read_quoted "note").symm.trans hname)
    exact ⟨by decide, by decide⟩
  have hdefault : Changed (.part .kind) (Json.object (("note", .object []) :: callMembers)).sketch
      (Json.object (("note", .object []) :: callMembers ++ [("args", .array [])])).sketch := by
    refine .insert (@Extended.default (.part .kind)
      (memberSketches (("note", .object []) :: callMembers)) [] (quoted "args") (.array [] none)
      invocationFields[2] ?_ (read_quoted "args") ?_ ⟨.array [], ([] : List Node), rfl, rfl, rfl⟩)
    · exact List.mem_iff_getElem.mpr ⟨2, by decide, rfl⟩
    · rfl
  have horder : Changed (.part .kind)
      (Json.object (("note", .object []) :: callMembers ++ [("args", .array [])])).sketch
      (Json.object otherMembers).sketch := by
    refine .reorder (.cons _ ?_)
    exact @List.perm_append_comm _ (memberSketches [("type", .text "send")])
      (memberSketches [("method", .text "m"), ("args", .array [])])
  exact ((Relation.ReflTransGen.single hinsert.oneStatement).tail hdefault.oneStatement).tail
    horder.oneStatement

/-- The document of that call. -/
def callDocument : Document := ⟨"t", none, [⟨.send ⟨none, "m", []⟩, .dummy⟩]⟩

theorem ofText_rearranged_otherMembers :
    ofText (oneStatement callMembers).compact = .ok callDocument ∧
      Rearranged (oneStatement callMembers).compact (oneStatement otherMembers).pretty ∧
      nesting (oneStatement otherMembers).pretty ≤ 127 ∧
      ofText (oneStatement otherMembers).pretty = .ok callDocument := by
  have hload : ofText (oneStatement callMembers).compact = .ok callDocument := by
    rw [ofText, outline_compact]
    rfl
  have hnesting : nesting (oneStatement otherMembers).pretty ≤ 127 := by
    rw [nesting_of_spells (spells_pretty _)]
    decide
  exact ⟨hload, rearranged_otherMembers, hnesting,
    (ofText_rearranged hload).2 _ rearranged_otherMembers hnesting⟩

/-! ## The type of a literal -/

/-- The members of a literal whose type is an object with these members. -/
def literalMembers (members : List (String × Json)) : List (String × Json) :=
  [("type", .text "literal"),
    ("value", .object [("kind", .object members), ("value", .text "x")])]

/-- A document with such a literal as only statement. -/
def textWithType (members : List (String × Json)) : String :=
  (oneStatement (literalMembers members)).compact

/-- **The object that gives the type of a literal takes no member besides its variant**: with one
    that names no variant the text does not load. -/
theorem ofText_textWithType :
    "x" ∉ LiteralName.all.map LiteralName.text ∧
      (∃ d, ofText (textWithType [("str", .null)]) = .ok d) ∧
      nesting (textWithType [("str", .null), ("x", .integer 1)]) ≤ 127 ∧
      ∀ d, ofText (textWithType [("str", .null), ("x", .integer 1)]) ≠ .ok d := by
  refine ⟨by decide, ?_, ?_, ?_⟩
  · refine ⟨⟨"t", none, [⟨.literal (.str "x"), .dummy⟩]⟩, ?_⟩
    rw [ofText, textWithType, outline_compact]
    rfl
  · rw [textWithType, nesting_of_spells (spells_compact _)]
    decide
  · rw [ofText, textWithType, outline_compact]
    intro d h
    cases h

end CaskLint.Document
