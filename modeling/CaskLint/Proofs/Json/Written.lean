import CaskLint.Proofs.Json.Numerals
import CaskLint.Proofs.Json.Spelled

/-!
# Written values spell their sketches

  The way of a value through its text and back, whatever the layout:

* **`Json.sketch`** — the sketch of a value. Its tokens are those of the written form
  (`tokens_sketch`).
* **`spaced_writeAt`** — the written form spells these tokens, with the blanks of the layout
  between them.

  Together (**`outline_writeAt`**): the outline of a written value is the sketch of the value.
  Two leaves come back as something else than they were: a floating-point number as the
  numeral of its digits, and one that is not finite as `null`.
-/

namespace CaskLint.Json

/-! ## Texts -/

/-- The piece that a character is spelled as: control characters without a letter of their own are
    written as code units. -/
def pieceOf (c : Char) : Piece :=
  if c.toNat < 32 ∧ c.toNat ∉ [8, 9, 10, 12, 13] then .unit c.toNat else .char c

/-- The spelling of a text. -/
def quoted (s : String) : Quotation := ⟨s.toList.map pieceOf, none⟩

theorem codeUnit?_control : ∀ n < 32,
    codeUnit? '0' '0' (Text.lowerHex (n / 16)) (Text.lowerHex (n % 16)) = some n := by decide

/-- A control character is written as its piece. -/
theorem spells_controlEscape {c : Char} (hc : c.toNat < 32) :
    SpellsPiece (pieceOf c) (controlEscape c) := by
  -- the control characters that a letter stands for
  have hletter : ∀ letter : Char, letter ≠ 'u' → escaped? letter = some c →
      c.toNat ∈ [8, 9, 10, 12, 13] → SpellsPiece (pieceOf c) ['\\', letter] := by
    intro letter hu hmeant hnum
    have hpiece : pieceOf c = .char c := by rw [pieceOf, if_neg (by simp [hnum])]
    rw [hpiece]
    exact .letter hu hmeant
  have hchar : ∀ m : Char, c.toNat = m.toNat → c = m := fun m h => Char.toNat_inj.mp h
  unfold controlEscape
  split
  · subst c
    exact hletter 'n' (by decide) rfl (by decide)
  split
  · subst c
    exact hletter 't' (by decide) rfl (by decide)
  split
  · subst c
    exact hletter 'r' (by decide) rfl (by decide)
  split
  · obtain rfl := hchar '\x08' ‹_›
    exact hletter 'b' (by decide) rfl (by decide)
  split
  · obtain rfl := hchar '\x0c' ‹_›
    exact hletter 'f' (by decide) rfl (by decide)
  · -- the others are written as code units
    rename_i hn ht hr hb hf
    have hnum : c.toNat ∉ [8, 9, 10, 12, 13] := by
      have h9 : c.toNat ≠ 9 := fun h => ht (hchar '\t' h)
      have h10 : c.toNat ≠ 10 := fun h => hn (hchar '\n' h)
      have h13 : c.toNat ≠ 13 := fun h => hr (hchar '\r' h)
      simp [hb, h9, h10, hf, h13]
    have hpiece : pieceOf c = .unit c.toNat := by rw [pieceOf, if_pos ⟨hc, hnum⟩]
    rw [hpiece]
    exact .unit (codeUnit?_control _ hc)

/-- A character inside quotes is written as its piece. -/
theorem spells_writeChar (c : Char) : SpellsPiece (pieceOf c) (writeChar c) := by
  unfold writeChar
  split
  · rename_i h
    rcases h with rfl | rfl
    · exact .letter (by decide) rfl
    · exact .letter (by decide) rfl
  · rename_i h
    split
    · exact spells_controlEscape ‹_›
    · rename_i hc
      have hpiece : pieceOf c = .char c := by rw [pieceOf, if_neg fun h => hc h.1]
      rw [hpiece]
      exact .raw (fun h' => h (Or.inl h')) (fun h' => h (Or.inr h')) hc

theorem spells_flatMap_writeChar (cs : List Char) :
    SpellsPieces (cs.map pieceOf) (cs.flatMap writeChar) := by
  induction cs with
  | nil => exact .nil
  | cons c cs ih => exact .cons (spells_writeChar c) ih

/-- **A written text spells that text.** -/
theorem spells_writeText (s : String) : (Token.text (quoted s)).Spells (writeText s) :=
  ⟨rfl, _, spells_flatMap_writeChar s.toList, rfl⟩

theorem readPieces_map_pieceOf (cs : List Char) : readPieces none (cs.map pieceOf) = .ok cs := by
  induction cs with
  | nil => rfl
  | cons c cs ih =>
      rw [List.map_cons, pieceOf]
      split
      · -- a control character is no half of a pair
        rename_i hc
        have hlow : isLowSurrogate c.toNat = false := by
          simp only [isLowSurrogate, Bool.and_eq_false_iff, decide_eq_false_iff_not]
          omega
        have hhigh : isHighSurrogate c.toNat = false := by
          simp only [isHighSurrogate, Bool.and_eq_false_iff, decide_eq_false_iff_not]
          omega
        rw [readPieces.eq_def]
        dsimp only
        rw [hlow, hhigh, ih, Char.ofNat_toNat]
        rfl
      · show (c :: ·) <$> readPieces none (cs.map pieceOf) = _
        rw [ih]
        rfl

/-- The spelling of a text spells that text. -/
@[simp] theorem read_quoted (s : String) : (quoted s).read = .ok s := by
  rw [Quotation.read, quoted, readPieces_map_pieceOf]
  exact congrArg Except.ok (String.ofList_toList)

/-- A layout puts nothing but blanks between the tokens. -/
structure Layout.Blank (layout : Layout) : Prop where
  line : ∀ depth, ∀ c ∈ layout.line depth, isBlank c = true
  afterColon : ∀ c ∈ layout.afterColon, isBlank c = true

theorem Layout.blank_compact : Layout.compact.Blank :=
  ⟨fun _ _ h => (nomatch h), fun _ h => (nomatch h)⟩

theorem Layout.blank_pretty : Layout.pretty.Blank where
  line := by
    intro depth c hc
    rcases List.mem_cons.mp hc with rfl | hc
    · rfl
    · rw [List.eq_of_mem_replicate hc]
      rfl
  afterColon := by
    intro c hc
    rw [List.mem_singleton.mp hc]
    rfl

/-! ## The tokens of a value -/

/-- The token that a floating-point number is written as. -/
def floatToken : Binary64 → Token
  | .finite negative m => .number (.ofMagnitude floatStyle negative m)
  | _ => .null

mutual

/-- The tokens of the written form of a value. -/
def tokens : Json → List Token
  | .null => [.null]
  | .flag b => [.flag b]
  | .integer i => [.number (.ofInt i)]
  | .float x => [floatToken x]
  | .text s => [.text (quoted s)]
  | .array [] => [.openArray, .closeArray]
  | .array (item :: items) => .openArray :: tokens item ++ itemTokens items ++ [.closeArray]
  | .object [] => [.openObject, .closeObject]
  | .object ((name, value) :: members) =>
    .openObject :: .text (quoted name) :: .colon :: tokens value ++ memberTokens members ++
      [.closeObject]

/-- The tokens of the items after the first one. -/
def itemTokens : List Json → List Token
  | [] => []
  | item :: items => .comma :: tokens item ++ itemTokens items

/-- The tokens of the members after the first one. -/
def memberTokens : List (String × Json) → List Token
  | [] => []
  | (name, value) :: members =>
    .comma :: .text (quoted name) :: .colon :: tokens value ++ memberTokens members

end

/-! ## What is written -/

theorem spells_writeInteger (i : Int) : (Token.number (.ofInt i)).Spells (writeInteger i) := by
  rw [writeInteger_eq_spell]
  exact Numeral.spells_spell (Numeral.proper_ofInt i)

theorem spells_writeFloat (x : Binary64) : (floatToken x).Spells (writeFloat x) := by
  cases x with
  | finite negative m =>
      rw [writeFloat, write?_eq_spell]
      exact Numeral.spells_spell (Numeral.proper_ofMagnitude _ _ _)
  | infinite _ | nan => rfl

section

variable {layout : Layout} (hlayout : layout.Blank)

include hlayout

/-- The name of a member, its colon and the blanks after that. -/
theorem spaced_writeName (name : String) {ts : List Token} {rest : List Char}
    (h : Spaced ts rest) : Spaced (.text (quoted name) :: .colon :: ts)
      (writeText name ++ ':' :: (layout.afterColon ++ rest)) := by
  have hcolon : Spaced (.colon :: ts) (':' :: (layout.afterColon ++ rest)) :=
    (h.blanks hlayout.afterColon).mark rfl
  exact hcolon.token (spells_writeText name)

mutual

/-- **A written value spells its tokens**, and what follows it the tokens after these. -/
theorem spaced_writeAt (depth : Nat) (v : Json) {ts : List Token} {rest : List Char}
    (h : Spaced ts rest) : Spaced (v.tokens ++ ts) (writeAt layout depth v ++ rest) := by
  match v with
  | .null | .flag true | .flag false => exact h.token rfl
  | .integer i => exact h.token (spells_writeInteger i)
  | .float x => exact h.token (spells_writeFloat x)
  | .text s => exact h.token (spells_writeText s)
  | .array [] =>
      have hclosed : Spaced (.closeArray :: ts) (']' :: rest) := h.mark rfl
      exact hclosed.mark rfl
  | .array (item :: items) =>
      have hitems := spaced_writeAt (depth + 1) item (spaced_writeItems depth items h)
      rw [writeAt, tokens]
      simp only [List.append_assoc, List.cons_append, List.nil_append]
      exact (hitems.blanks (hlayout.line _)).mark rfl
  | .object [] =>
      have hclosed : Spaced (.closeObject :: ts) ('\x7d' :: rest) := h.mark rfl
      exact hclosed.mark rfl
  | .object ((name, value) :: members) =>
      have hmembers := spaced_writeAt (depth + 1) value (spaced_writeMembers depth members h)
      rw [writeAt, tokens]
      simp only [List.append_assoc, List.cons_append, List.nil_append]
      exact ((spaced_writeName hlayout name hmembers).blanks (hlayout.line _)).mark rfl

/-- The items after the first one, up to the closing bracket. -/
theorem spaced_writeItems (depth : Nat) (items : List Json) {ts : List Token} {rest : List Char}
    (h : Spaced ts rest) : Spaced (itemTokens items ++ .closeArray :: ts)
      (writeItems layout depth items ++ (layout.line depth ++ ']' :: rest)) := by
  match items with
  | [] =>
      have hclosed : Spaced (.closeArray :: ts) (']' :: rest) := h.mark rfl
      exact hclosed.blanks (hlayout.line _)
  | item :: items =>
      have hitems := spaced_writeAt (depth + 1) item (spaced_writeItems depth items h)
      rw [writeItems, itemTokens]
      simp only [List.append_assoc, List.cons_append]
      exact (hitems.blanks (hlayout.line _)).mark rfl

/-- The members after the first one, up to the closing brace. -/
theorem spaced_writeMembers (depth : Nat) (members : List (String × Json)) {ts : List Token}
    {rest : List Char} (h : Spaced ts rest) : Spaced (memberTokens members ++ .closeObject :: ts)
      (writeMembers layout depth members ++ (layout.line depth ++ '\x7d' :: rest)) := by
  match members with
  | [] =>
      have hclosed : Spaced (.closeObject :: ts) ('\x7d' :: rest) := h.mark rfl
      exact hclosed.blanks (hlayout.line _)
  | (name, value) :: members =>
      have hmembers := spaced_writeAt (depth + 1) value (spaced_writeMembers depth members h)
      rw [writeMembers, memberTokens]
      simp only [List.append_assoc, List.cons_append]
      exact ((spaced_writeName hlayout name hmembers).blanks (hlayout.line _)).mark rfl

end

end

/-! ## The sketch of a value -/

/-- The sketch of a floating-point number: the numeral of its digits, or `null`. -/
def floatSketch : Binary64 → Sketch
  | .finite negative m => .number (.ofMagnitude floatStyle negative m)
  | _ => .null

mutual

/-- The sketch that a value is read back as. -/
def sketch : Json → Sketch
  | .null => .null
  | .flag b => .flag b
  | .integer i => .number (.ofInt i)
  | .float x => floatSketch x
  | .text s => .text (quoted s)
  | .array items => .array (itemSketches items) none
  | .object members => .object (memberSketches members) none

/-- The sketches of the items of an array. -/
def itemSketches : List Json → List Sketch
  | [] => []
  | item :: items => sketch item :: itemSketches items

/-- The sketches of the members of an object. -/
def memberSketches : List (String × Json) → List (Quotation × Sketch)
  | [] => []
  | (name, value) :: members => (quoted name, sketch value) :: memberSketches members

end

mutual

/-- The tokens of the sketch of a value are those of its written form. -/
theorem tokens_sketch (v : Json) : v.sketch.tokens = v.tokens := by
  match v with
  | .null | .flag _ | .integer _ | .text _ => rfl
  | .float x => cases x <;> rfl
  | .array [] => rfl
  | .array (item :: items) =>
      rw [sketch, itemSketches, Sketch.tokens, Sketch.itemTokens, tokens, tokens_sketch item,
        moreItemTokens_itemSketches items]
      rfl
  | .object [] => rfl
  | .object ((name, value) :: members) =>
      rw [sketch, memberSketches, Sketch.tokens, Sketch.memberTokens, tokens, tokens_sketch value,
        moreMemberTokens_memberSketches members]
      rfl

theorem moreItemTokens_itemSketches (items : List Json) :
    Sketch.moreItemTokens (itemSketches items) = itemTokens items := by
  match items with
  | [] => rfl
  | item :: items =>
      rw [itemSketches, Sketch.moreItemTokens, itemTokens, tokens_sketch item,
        moreItemTokens_itemSketches items]
      rfl

theorem moreMemberTokens_memberSketches (members : List (String × Json)) :
    Sketch.moreMemberTokens (memberSketches members) = memberTokens members := by
  match members with
  | [] => rfl
  | (name, value) :: members =>
      rw [memberSketches, Sketch.moreMemberTokens, memberTokens, tokens_sketch value,
        moreMemberTokens_memberSketches members]
      rfl

end

/-- **A written value spells its sketch.** -/
theorem spells_writeAt {layout : Layout} (hlayout : layout.Blank) (v : Json) :
    Spells (String.ofList (writeAt layout 0 v)) v.sketch := by
  have hspaced := spaced_writeAt hlayout 0 v .empty
  rw [List.append_nil, List.append_nil] at hspaced
  rw [Spells, tokens_sketch, String.toList_ofList]
  exact hspaced

theorem spells_compact (v : Json) : Spells v.compact v.sketch :=
  spells_writeAt Layout.blank_compact v

theorem spells_pretty (v : Json) : Spells v.pretty v.sketch :=
  spells_writeAt Layout.blank_pretty v

/-- **The outline of a written value is the sketch of the value**, with nothing after it. -/
theorem outline_writeAt {layout : Layout} (hlayout : layout.Blank) (v : Json) :
    Outline.ofText (String.ofList (writeAt layout 0 v)) = ⟨v.sketch, false⟩ :=
  outline_of_spells (spells_writeAt hlayout v)

theorem outline_compact (v : Json) : Outline.ofText v.compact = ⟨v.sketch, false⟩ :=
  outline_writeAt Layout.blank_compact v

theorem outline_pretty (v : Json) : Outline.ofText v.pretty = ⟨v.sketch, false⟩ :=
  outline_writeAt Layout.blank_pretty v

end CaskLint.Json
