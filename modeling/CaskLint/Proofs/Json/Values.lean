import CaskLint.Proofs.Fallible
import CaskLint.Proofs.Json.Written

/-!
# The value of a written value

  Reading a written value can fail in one way only, and exactly when (`value_sketch`):

* **`Json.depth`** — it nests deeper than the reader allows, or
* **`Json.inRange`** — one of its numbers is out of the reader's range.

  Otherwise it comes back as **`Json.reread`**, which differs from it in floating-point
  numbers alone: the number that the written digits are read as (`Binary64.reread`), and `null` for
  one that is not finite. Whether a number is read back as an equal one is
  **`Binary64.readsBack`**.
-/

namespace CaskLint

/-! ## Nesting -/

namespace Json

mutual

/-- How many arrays and objects are open inside one another in a sketch. -/
def Sketch.depth : Sketch → Nat
  | .array items _ => Sketch.itemsDepth items + 1
  | .object members _ => Sketch.membersDepth members + 1
  | _ => 0

/-- The greatest depth of the items. -/
def Sketch.itemsDepth : List Sketch → Nat
  | [] => 0
  | v :: vs => max v.depth (Sketch.itemsDepth vs)

/-- The greatest depth of the values of the members. -/
def Sketch.membersDepth : List (Quotation × Sketch) → Nat
  | [] => 0
  | (_, v) :: ms => max v.depth (Sketch.membersDepth ms)

end

/-- How many arrays and objects a text nests. -/
def nesting (text : String) : Nat := (Outline.ofText text).sketch.depth

mutual

/-- How many arrays and objects a value nests. -/
def depth : Json → Nat
  | .array items => itemsDepth items + 1
  | .object members => membersDepth members + 1
  | _ => 0

/-- The greatest depth of the items. -/
def itemsDepth : List Json → Nat
  | [] => 0
  | v :: vs => max v.depth (itemsDepth vs)

/-- The greatest depth of the values of the members. -/
def membersDepth : List (String × Json) → Nat
  | [] => 0
  | (_, v) :: ms => max v.depth (membersDepth ms)

end

mutual

/-- A value is written as deep as it is. -/
theorem depth_sketch (v : Json) : v.sketch.depth = v.depth := by
  match v with
  | .null | .flag _ | .integer _ | .text _ => rfl
  | .float x => cases x <;> rfl
  | .array items => exact congrArg (· + 1) (itemsDepth_itemSketches items)
  | .object members => exact congrArg (· + 1) (membersDepth_memberSketches members)

theorem itemsDepth_itemSketches (items : List Json) :
    Sketch.itemsDepth (itemSketches items) = itemsDepth items := by
  match items with
  | [] => rfl
  | v :: vs => rw [itemSketches, Sketch.itemsDepth, depth_sketch v, itemsDepth_itemSketches vs,
      itemsDepth]

theorem membersDepth_memberSketches (members : List (String × Json)) :
    Sketch.membersDepth (memberSketches members) = membersDepth members := by
  match members with
  | [] => rfl
  | (_, v) :: ms => rw [memberSketches, Sketch.membersDepth, depth_sketch v,
      membersDepth_memberSketches ms, membersDepth]

end

theorem nesting_pretty (v : Json) : nesting v.pretty = v.depth := by
  rw [nesting, outline_pretty, depth_sketch]

end Json

/-! ## Numbers that are read back -/

namespace Binary64

/-- What the written digits of a number are read as; none if it is not finite, or if its digits are
    out of the reader's range. -/
def reread? : Binary64 → Option Binary64
  | .finite negative m => (Json.Numeral.ofMagnitude Json.floatStyle negative m).float?
  | _ => none

/-- The number that the written digits of a number are read as. -/
def reread (x : Binary64) : Binary64 := x.reread?.getD x

/-- Whether reading the written form of a number succeeds. -/
def inRange (x : Binary64) : Bool := !x.isFinite || x.reread?.isSome

/-- Whether the written digits of a number are read as an equal number. -/
def readsBack (x : Binary64) : Bool :=
  match Json.ofText (String.ofList (Json.writeFloat x)) with
  | .ok (.float y) => y.sameValue x
  | _ => false

end Binary64

namespace Json

/-- The value that the written form of a floating-point number is read as. -/
def rereadFloat (x : Binary64) : Json := if x.isFinite then .float x.reread else .null

/-- An integer of 64 bits is read back as itself. -/
theorem value?_ofInt {i : Int} (hlow : -9223372036854775808 ≤ i)
    (hhigh : i < 18446744073709551616) : (Numeral.ofInt i).value? = some (.integer i) := by
  rw [Numeral.value?, Numeral.integer?_ofInt hlow hhigh]

theorem value_floatSketch (n : Nat) (x : Binary64) :
    (floatSketch x).value n = okIf x.inRange .malformed (rereadFloat x) := by
  cases x with
  | infinite negative => rfl
  | nan => rfl
  | finite negative m =>
      -- its numeral is no integer, so the floating-point reader gets it
      show (Numeral.ofMagnitude floatStyle negative m).read = _
      rw [Numeral.read, Numeral.value?, Numeral.integer?_ofMagnitude, rereadFloat,
        Binary64.inRange, Binary64.reread]
      have hreread : Binary64.reread? (.finite negative m) =
          (Numeral.ofMagnitude floatStyle negative m).float? := rfl
      rw [hreread]
      cases (Numeral.ofMagnitude floatStyle negative m).float? <;> rfl

/-- A number reads back when its digits are in range and give an equal number. -/
theorem readsBack_iff {x : Binary64} :
    x.readsBack = true ↔ x.isFinite = true ∧ x.inRange = true ∧ x.reread.sameValue x = true := by
  have htext : Json.ofText (String.ofList (writeFloat x)) =
      okIf x.inRange .malformed (rereadFloat x) := by
    show Json.ofText (String.ofList (writeAt .compact 0 (.float x))) = _
    rw [Json.ofText, outline_writeAt Layout.blank_compact]
    show (do let v ← (floatSketch x).value maxDepth; if false then .error .malformed else .ok v) = _
    rw [value_floatSketch]
    cases x.inRange <;> rfl
  rw [Binary64.readsBack, htext, rereadFloat]
  cases x.isFinite <;> cases x.inRange <;> simp

/-! ## Values that are read back -/

mutual

/-- Whether all numbers of a value are in the reader's range. -/
def inRange : Json → Bool
  | .integer i => (Numeral.ofInt i).value?.isSome
  | .float x => x.inRange
  | .array items => itemsInRange items
  | .object members => membersInRange members
  | _ => true

/-- Whether all numbers of the items are in range. -/
def itemsInRange : List Json → Bool
  | [] => true
  | v :: vs => inRange v && itemsInRange vs

/-- Whether all numbers of the members are in range. -/
def membersInRange : List (String × Json) → Bool
  | [] => true
  | (_, v) :: ms => inRange v && membersInRange ms

end

mutual

/-- The value that the written form of a value is read as. -/
def reread : Json → Json
  | .integer i => (Numeral.ofInt i).value?.getD (.integer i)
  | .float x => rereadFloat x
  | .array items => .array (rereadItems items)
  | .object members => .object (rereadMembers members)
  | v => v

/-- The items as they are read back. -/
def rereadItems : List Json → List Json
  | [] => []
  | v :: vs => reread v :: rereadItems vs

/-- The members as they are read back. -/
def rereadMembers : List (String × Json) → List (String × Json)
  | [] => []
  | (name, v) :: ms => (name, reread v) :: rereadMembers ms

end

/-- Whether a value can be read when so many arrays and objects may be open. -/
def fits (n : Nat) (v : Json) : Bool := v.depth ≤ n && v.inRange

/-- Whether the items can be read. -/
def itemsFit (n : Nat) (items : List Json) : Bool := itemsDepth items ≤ n && itemsInRange items

/-- Whether the members can be read. -/
def membersFit (n : Nat) (members : List (String × Json)) : Bool :=
  membersDepth members ≤ n && membersInRange members

theorem decide_max_le (a b n : Nat) :
    decide (max a b ≤ n) = (decide (a ≤ n) && decide (b ≤ n)) := by
  rw [← Bool.decide_and]
  exact decide_eq_decide.mpr Nat.max_le

theorem decide_succ_le_succ (a n : Nat) : decide (a + 1 ≤ n + 1) = decide (a ≤ n) :=
  decide_eq_decide.mpr Nat.add_le_add_iff_right

theorem itemsFit_cons (n : Nat) (v : Json) (vs : List Json) :
    itemsFit n (v :: vs) = (v.fits n && itemsFit n vs) := by
  rw [itemsFit, fits, itemsFit, itemsDepth, itemsInRange, decide_max_le]
  ac_rfl

theorem membersFit_cons (n : Nat) (name : String) (v : Json) (ms : List (String × Json)) :
    membersFit n ((name, v) :: ms) = (v.fits n && membersFit n ms) := by
  rw [membersFit, fits, membersFit, membersDepth, membersInRange, decide_max_le]
  ac_rfl

theorem fits_array_succ (n : Nat) (items : List Json) :
    (Json.array items).fits (n + 1) = itemsFit n items := by
  rw [fits, itemsFit, depth, inRange, decide_succ_le_succ]

theorem fits_object_succ (n : Nat) (members : List (String × Json)) :
    (Json.object members).fits (n + 1) = membersFit n members := by
  rw [fits, membersFit, depth, inRange, decide_succ_le_succ]

mutual

/-- **A written value is read back as far as it fits**, and the text is malformed otherwise. -/
theorem value_sketch (n : Nat) (v : Json) :
    v.sketch.value n = okIf (v.fits n) .malformed v.reread := by
  match v with
  | .null | .flag _ => rfl
  | .integer i =>
      show (Numeral.ofInt i).read = okIf (Numeral.ofInt i).value?.isSome .malformed
        ((Numeral.ofInt i).value?.getD (.integer i))
      rw [Numeral.read]
      cases (Numeral.ofInt i).value? <;> rfl
  | .float x => exact value_floatSketch n x
  | .text s => rw [sketch, Sketch.value, read_quoted]; rfl
  | .array items =>
      cases n with
      -- one array more than may be open
      | zero => rfl
      | succ n =>
          rw [sketch, Sketch.value, values_itemSketches n items, fits_array_succ]
          cases itemsFit n items <;> rfl
  | .object members =>
      cases n with
      | zero => rfl
      | succ n =>
          rw [sketch, Sketch.value, memberValues_memberSketches n members, fits_object_succ]
          cases membersFit n members <;> rfl

theorem values_itemSketches (n : Nat) (items : List Json) :
    Sketch.values n (itemSketches items) =
      okIf (itemsFit n items) .malformed (rereadItems items) := by
  match items with
  | [] => rfl
  | v :: vs =>
      rw [itemSketches, Sketch.values, value_sketch n v, values_itemSketches n vs, itemsFit_cons]
      cases v.fits n <;> cases itemsFit n vs <;> rfl

theorem memberValues_memberSketches (n : Nat) (members : List (String × Json)) :
    Sketch.memberValues n (memberSketches members) =
      okIf (membersFit n members) .malformed (rereadMembers members) := by
  match members with
  | [] => rfl
  | (name, v) :: ms =>
      rw [memberSketches, Sketch.memberValues, read_quoted, value_sketch n v,
        memberValues_memberSketches n ms, membersFit_cons]
      cases v.fits n <;> cases membersFit n ms <;> rfl

end

/-- The text of a value is read back as far as the value fits. -/
theorem ofText_pretty (v : Json) :
    ofText v.pretty = okIf (v.fits maxDepth) .malformed v.reread := by
  rw [ofText, outline_pretty]
  show (do let v ← v.sketch.value maxDepth; if false then .error .malformed else .ok v) = _
  rw [value_sketch]
  cases v.fits maxDepth <;> rfl

/-- A list of items can be read when each of them can. -/
theorem itemsFit_of_forall {n : Nat} {items : List Json} (h : ∀ v ∈ items, v.fits n = true) :
    itemsFit n items = true := by
  induction items with
  | nil => rfl
  | cons v vs ih =>
      obtain ⟨hv, hvs⟩ := List.forall_mem_cons.mp h
      rw [itemsFit_cons, hv, ih hvs]
      rfl

theorem rereadItems_eq_map (items : List Json) : rereadItems items = items.map reread := by
  induction items with
  | nil => rfl
  | cons v vs ih => rw [rereadItems, List.map_cons, ih]

end Json

end CaskLint
