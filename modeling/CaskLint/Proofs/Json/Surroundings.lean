import CaskLint.Proofs.Json.Limits
import CaskLint.Proofs.Json.Spelled

/-!
# A value in place

  What stands around a value is a sketch with a hole (**`Surroundings`**): around it are the arrays
  and objects that hold it, from the outermost one inwards, each with what comes before and after.
  `Surroundings.fill` puts a value in the hole.

  A sketch with a hole has tokens on either side of the hole, and so is spelled by two texts
  (**`Surroundings.Spells`**). The text of any value between the two spells the sketch with that
  value in place (**`spells_fill`**).
-/

namespace CaskLint.Json

/-- A sketch without a fault, but for a hole. -/
inductive Surroundings where
  | hole
  /-- An array that holds the hole in one of its items. -/
  | item (before : List Sketch) (inner : Surroundings) (after : List Sketch)
  /-- An object that holds the hole in the value of one of its members. -/
  | member (before : List (Quotation × Sketch)) (name : Quotation) (inner : Surroundings)
      (after : List (Quotation × Sketch))

namespace Surroundings

/-- The sketch with a value in the hole. -/
def fill : Surroundings → Sketch → Sketch
  | .hole, v => v
  | .item before inner after, v => .array (before ++ inner.fill v :: after) none
  | .member before name inner after, v => .object (before ++ (name, inner.fill v) :: after) none

/-- How many arrays and objects stand around the hole. -/
def depth : Surroundings → Nat
  | .hole => 0
  | .item _ inner _ => inner.depth + 1
  | .member _ _ inner _ => inner.depth + 1

/-- The tokens before the hole. -/
def tokensBefore : Surroundings → List Token
  | .hole => []
  | .item before inner _ => .openArray :: (itemsRead before ++ inner.tokensBefore)
  | .member before name inner _ =>
    .openObject :: (membersRead before ++ .text name :: .colon :: inner.tokensBefore)

/-- The tokens after the hole. -/
def tokensAfter : Surroundings → List Token
  | .hole => []
  | .item _ inner after => inner.tokensAfter ++ (Sketch.moreItemTokens after ++ [.closeArray])
  | .member _ _ inner after =>
    inner.tokensAfter ++ (Sketch.moreMemberTokens after ++ [.closeObject])

/-- Two texts spell what stands before and after the hole. -/
structure Spells (c : Surroundings) (before after : String) : Prop where
  before : Spaced c.tokensBefore before.toList
  after : Spaced c.tokensAfter after.toList

variable {c : Surroundings} {v : Sketch}

/-- A value in the hole adds to the depth. -/
theorem depth_add_le_depth_fill : c.depth + v.depth ≤ (c.fill v).depth := by
  induction c with
  | hole => exact Nat.le_of_eq (Nat.zero_add _)
  | item before inner after ih =>
      have hitem : (inner.fill v).depth ≤ Sketch.itemsDepth (before ++ inner.fill v :: after) :=
        depth_le_itemsDepth (List.mem_append_right before List.mem_cons_self)
      rw [depth, fill, Sketch.depth]
      omega
  | member before name inner after ih =>
      have hmember : (inner.fill v).depth ≤
          Sketch.membersDepth (before ++ (name, inner.fill v) :: after) :=
        depth_le_membersDepth (m := (name, inner.fill v))
          (List.mem_append_right before List.mem_cons_self)
      rw [depth, fill, Sketch.depth]
      omega

theorem tokens_fill (c : Surroundings) (v : Sketch) :
    (c.fill v).tokens = c.tokensBefore ++ (v.tokens ++ c.tokensAfter) := by
  induction c with
  | hole => exact (List.append_nil _).symm
  | item before inner after ih =>
      rw [fill, Sketch.tokens, itemTokens_append_cons, ih, tokensBefore, tokensAfter]
      simp only [List.cons_append, List.append_assoc]
      rfl
  | member before name inner after ih =>
      rw [fill, Sketch.tokens, memberTokens_append_cons, ih, tokensBefore, tokensAfter]
      simp only [List.cons_append, List.append_assoc]
      rfl

/-- **The text of a value between the two spells the sketch with the value in place.** -/
theorem spells_fill {before n after : String} (hc : c.Spells before after)
    (hn : Json.Spells n v) : Json.Spells (before ++ n ++ after) (c.fill v) := by
  rw [Json.Spells, tokens_fill, String.toList_append, String.toList_append, List.append_assoc]
  exact hc.before.append (Spaced.append hn hc.after)

end Surroundings

end CaskLint.Json
