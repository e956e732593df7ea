import CaskLint.Proofs.Source.Positions
import CaskLint.Proofs.Text.Bytes
import CaskLint.Source.Table
import Mathlib.Data.List.Sort
import Mathlib.Data.List.TakeWhile

/-!
# Locations are exact

  The location of an offset is found in a list of the places where lines begin. What it says can
  be told without that list, from the bytes of the source alone: the line counts the newline bytes
  below the offset (**`newlinesBelow`**), and the column counts from behind the last of them
  (**`lineStart`**).

* **`laterStarts_takeWhile`** — the lines that begin up to an offset begin behind the newlines
  below it. Both lists are in order, so it is enough that they have the same members.
* **`partitionPoint_append`** — halving finds where the items that pass a test end.
* **`LineTable.location?_ofSource`** — a table of words finds what the list finds, unless the
  column is no word. No step of the lookup is missing before that.
* **`LineIndex.toNat_line`**, **`LineIndex.toNat_column`** — what a location keeps of the two
  numbers is all of them, but for the last word: its column is too large in a source without a
  newline, and its line in a source of nothing but newlines (**`LineIndex.location_newlines`**).

  **`LineIndex.location_exact`** puts them together, for offsets in the source, inside a character
  and behind the end alike.
-/

namespace CaskLint

/-! ## Newline bytes -/

/-- The positions below an offset at which a source has the byte of a newline. -/
def newlinesBelow (source : String) (offset : Nat) : List Nat :=
  (List.range offset).filter fun i => source.toUTF8.data[i]? == some '\n'.toUInt8

/-- Where the line of an offset begins: behind the last newline below it. -/
def lineStart (source : String) (offset : Nat) : Nat :=
  ((newlinesBelow source offset).map (· + 1)).getLast?.getD 0

/-- The bytes of a character of several bytes are none of a character of one byte. -/
theorem le_toNat_of_mem_utf8EncodeChar {c : Char} {b : UInt8} (hc : 127 < c.val.toNat)
    (hb : b ∈ String.utf8EncodeChar c) : 128 ≤ b.toNat := by
  have hofNat : ∀ {n : Nat}, 128 ≤ n → n < 256 → 128 ≤ (UInt8.ofNat n).toNat := by
    intro n hlow hhigh
    rw [UInt8.toNat_ofNat_of_lt' hhigh]
    exact hlow
  rw [String.utf8EncodeChar, if_neg (by omega)] at hb
  split at hb
  · simp only [List.mem_cons, List.not_mem_nil, or_false] at hb
    rcases hb with rfl | rfl <;> exact hofNat (by omega) (by omega)
  · split at hb
    · simp only [List.mem_cons, List.not_mem_nil, or_false] at hb
      rcases hb with rfl | rfl | rfl <;> exact hofNat (by omega) (by omega)
    · simp only [List.mem_cons, List.not_mem_nil, or_false] at hb
      rcases hb with rfl | rfl | rfl | rfl <;> exact hofNat (by omega) (by omega)

/-- The byte of a newline stands for a newline wherever it is found. -/
theorem newline_mem_utf8EncodeChar {c : Char} :
    '\n'.toUInt8 ∈ String.utf8EncodeChar c ↔ c = '\n' := by
  constructor
  · intro h
    rcases Nat.lt_or_ge 127 c.val.toNat with hc | hc
    · have hlow : 128 ≤ 10 := le_toNat_of_mem_utf8EncodeChar hc h
      exact absurd hlow (by decide)
    · rw [String.utf8EncodeChar, if_pos hc, List.mem_singleton] at h
      have hcode : 10 = c.val.toNat % 256 := congrArg UInt8.toNat h
      refine Char.ext (UInt32.toNat_inj.mp ?_)
      show c.val.toNat = 10
      omega
  · rintro rfl
    decide

/-- A newline is a single byte, so behind a character the newlines are those of the rest. -/
theorem getElem?_utf8EncodeChar_append {c : Char} {bytes : List UInt8} {i : Nat} :
    (String.utf8EncodeChar c ++ bytes)[i]? = some '\n'.toUInt8 ↔
      (c = '\n' ∧ i = 0) ∨ ∃ j, i = c.utf8Size + j ∧ bytes[j]? = some '\n'.toUInt8 := by
  rcases Nat.lt_or_ge i c.utf8Size with hi | hi
  · rw [List.getElem?_append_left (String.length_utf8EncodeChar c ▸ hi)]
    constructor
    · intro h
      obtain rfl := newline_mem_utf8EncodeChar.mp (List.mem_of_getElem? h)
      exact .inl ⟨rfl, Nat.lt_one_iff.mp hi⟩
    · rintro (⟨rfl, rfl⟩ | ⟨j, rfl, -⟩)
      · rfl
      · omega
  · rw [List.getElem?_append_right (String.length_utf8EncodeChar c ▸ hi),
      String.length_utf8EncodeChar]
    constructor
    · intro h
      exact .inr ⟨i - c.utf8Size, by omega, h⟩
    · have hpos := c.utf8Size_pos
      rintro (⟨rfl, rfl⟩ | ⟨j, rfl, h⟩)
      · omega
      · rw [Nat.add_sub_cancel_left]
        exact h

/-! ## Lines begin behind newline bytes -/

theorem mem_startsAfterNewlines {n k : Nat} {cs : List Char} :
    k ∈ startsAfterNewlines n cs ↔
      ∃ i, (cs.flatMap String.utf8EncodeChar)[i]? = some '\n'.toUInt8 ∧ k = n + i + 1 := by
  induction cs generalizing n with
  | nil =>
      constructor
      · intro h
        exact nomatch h
      · rintro ⟨i, h, -⟩
        exact nomatch h
  | cons c cs ih =>
      have hstep : k ∈ startsAfterNewlines n (c :: cs) ↔
          (c = '\n' ∧ k = n + c.utf8Size) ∨ k ∈ startsAfterNewlines (n + c.utf8Size) cs := by
        rw [startsAfterNewlines]
        by_cases hc : c = '\n'
        · rw [if_pos hc, List.mem_cons, and_iff_right hc]
        · rw [if_neg hc, or_iff_right (fun h => hc h.1)]
      rw [hstep, ih, List.flatMap_cons]
      constructor
      · rintro (⟨rfl, rfl⟩ | ⟨j, h, rfl⟩)
        · exact ⟨0, getElem?_utf8EncodeChar_append.mpr (.inl ⟨rfl, rfl⟩), rfl⟩
        · exact ⟨c.utf8Size + j, getElem?_utf8EncodeChar_append.mpr (.inr ⟨j, rfl, h⟩), by omega⟩
      · rintro ⟨i, h, rfl⟩
        rcases getElem?_utf8EncodeChar_append.mp h with ⟨rfl, rfl⟩ | ⟨j, rfl, hrest⟩
        · exact .inl ⟨rfl, rfl⟩
        · exact .inr ⟨j, hrest, by omega⟩

theorem pairwise_startsAfterNewlines (n : Nat) (cs : List Char) :
    (startsAfterNewlines n cs).Pairwise (· < ·) := by
  induction cs generalizing n with
  | nil => exact .nil
  | cons c cs ih =>
      rw [startsAfterNewlines]
      split
      · exact .cons (fun k hk => (bounds_of_mem_startsAfterNewlines hk).1) (ih _)
      · exact ih _

/-! ## Lists that pass a test up to a place -/

section Passing

variable {α : Type} {test : α → Bool} {xs : List α}

/-- Behind the first item that fails all fail, if what stands before an item that passes passes. -/
theorem eq_false_of_mem_dropWhile
    (hordered : xs.Pairwise fun x y => test y = true → test x = true) :
    ∀ x ∈ xs.dropWhile test, test x = false := by
  induction xs with
  | nil =>
      intro x hx
      exact nomatch hx
  | cons y xs ih =>
      obtain ⟨hfirst, hordered⟩ := List.pairwise_cons.mp hordered
      cases hy : test y with
      | true =>
          rw [List.dropWhile_cons_of_pos hy]
          exact ih hordered
      | false =>
          rw [List.dropWhile_cons_of_neg (Bool.eq_false_iff.mp hy)]
          intro x hx
          rcases List.mem_cons.mp hx with rfl | hx
          · exact hy
          · refine Bool.eq_false_iff.mpr fun hpass => ?_
            exact Bool.eq_false_iff.mp hy (hfirst x hx hpass)

theorem mem_takeWhile_iff (hordered : xs.Pairwise fun x y => test y = true → test x = true)
    {x : α} : x ∈ xs.takeWhile test ↔ x ∈ xs ∧ test x = true := by
  constructor
  · intro hx
    exact ⟨(List.takeWhile_sublist test).subset hx, List.mem_takeWhile_imp hx⟩
  · rintro ⟨hx, hpass⟩
    rw [← List.takeWhile_append_dropWhile (p := test) (l := xs), List.mem_append] at hx
    rcases hx with hx | hx
    · exact hx
    · rw [eq_false_of_mem_dropWhile hordered x hx] at hpass
      exact absurd hpass Bool.false_ne_true

theorem getElem?_append_any {passed failed : List α} (hpassed : ∀ x ∈ passed, test x = true)
    (hfailed : ∀ x ∈ failed, test x = false) (i : Nat) :
    (passed ++ failed).toArray[i]?.any test = decide (i < passed.length) := by
  rw [List.getElem?_toArray]
  rcases Nat.lt_or_ge i passed.length with hi | hi
  · rw [List.getElem?_append_left hi, List.getElem?_eq_getElem hi, Option.any_some,
      hpassed _ (List.getElem_mem hi), decide_eq_true hi]
  · rw [List.getElem?_append_right hi, decide_eq_false (Nat.not_lt.mpr hi), Option.any_eq_false]
    exact fun x hx => hfailed x (List.mem_of_getElem? hx)

/-- The place where the items begin to fail stays between the two indices of the search. -/
theorem partitionPoint_search {passed failed : List α} (hpassed : ∀ x ∈ passed, test x = true)
    (hfailed : ∀ x ∈ failed, test x = false) {low high : Nat} (hlow : low ≤ passed.length)
    (hhigh : passed.length ≤ high) :
    partitionPoint.search test (passed ++ failed).toArray low high = passed.length := by
  fun_induction partitionPoint.search test (passed ++ failed).toArray low high with
  | case1 low high hlt middle hpass ih =>
      rw [getElem?_append_any hpassed hfailed, decide_eq_true_iff] at hpass
      exact ih hpass hhigh
  | case2 low high hlt middle hfail ih =>
      rw [getElem?_append_any hpassed hfailed, decide_eq_true_iff, Nat.not_lt] at hfail
      exact ih hlow hfail
  | case3 low high hle => omega

/-- Halving finds how many items pass. -/
theorem partitionPoint_append {passed failed : List α} (hpassed : ∀ x ∈ passed, test x = true)
    (hfailed : ∀ x ∈ failed, test x = false) :
    partitionPoint test (passed ++ failed).toArray = passed.length := by
  refine partitionPoint_search hpassed hfailed (Nat.zero_le _) ?_
  rw [List.size_toArray, List.length_append]
  exact Nat.le_add_right _ _

end Passing

/-! ## Lines up to an offset -/

variable {source : String} {offset : Nat}

theorem mem_newlinesBelow {i : Nat} :
    i ∈ newlinesBelow source offset ↔ i < offset ∧
      (source.toList.flatMap String.utf8EncodeChar)[i]? = some '\n'.toUInt8 := by
  rw [newlinesBelow, List.mem_filter, List.mem_range, beq_iff_eq, ← data_toUTF8,
    Array.getElem?_toList]

theorem pairwise_newlinesBelow : (newlinesBelow source offset).Pairwise (· < ·) :=
  List.pairwise_lt_range.filter _

/-- The lines of a source are in order, so those up to an offset come before the others. -/
theorem ordered_laterStarts :
    (LineIndex.ofSource source).laterStarts.Pairwise fun j k =>
      decide (k ≤ offset) = true → decide (j ≤ offset) = true := by
  refine (pairwise_startsAfterNewlines 0 source.toList).imp fun {j k} hlt hk => ?_
  rw [decide_eq_true_iff] at hk ⊢
  omega

theorem laterStarts_takeWhile :
    (LineIndex.ofSource source).laterStarts.takeWhile (· ≤ offset) =
      (newlinesBelow source offset).map (· + 1) := by
  have hstarts : ((LineIndex.ofSource source).laterStarts.takeWhile (· ≤ offset)).Pairwise
      (· < ·) :=
    (pairwise_startsAfterNewlines 0 _).sublist (List.takeWhile_sublist _)
  have hnewlines : ((newlinesBelow source offset).map (· + 1)).Pairwise (· < ·) :=
    List.pairwise_map.mpr (pairwise_newlinesBelow.imp Nat.succ_lt_succ)
  refine hstarts.eq_of_mem_iff hnewlines fun k => ?_
  rw [mem_takeWhile_iff ordered_laterStarts, LineIndex.ofSource, mem_startsAfterNewlines,
    List.mem_map, decide_eq_true_iff]
  constructor
  · rintro ⟨⟨i, hbyte, rfl⟩, hle⟩
    exact ⟨i, mem_newlinesBelow.mpr ⟨by omega, hbyte⟩, by omega⟩
  · rintro ⟨i, hi, rfl⟩
    obtain ⟨hlt, hbyte⟩ := mem_newlinesBelow.mp hi
    exact ⟨⟨i, hbyte, by omega⟩, hlt⟩

theorem lineStart_le : lineStart source offset ≤ offset := by
  rw [lineStart]
  cases hlast : ((newlinesBelow source offset).map (· + 1)).getLast? with
  | none => exact Nat.zero_le _
  | some start =>
      obtain ⟨i, hi, rfl⟩ := List.mem_map.mp (List.mem_of_getLast? hlast)
      exact (mem_newlinesBelow.mp hi).1

theorem LineIndex.lineAt_ofSource :
    (ofSource source).lineAt offset = 1 + (newlinesBelow source offset).length := by
  rw [lineAt, laterStarts_takeWhile, List.length_map, Nat.add_comm]

theorem LineIndex.columnAt_ofSource :
    (ofSource source).columnAt offset = 1 + (offset - lineStart source offset) := by
  rw [columnAt, laterStarts_takeWhile, ← lineStart, Nat.add_comm]

/-! ## The lookup in a table -/

theorem exists_subWords? {a b : UInt32} (h : b.toNat ≤ a.toNat) :
    ∃ c, subWords? a b = some c ∧ c.toNat = a.toNat - b.toNat :=
  ⟨a - b, if_pos h, UInt32.toNat_sub_of_le a b h⟩

/-- The sum of two words counts what the words count, if there is one. -/
theorem addWords?_eq (a b : UInt32) :
    addWords? a b =
      if a.toNat + b.toNat < UInt32.size then some (.ofNat (a.toNat + b.toNat)) else none := by
  rw [addWords?, UInt32.ofNat_add, UInt32.ofNat_toNat, UInt32.ofNat_toNat]

/-- As many places on as there are items in a list stands the last of them, or what stands in
    front of them if there are none. -/
theorem getElem?_length_append {α : Type} (first : α) (xs ys : List α) :
    (first :: (xs ++ ys))[xs.length]? = some (xs.getLast?.getD first) := by
  rcases List.eq_nil_or_concat' xs with rfl | ⟨xs, last, rfl⟩
  · rfl
  · rw [List.getLast?_concat, List.length_append, List.length_singleton, List.getElem?_cons_succ,
      List.append_assoc, List.getElem?_append_right (Nat.le_refl _), Nat.sub_self]
    rfl

/-- The lines of a source: those that begin up to an offset, and those that begin after it. -/
theorem exists_laterStarts (source : String) (offset : Nat) :
    ∃ later, (LineIndex.ofSource source).laterStarts =
        (newlinesBelow source offset).map (· + 1) ++ later ∧
      ∀ k ∈ later, offset < k ∧ k ≤ source.utf8ByteSize := by
  refine ⟨(LineIndex.ofSource source).laterStarts.dropWhile (· ≤ offset), ?_, ?_⟩
  · rw [← laterStarts_takeWhile, List.takeWhile_append_dropWhile]
  · intro k hk
    have hlate := eq_false_of_mem_dropWhile ordered_laterStarts k hk
    rw [decide_eq_false_iff_not, Nat.not_le] at hlate
    obtain ⟨-, hle⟩ := bounds_of_mem_startsAfterNewlines ((List.dropWhile_sublist _).subset hk)
    rw [Nat.zero_add, byteLength_toList] at hle
    exact ⟨hlate, hle⟩

namespace LineTable

theorem ofSource_starts :
    (ofSource source).starts =
      ((0 :: (LineIndex.ofSource source).laterStarts).map UInt32.ofNat).toArray := rfl

theorem partitionPoint_starts (hsize : source.utf8ByteSize < UInt32.size) (offset : UInt32) :
    partitionPoint (· ≤ offset) (ofSource source).starts =
      (newlinesBelow source offset.toNat).length + 1 := by
  obtain ⟨later, hlater, hlate⟩ := exists_laterStarts source offset.toNat
  have hpassed : ∀ w ∈ (0 :: (newlinesBelow source offset.toNat).map (· + 1)).map UInt32.ofNat,
      decide (w ≤ offset) = true := by
    intro w hw
    obtain ⟨k, hk, rfl⟩ := List.mem_map.mp hw
    have hle : k ≤ offset.toNat := by
      rcases List.mem_cons.mp hk with rfl | hk
      · exact Nat.zero_le _
      · obtain ⟨i, hi, rfl⟩ := List.mem_map.mp hk
        exact (mem_newlinesBelow.mp hi).1
    have hword := offset.toNat_lt_size
    rw [decide_eq_true_iff, UInt32.le_iff_toNat_le, UInt32.toNat_ofNat_of_lt' (by omega)]
    exact hle
  have hfailed : ∀ w ∈ later.map UInt32.ofNat, decide (w ≤ offset) = false := by
    intro w hw
    obtain ⟨k, hk, rfl⟩ := List.mem_map.mp hw
    obtain ⟨hlt, hle⟩ := hlate k hk
    rw [decide_eq_false_iff_not, UInt32.le_iff_toNat_le, UInt32.toNat_ofNat_of_lt' (by omega)]
    omega
  have hstarts : (ofSource source).starts =
      ((0 :: (newlinesBelow source offset.toNat).map (· + 1)).map UInt32.ofNat ++
        later.map UInt32.ofNat).toArray := by
    rw [ofSource_starts, hlater, ← List.map_append, List.cons_append]
  rw [hstarts, partitionPoint_append hpassed hfailed, List.length_map, List.length_cons,
    List.length_map]

/-- The last line that begins up to an offset is in the table. -/
theorem getElem?_starts (source : String) (offset : Nat) :
    (ofSource source).starts[(newlinesBelow source offset).length]? =
      some (UInt32.ofNat (lineStart source offset)) := by
  obtain ⟨later, hlater, -⟩ := exists_laterStarts source offset
  rw [ofSource_starts, List.getElem?_toArray, List.getElem?_map, hlater,
    ← List.length_map (· + 1), getElem?_length_append, Option.map_some, lineStart]

/-- **A table of words finds what the list of lines finds**, as long as the column is a word. -/
theorem location?_ofSource (hsize : source.utf8ByteSize < UInt32.size) (offset : UInt32) :
    (ofSource source).location? offset =
      if (LineIndex.ofSource source).columnAt offset.toNat < UInt32.size then
        some ((LineIndex.ofSource source).location offset)
      else none := by
  have hle : lineStart source offset.toNat ≤ offset.toNat := lineStart_le
  have hstart :
      (UInt32.ofNat (lineStart source offset.toNat)).toNat = lineStart source offset.toNat :=
    UInt32.toNat_ofNat_of_lt' (Nat.lt_of_le_of_lt hle offset.toNat_lt_size)
  obtain ⟨distance, hsub, hdistance⟩ :=
    exists_subWords? (a := offset) (Nat.le_trans (Nat.le_of_eq hstart) hle)
  rw [hstart] at hdistance
  have hcolumn : distance.toNat + (1 : UInt32).toNat =
      (LineIndex.ofSource source).columnAt offset.toNat := by
    rw [LineIndex.columnAt_ofSource, hdistance, Nat.add_comm, UInt32.toNat_one]
  have hlookup : (ofSource source).location? offset =
      (addWords? distance 1).map fun column =>
        ⟨.ofNat ((newlinesBelow source offset.toNat).length + 1), column⟩ := by
    rw [Option.map_eq_bind]
    simp only [location?, partitionPoint_starts hsize, Nat.add_sub_cancel, getElem?_starts, hsub,
      Option.bind_eq_bind, Option.bind_some, Option.pure_def]
    rfl
  rw [hlookup, addWords?_eq, hcolumn, LineIndex.location, LineIndex.lineAt_ofSource, Nat.add_comm 1]
  split <;> rfl

end LineTable

/-! ## Sources of newlines alone -/

/-- A source of so many newlines. -/
def newlines (n : Nat) : String := String.ofList (List.replicate n '\n')

theorem toList_newlines (n : Nat) : (newlines n).toList = List.replicate n '\n' :=
  String.toList_ofList

theorem utf8ByteSize_newlines (n : Nat) : (newlines n).utf8ByteSize = n := by
  rw [newlines, utf8ByteSize_ofList]
  induction n with
  | zero => rfl
  | succ n ih =>
      rw [List.replicate_succ, byteLength_cons, ih, Nat.add_comm]
      rfl

theorem newlinesBelow_newlines {n offset : Nat} (h : offset ≤ n) :
    newlinesBelow (newlines n) offset = List.range offset := by
  have hbytes : (List.replicate n '\n').flatMap String.utf8EncodeChar =
      List.replicate n '\n'.toUInt8 := by
    rw [List.flatMap_replicate, show String.utf8EncodeChar '\n' = ['\n'.toUInt8] by decide,
      List.flatten_replicate_singleton]
  refine List.filter_eq_self.mpr fun i hi => ?_
  rw [List.mem_range] at hi
  rw [← Array.getElem?_toList, data_toUTF8, toList_newlines, hbytes,
    List.getElem?_replicate_of_lt (Nat.lt_of_lt_of_le hi h)]
  rfl

theorem lineStart_newlines {n offset : Nat} (h : offset ≤ n) :
    lineStart (newlines n) offset = offset := by
  rw [lineStart, newlinesBelow_newlines h]
  cases offset with
  | zero => rfl
  | succ offset =>
      rw [List.range_succ, List.map_append, List.map_singleton, List.getLast?_concat,
        Option.getD_some]

/-- In a source of newlines every offset begins a line. -/
theorem LineIndex.location_newlines {n : Nat} {offset : UInt32} (h : offset.toNat ≤ n) :
    (ofSource (newlines n)).location offset = ⟨.ofNat (1 + offset.toNat), 1⟩ := by
  rw [location, lineAt_ofSource, columnAt_ofSource, newlinesBelow_newlines h, List.length_range,
    lineStart_newlines h, Nat.sub_self]
  rfl

/-! ## Lines and columns that are words -/

theorem length_newlinesBelow_le (source : String) (offset : Nat) :
    (newlinesBelow source offset).length ≤ offset := by
  rw [newlinesBelow]
  exact Nat.le_trans (List.length_filter_le _ _) (Nat.le_of_eq List.length_range)

theorem length_newlinesBelow_le_count (source : String) (offset : Nat) :
    (newlinesBelow source offset).length ≤ source.toList.count '\n' := by
  obtain ⟨later, hlater, -⟩ := exists_laterStarts source offset
  rw [← length_startsAfterNewlines 0]
  show _ ≤ (LineIndex.ofSource source).laterStarts.length
  rw [hlater, List.length_append, List.length_map]
  exact Nat.le_add_right _ _

/-- Only a source of nothing but newlines has as many newlines as bytes. -/
theorem eq_newlines {n : Nat} (hsize : source.utf8ByteSize ≤ n)
    (hcount : n ≤ source.toList.count '\n') : source = newlines n := by
  have hle : source.toList.count '\n' ≤ source.toList.length := List.count_le_length
  have hlength : source.toList.length ≤ source.utf8ByteSize :=
    byteLength_toList source ▸ length_le_byteLength source.toList
  have hall : ∀ c ∈ source.toList, '\n' = c := List.count_eq_length.mp (by omega)
  rw [newlines, ← List.eq_replicate_iff.mpr ⟨by omega, fun c hc => (hall c hc).symm⟩,
    String.ofList_toList]

theorem lineStart_pos (hnewline : '\n' ∈ source.toList) (hend : source.utf8ByteSize ≤ offset) :
    0 < lineStart source offset := by
  obtain ⟨later, hlater, hlate⟩ := exists_laterStarts source offset
  obtain rfl : later = [] := by
    refine List.eq_nil_iff_forall_not_mem.mpr fun k hk => ?_
    have := hlate k hk
    omega
  have hcount : 0 < (LineIndex.ofSource source).laterStarts.length := by
    rw [LineIndex.ofSource, length_startsAfterNewlines]
    exact List.count_pos_iff.mpr hnewline
  rw [hlater, List.append_nil] at hcount
  rw [lineStart]
  cases hlast : ((newlinesBelow source offset).map (· + 1)).getLast? with
  | none =>
      rw [List.getLast?_eq_none_iff.mp hlast] at hcount
      exact absurd hcount (Nat.lt_irrefl 0)
  | some start =>
      obtain ⟨i, -, rfl⟩ := List.mem_map.mp (List.mem_of_getLast? hlast)
      exact Nat.succ_pos i

/-- The column of an offset is a word, but for the last offset in a source of one line. -/
theorem LineIndex.columnAt_lt_size (hsize : source.utf8ByteSize < UInt32.size) {offset : UInt32}
    (hlast : offset = 4294967295 → '\n' ∈ source.toList) :
    (ofSource source).columnAt offset.toNat < UInt32.size := by
  have hword : offset.toNat < 4294967296 := offset.toNat_lt_size
  rw [columnAt_ofSource]
  show 1 + (offset.toNat - lineStart source offset.toNat) < 4294967296
  rcases Nat.lt_or_ge offset.toNat 4294967295 with hlt | hge
  · omega
  · have hoffset : offset.toNat = 4294967295 := by omega
    have hstart : 0 < lineStart source offset.toNat :=
      lineStart_pos (hlast (UInt32.toNat_inj.mp hoffset)) (hoffset ▸ Nat.le_of_lt_succ hsize)
    omega

/-- The line of an offset is a word, but for the last offset in a source of newlines alone. -/
theorem LineIndex.lineAt_lt_size (hsize : source.utf8ByteSize < UInt32.size) {offset : UInt32}
    (hlast : offset = 4294967295 → source ≠ newlines 4294967295) :
    (ofSource source).lineAt offset.toNat < UInt32.size := by
  have hword : offset.toNat < 4294967296 := offset.toNat_lt_size
  have hsize : source.utf8ByteSize < 4294967296 := hsize
  have hoffset := length_newlinesBelow_le source offset.toNat
  have hcount := length_newlinesBelow_le_count source offset.toNat
  rw [lineAt_ofSource]
  show 1 + (newlinesBelow source offset.toNat).length < 4294967296
  by_contra hge
  have hend : offset.toNat = 4294967295 := by omega
  exact hlast (UInt32.toNat_inj.mp hend) (eq_newlines (by omega) (by omega))

theorem LineIndex.toNat_line (hsize : source.utf8ByteSize < UInt32.size) {offset : UInt32}
    (hlast : offset = 4294967295 → source ≠ newlines 4294967295) :
    ((ofSource source).location offset).line.toNat =
      1 + (newlinesBelow source offset.toNat).length := by
  rw [location, UInt32.toNat_ofNat_of_lt' (lineAt_lt_size hsize hlast), lineAt_ofSource]

theorem LineIndex.toNat_column (hsize : source.utf8ByteSize < UInt32.size) {offset : UInt32}
    (hlast : offset = 4294967295 → '\n' ∈ source.toList) :
    ((ofSource source).location offset).column.toNat =
      1 + (offset.toNat - lineStart source offset.toNat) := by
  rw [location, UInt32.toNat_ofNat_of_lt' (columnAt_lt_size hsize hlast), columnAt_ofSource]

/-- A table has no location for a single offset: the last word, in a source without a newline. -/
theorem LineTable.location?_eq_none_iff (hsize : source.utf8ByteSize < UInt32.size)
    (offset : UInt32) :
    (LineTable.ofSource source).location? offset = none ↔
      offset = 4294967295 ∧ '\n' ∉ source.toList := by
  rw [location?_ofSource hsize]
  constructor
  · intro h
    by_contra hlast
    rw [if_pos (LineIndex.columnAt_lt_size hsize (not_and_not_right.mp hlast))] at h
    exact nomatch h
  · rintro ⟨rfl, hnewline⟩
    have hnone : newlinesBelow source (4294967295 : UInt32).toNat = [] := by
      refine List.eq_nil_of_length_eq_zero (Nat.le_zero.mp ?_)
      exact List.count_eq_zero.mpr hnewline ▸ length_newlinesBelow_le_count source _
    refine if_neg ?_
    rw [LineIndex.columnAt_ofSource, lineStart, hnone]
    exact Nat.lt_irrefl _

/-! ## Offsets and locations -/

/-- The offset that a location stands for. -/
def LineIndex.offsetAt (index : LineIndex) (l : Location) : Nat :=
  (0 :: index.laterStarts).getD (l.line.toNat - 1) 0 + (l.column.toNat - 1)

/-- A location comes before another one: in an earlier line, or further left in the same line. -/
def Location.Before (l m : Location) : Prop :=
  l.line < m.line ∨ l.line = m.line ∧ l.column < m.column

theorem LineIndex.offsetAt_location (hsize : source.utf8ByteSize < UInt32.size) {offset : UInt32}
    (hline : offset = 4294967295 → source ≠ newlines 4294967295)
    (hcolumn : offset = 4294967295 → '\n' ∈ source.toList) :
    (ofSource source).offsetAt ((ofSource source).location offset) = offset.toNat := by
  obtain ⟨later, hlater, -⟩ := exists_laterStarts source offset.toNat
  rw [offsetAt, toNat_line hsize hline, toNat_column hsize hcolumn, Nat.add_sub_cancel_left,
    Nat.add_sub_cancel_left, hlater, List.getD_eq_getElem?_getD, ← List.length_map (· + 1),
    getElem?_length_append, Option.getD_some, ← lineStart, Nat.add_sub_cancel' lineStart_le]

theorem newlinesBelow_sublist (source : String) {a b : Nat} (h : a ≤ b) :
    (newlinesBelow source a).Sublist (newlinesBelow source b) :=
  (List.range_sublist.mpr h).filter _

/-- The lines of later offsets begin no earlier, and in one line the columns count on. -/
theorem LineIndex.location_before (hsize : source.utf8ByteSize < UInt32.size) {a b : UInt32}
    (hline : b = 4294967295 → source ≠ newlines 4294967295)
    (hcolumn : b = 4294967295 → '\n' ∈ source.toList) (h : a < b) :
    ((ofSource source).location a).Before ((ofSource source).location b) := by
  have hlt : a.toNat < b.toNat := h
  have hword : b.toNat < 4294967296 := b.toNat_lt_size
  have hlast : a ≠ 4294967295 := by
    rintro rfl
    have hmax : 4294967295 < b.toNat := hlt
    omega
  have hbelow := newlinesBelow_sublist source (Nat.le_of_lt hlt)
  have hlineA : ((ofSource source).location a).line.toNat =
      1 + (newlinesBelow source a.toNat).length := toNat_line hsize fun h => absurd h hlast
  have hlineB := toNat_line hsize hline
  rcases Nat.lt_or_eq_of_le hbelow.length_le with hfewer | hsame
  · refine .inl (UInt32.lt_iff_toNat_lt.mpr ?_)
    rw [hlineA, hlineB]
    exact Nat.add_lt_add_left hfewer 1
  · -- no newline stands between the two offsets
    have hstart : lineStart source a.toNat = lineStart source b.toNat := by
      rw [lineStart, lineStart, hbelow.eq_of_length hsame]
    have hle : lineStart source a.toNat ≤ a.toNat := lineStart_le
    refine .inr ⟨UInt32.toNat_inj.mp ?_, UInt32.lt_iff_toNat_lt.mpr ?_⟩
    · rw [hlineA, hlineB, hsame]
    · rw [toNat_column hsize fun h => absurd h hlast, toNat_column hsize hcolumn, hstart]
      omega

/-- No two offsets have one location. The line of the last offset in a source of newlines alone
    is 0, and that is the line of no other one. -/
theorem LineIndex.location_injective (hsize : source.utf8ByteSize < UInt32.size) {a b : UInt32}
    (ha : a = 4294967295 → '\n' ∈ source.toList) (hb : b = 4294967295 → '\n' ∈ source.toList)
    (h : (ofSource source).location a = (ofSource source).location b) : a = b := by
  by_cases hsource : source = newlines 4294967295
  · have hle (offset : UInt32) : offset.toNat ≤ 4294967295 :=
      Nat.le_of_lt_succ offset.toNat_lt_size
    rw [hsource, location_newlines (hle a), location_newlines (hle b), UInt32.ofNat_add,
      UInt32.ofNat_add, UInt32.ofNat_toNat, UInt32.ofNat_toNat] at h
    exact UInt32.add_right_inj _ |>.mp (congrArg Location.line h)
  · rw [← UInt32.toNat_inj, ← offsetAt_location hsize (fun _ => hsource) ha, h,
      offsetAt_location hsize (fun _ => hsource) hb]

/-! ## Exactness -/

/-- **Locations are exact.** Take a source of at most 4294967295 bytes and any word as an offset,
    but not the last word if the source has no newline. Then no step of the lookup in the table
    fails, and it finds what the list of lines finds. The column is told by the distance from
    behind the last newline below the offset, and no other offset has the same location.

    The line is told by the newlines below the offset, so that the offset can be computed from
    line and column and later offsets have later locations; all this unless the last word is
    looked up in a source of nothing but newlines, where the line is cut down to 0. -/
theorem LineIndex.location_exact {source : String} (hsize : source.utf8ByteSize ≤ 4294967295) :
    (∀ offset : UInt32, (offset = 4294967295 → '\n' ∈ source.toList) →
      ∃ l : Location, (LineTable.ofSource source).location? offset = some l ∧
        (LineIndex.ofSource source).location offset = l ∧
        lineStart source offset.toNat ≤ offset.toNat ∧
        l.column.toNat = 1 + (offset.toNat - lineStart source offset.toNat) ∧
        ((offset = 4294967295 → source ≠ newlines 4294967295) →
          l.line.toNat = 1 + (newlinesBelow source offset.toNat).length ∧
          (LineIndex.ofSource source).offsetAt l = offset.toNat) ∧
        (offset = 4294967295 → source = newlines 4294967295 → l = ⟨0, 1⟩)) ∧
    (∀ a b : UInt32, (a = 4294967295 → '\n' ∈ source.toList) →
      (b = 4294967295 → '\n' ∈ source.toList) →
      (LineIndex.ofSource source).location a = (LineIndex.ofSource source).location b → a = b) ∧
    ∀ a b : UInt32, a < b → (b = 4294967295 → '\n' ∈ source.toList) →
      (b = 4294967295 → source ≠ newlines 4294967295) →
      ((LineIndex.ofSource source).location a).Before
        ((LineIndex.ofSource source).location b) := by
  have hsize : source.utf8ByteSize < UInt32.size := Nat.lt_succ_of_le hsize
  refine ⟨?_, ?_, ?_⟩
  · intro offset hlast
    refine ⟨(ofSource source).location offset, ?_, rfl, lineStart_le, toNat_column hsize hlast,
      ?_, ?_⟩
    · rw [LineTable.location?_ofSource hsize, if_pos (columnAt_lt_size hsize hlast)]
    · intro hline
      exact ⟨toNat_line hsize hline, offsetAt_location hsize hline hlast⟩
    · rintro rfl rfl
      exact location_newlines (show (4294967295 : UInt32).toNat ≤ 4294967295 by decide)
  · intro a b ha hb
    exact location_injective hsize ha hb
  · intro a b hlt hcolumn hline
    exact location_before hsize hline hcolumn hlt

/-- In the second line of this source, an offset inside the first letter is in the second
    column. -/
theorem LineIndex.location_exact_insideLetter :
    "é\nüb".utf8ByteSize ≤ 4294967295 ∧
      (LineTable.ofSource "é\nüb").location? 4 = some ⟨2, 2⟩ ∧
      ((LineIndex.ofSource "é\nüb").location 2).Before
        ((LineIndex.ofSource "é\nüb").location 4) := by
  have hsize : "é\nüb".utf8ByteSize ≤ 4294967295 := by decide
  obtain ⟨hexact, -, hbefore⟩ := LineIndex.location_exact hsize
  have hnewlines : newlinesBelow "é\nüb" 4 = [2] := by decide
  obtain ⟨⟨line, column⟩, hfound, -, -, hcolumn, hline, -⟩ := hexact 4 (by decide)
  have hline : line.toNat = 1 + (newlinesBelow "é\nüb" 4).length := (hline (by decide)).1
  have hcolumn : column.toNat = 1 + (4 - lineStart "é\nüb" 4) := hcolumn
  rw [lineStart, hnewlines] at hcolumn
  rw [hnewlines] at hline
  obtain rfl : line = 2 := UInt32.toNat_inj.mp hline
  obtain rfl : column = 2 := UInt32.toNat_inj.mp hcolumn
  exact ⟨hsize, hfound, hbefore 2 4 (by decide) (by decide) (by decide)⟩

/-- Behind 4294967295 newlines the line is no word any more, and what is found is line 0. The line
    does not count the newlines, the offset that it stands for is another one, and the location is
    not after that of the offset before it. -/
theorem LineIndex.location_lineZero :
    (newlines 4294967295).utf8ByteSize ≤ 4294967295 ∧ '\n' ∈ (newlines 4294967295).toList ∧
      ∃ l m : Location,
        (LineTable.ofSource (newlines 4294967295)).location? 4294967295 = some l ∧
        (LineTable.ofSource (newlines 4294967295)).location? 4294967294 = some m ∧
        l.line = 0 ∧ l.line.toNat ≠ 1 + (newlinesBelow (newlines 4294967295) 4294967295).length ∧
        (LineIndex.ofSource (newlines 4294967295)).offsetAt l ≠ 4294967295 ∧ ¬ m.Before l := by
  have hsize : (newlines 4294967295).utf8ByteSize < UInt32.size := by
    rw [utf8ByteSize_newlines]
    decide
  have hnewline : '\n' ∈ (newlines 4294967295).toList := by
    rw [toList_newlines]
    exact List.mem_replicate.mpr ⟨by decide, rfl⟩
  have hfound (offset : UInt32) (hle : offset.toNat ≤ 4294967295) :
      (LineTable.ofSource (newlines 4294967295)).location? offset =
        some ⟨.ofNat (1 + offset.toNat), 1⟩ := by
    rw [LineTable.location?_ofSource hsize, if_pos (columnAt_lt_size hsize fun _ => hnewline),
      location_newlines hle]
  refine ⟨Nat.le_of_lt_succ hsize, hnewline, ⟨0, 1⟩, ⟨4294967295, 1⟩,
    hfound 4294967295 (by decide), hfound 4294967294 (by decide), rfl, ?_, ?_, ?_⟩
  · rw [newlinesBelow_newlines (Nat.le_refl _), List.length_range]
    decide
  · rw [offsetAt]
    exact Nat.ne_of_lt (by decide)
  · rw [Location.Before]
    decide

end CaskLint
