import CaskLint.Proofs.Text.Lines
import CaskLint.Source.Lines
import Mathlib.Data.List.Basic

/-!
# Slices and locations point to the same place

  A span is looked up in a source in two ways: as the text that it covers, and as the line and
  the column where it starts. Both count bytes from the beginning, and neither looks at what the
  other one finds. Here both are told by cutting the source in pieces:

* **`Span.slice?_eq_some`** — a span covers the middle one of three pieces whose lengths in bytes
  are those that it says.
* **`LineIndex.lineAt_byteLength`**, **`LineIndex.columnAt_byteLength`** — after a piece `a` of the
  source, the line is told by the newlines in `a` and the column by what follows the last of them
  (**`exists_lastLine`**). Both are words, since each newline is a byte of the source.

  So the piece of the source that stands between two newlines is, from the column on, the text
  that begins where the slice begins (**`Span.slice?_spanStart?`**).
-/

namespace CaskLint

/-! ## Bytes -/

@[simp] theorem byteLength_nil : byteLength [] = 0 := rfl

@[simp] theorem byteLength_cons (c : Char) (cs : List Char) :
    byteLength (c :: cs) = c.utf8Size + byteLength cs := rfl

@[simp] theorem byteLength_append (a b : List Char) :
    byteLength (a ++ b) = byteLength a + byteLength b := by
  induction a with
  | nil => rw [List.nil_append, byteLength_nil, Nat.zero_add]
  | cons c a ih => rw [List.cons_append, byteLength_cons, byteLength_cons, ih, Nat.add_assoc]

/-- No character is without bytes. -/
theorem length_le_byteLength (cs : List Char) : cs.length ≤ byteLength cs := by
  induction cs with
  | nil => exact Nat.le_refl _
  | cons c cs ih =>
      have hpos := c.utf8Size_pos
      rw [List.length_cons, byteLength_cons]
      omega

theorem utf8ByteSize_ofList (cs : List Char) : (String.ofList cs).utf8ByteSize = byteLength cs := by
  induction cs with
  | nil => rfl
  | cons c cs ih =>
      rw [String.ofList_cons, String.utf8ByteSize_append, String.utf8ByteSize_singleton, ih,
        byteLength_cons]

theorem byteLength_toList (s : String) : byteLength s.toList = s.utf8ByteSize := by
  rw [← utf8ByteSize_ofList, String.ofList_toList]

/-- A text is cut in two at the lengths of its pieces and nowhere else. -/
theorem splitBytes?_eq_some {n : Nat} {cs before after : List Char} :
    splitBytes? n cs = some (before, after) ↔ cs = before ++ after ∧ byteLength before = n := by
  fun_induction splitBytes? n cs generalizing before with
  | case1 cs =>
      constructor
      · intro h
        obtain ⟨rfl, rfl⟩ := Prod.mk.inj (Option.some.inj h)
        exact ⟨rfl, rfl⟩
      · rintro ⟨rfl, hlen⟩
        cases before with
        | nil => rfl
        | cons c before =>
            -- no character is without bytes
            have hpos := c.utf8Size_pos
            rw [byteLength_cons] at hlen
            omega
  | case2 n =>
      constructor
      · intro h
        exact nomatch h
      · rintro ⟨hcs, hlen⟩
        obtain ⟨rfl, rfl⟩ := List.append_eq_nil_iff.mp hcs.symm
        exact nomatch hlen
  | case3 n c cs hfits ih =>
      rw [Option.map_eq_some_iff]
      constructor
      · rintro ⟨⟨before', after'⟩, h, heq⟩
        obtain ⟨rfl, rfl⟩ := Prod.mk.inj heq
        obtain ⟨rfl, hlen⟩ := ih.mp h
        refine ⟨rfl, ?_⟩
        rw [byteLength_cons, hlen]
        omega
      · rintro ⟨hcs, hlen⟩
        cases before with
        | nil => exact nomatch hlen
        | cons c' before =>
            obtain ⟨rfl, rfl⟩ := List.cons.inj hcs
            rw [byteLength_cons] at hlen
            exact ⟨(before, after), ih.mpr ⟨rfl, by omega⟩, rfl⟩
  | case4 n c cs hlong =>
      constructor
      · intro h
        exact nomatch h
      · rintro ⟨hcs, hlen⟩
        cases before with
        | nil => exact nomatch hlen
        | cons c' before =>
            obtain ⟨rfl, -⟩ := List.cons.inj hcs
            rw [byteLength_cons] at hlen
            omega

/-! ## Slices -/

/-- Every list of characters is that of a text. -/
theorem exists_eq_toList (cs : List Char) : ∃ s : String, cs = s.toList :=
  ⟨String.ofList cs, String.toList_ofList.symm⟩

theorem splitBytes?_toList {n : Nat} {source before after : String} :
    splitBytes? n source.toList = some (before.toList, after.toList) ↔
      source = before ++ after ∧ before.utf8ByteSize = n := by
  rw [splitBytes?_eq_some, byteLength_toList, ← String.toList_append, String.toList_inj]

namespace Span

variable {s : Span} {source t : String}

/-- The spans that can cover a text: not the dummy one, and none that ends before it starts. -/
theorem guard_eq_false :
    (s.isDummy || decide (s.stop < s.start)) = false ↔
      s ≠ dummy ∧ s.start.toNat ≤ s.stop.toNat := by
  rw [Bool.or_eq_false_iff, isDummy, beq_eq_false_iff_ne, decide_eq_false_iff_not,
    UInt32.lt_iff_toNat_lt, Nat.not_lt]

/-- Such a span covers the piece of a source between its offsets. -/
theorem slice?_eq_some_iff :
    s.slice? source = some t ↔ (s ≠ dummy ∧ s.start.toNat ≤ s.stop.toNat) ∧
      ∃ a c, source = a ++ t ++ c ∧
        a.utf8ByteSize = s.start.toNat ∧ (a ++ t).utf8ByteSize = s.stop.toNat := by
  rw [← guard_eq_false, slice?]
  cases hguard : s.isDummy || decide (s.stop < s.start) with
  | true =>
      rw [if_pos rfl]
      constructor
      · intro h
        exact nomatch h
      · rintro ⟨h, -⟩
        exact nomatch h
  | false =>
      obtain ⟨-, horder⟩ := guard_eq_false.mp hguard
      rw [if_neg Bool.false_ne_true]
      constructor
      · intro h
        obtain ⟨⟨a, rest⟩, ha, h⟩ := Option.bind_eq_some_iff.mp h
        obtain ⟨⟨t', c⟩, ht, h⟩ := Option.bind_eq_some_iff.mp h
        obtain rfl : String.ofList t' = t := Option.some.inj h
        obtain ⟨a, rfl⟩ := exists_eq_toList a
        obtain ⟨rest, rfl⟩ := exists_eq_toList rest
        obtain ⟨t, rfl⟩ := exists_eq_toList t'
        obtain ⟨c, rfl⟩ := exists_eq_toList c
        obtain ⟨rfl, hstart⟩ := splitBytes?_toList.mp ha
        obtain ⟨rfl, hlength⟩ := splitBytes?_toList.mp ht
        rw [String.ofList_toList]
        refine ⟨rfl, a, c, String.append_assoc.symm, hstart, ?_⟩
        rw [String.utf8ByteSize_append, hstart, hlength]
        omega
      · rintro ⟨-, a, c, rfl, hstart, hstop⟩
        rw [String.utf8ByteSize_append, hstart] at hstop
        have ha : splitBytes? s.start.toNat (a ++ t ++ c).toList =
            some (a.toList, (t ++ c).toList) :=
          splitBytes?_toList.mpr ⟨String.append_assoc, hstart⟩
        have ht : splitBytes? (s.stop.toNat - s.start.toNat) (t ++ c).toList =
            some (t.toList, c.toList) :=
          splitBytes?_toList.mpr ⟨rfl, by omega⟩
        rw [ha]
        show (splitBytes? (s.stop.toNat - s.start.toNat) (t ++ c).toList).bind _ = _
        rw [ht]
        exact congrArg some String.ofList_toList

/-- In a source that is not too long, the offsets alone decide what a span covers. -/
theorem slice?_eq_some (hsize : source.utf8ByteSize < 4294967295) :
    s.slice? source = some t ↔ ∃ a c, source = a ++ t ++ c ∧
      a.utf8ByteSize = s.start.toNat ∧ (a ++ t).utf8ByteSize = s.stop.toNat := by
  rw [slice?_eq_some_iff]
  constructor
  · rintro ⟨-, h⟩
    exact h
  · rintro ⟨a, c, rfl, hstart, hstop⟩
    refine ⟨⟨?_, ?_⟩, a, c, rfl, hstart, hstop⟩
    · -- the dummy span ends behind the end of the source
      rintro rfl
      have hlast : (a ++ t).utf8ByteSize = 4294967295 := hstop
      rw [String.utf8ByteSize_append, hlast] at hsize
      omega
    · rw [String.utf8ByteSize_append] at hstop
      omega

end Span

/-! ## Lines -/

theorem startsAfterNewlines_append (n : Nat) (a b : List Char) :
    startsAfterNewlines n (a ++ b) =
      startsAfterNewlines n a ++ startsAfterNewlines (n + byteLength a) b := by
  induction a generalizing n with
  | nil => rfl
  | cons c a ih =>
      rw [List.cons_append, startsAfterNewlines, startsAfterNewlines, ih, byteLength_cons,
        Nat.add_assoc]
      split <;> rfl

/-- A line begins after the offset that is counted from, and at the end of the text at the
    latest. -/
theorem bounds_of_mem_startsAfterNewlines {n k : Nat} {cs : List Char}
    (h : k ∈ startsAfterNewlines n cs) : n < k ∧ k ≤ n + byteLength cs := by
  induction cs generalizing n with
  | nil => exact nomatch h
  | cons c cs ih =>
      have hpos := c.utf8Size_pos
      rw [startsAfterNewlines] at h
      rw [byteLength_cons]
      split at h
      · rcases List.mem_cons.mp h with rfl | h
        · omega
        · have := ih h
          omega
      · have := ih h
        omega

/-- One line begins after each newline. -/
theorem length_startsAfterNewlines (n : Nat) (cs : List Char) :
    (startsAfterNewlines n cs).length = cs.count '\n' := by
  induction cs generalizing n with
  | nil => rfl
  | cons c cs ih =>
      rw [startsAfterNewlines]
      by_cases hc : c = '\n'
      · rw [if_pos hc, List.length_cons, ih, hc, List.count_cons_self]
      · rw [if_neg hc, ih, List.count_cons_of_ne hc]

/-- A text after which a line begins. -/
inductive BeginsLine : List Char → Prop where
  | first : BeginsLine []
  | newline (closed : List Char) : BeginsLine (closed ++ ['\n'])

/-- A text ends with a line that no newline closes. -/
theorem exists_lastLine (a : List Char) :
    ∃ before last, a = before ++ last ∧ BeginsLine before ∧ '\n' ∉ last := by
  induction a with
  | nil => exact ⟨[], [], rfl, .first, List.not_mem_nil⟩
  | cons c a ih =>
      obtain ⟨before, last, rfl, hbefore, hlast⟩ := ih
      cases hbefore with
      | newline closed => exact ⟨_, last, rfl, .newline (c :: closed), hlast⟩
      | first =>
          -- the character closes the first line or goes on with it
          by_cases hc : c = '\n'
          · exact ⟨[c], last, rfl, hc ▸ .newline [], hlast⟩
          · refine ⟨[], c :: last, rfl, .first, ?_⟩
            rw [List.mem_cons, not_or]
            exact ⟨fun h => hc h.symm, hlast⟩

/-- Of the lines of a text, those of its first piece begin within that piece. -/
theorem takeWhile_startsAfterNewlines (a rest : List Char) :
    (startsAfterNewlines 0 (a ++ rest)).takeWhile (· ≤ byteLength a) =
      startsAfterNewlines 0 a := by
  have hreached : ∀ k ∈ startsAfterNewlines 0 a, decide (k ≤ byteLength a) = true := by
    intro k hk
    obtain ⟨-, hle⟩ := bounds_of_mem_startsAfterNewlines hk
    exact decide_eq_true (by omega)
  have hlater :
      (startsAfterNewlines (0 + byteLength a) rest).takeWhile (· ≤ byteLength a) = [] := by
    cases hstarts : startsAfterNewlines (0 + byteLength a) rest with
    | nil => rfl
    | cons k ks =>
        obtain ⟨hlt, -⟩ := bounds_of_mem_startsAfterNewlines (hstarts ▸ List.mem_cons_self)
        rw [List.takeWhile_cons_of_neg]
        rw [decide_eq_true_iff]
        omega
  rw [startsAfterNewlines_append, List.takeWhile_append_of_pos hreached, hlater, List.append_nil]

/-- The last line of a text begins where its text says. -/
theorem getLast?_startsAfterNewlines {before last : List Char} (hbefore : BeginsLine before)
    (hlast : '\n' ∉ last) :
    (startsAfterNewlines 0 (before ++ last)).getLast?.getD 0 = byteLength before := by
  have hnone : ∀ n, startsAfterNewlines n last = [] := by
    intro n
    rw [← List.length_eq_zero_iff, length_startsAfterNewlines]
    exact List.count_eq_zero.mpr hlast
  rw [startsAfterNewlines_append, hnone, List.append_nil]
  cases hbefore with
  | first => rfl
  | newline closed =>
      have hone : startsAfterNewlines (0 + byteLength closed) ['\n'] =
          [byteLength (closed ++ ['\n'])] := by
        rw [Nat.zero_add, byteLength_append]
        rfl
      rw [startsAfterNewlines_append, hone, List.getLast?_concat, Option.getD_some]

/-- The line after a piece of a source is told by the newlines in the piece. -/
theorem LineIndex.lineAt_byteLength (a rest : List Char) :
    (LineIndex.mk (startsAfterNewlines 0 (a ++ rest))).lineAt (byteLength a) =
      a.count '\n' + 1 := by
  rw [lineAt, takeWhile_startsAfterNewlines, length_startsAfterNewlines]

/-- The column after a piece of a source is told by what follows the last newline in the piece. -/
theorem LineIndex.columnAt_byteLength {before last : List Char} (hbefore : BeginsLine before)
    (hlast : '\n' ∉ last) (rest : List Char) :
    (LineIndex.mk (startsAfterNewlines 0 (before ++ last ++ rest))).columnAt
        (byteLength (before ++ last)) =
      byteLength last + 1 := by
  rw [columnAt, takeWhile_startsAfterNewlines, getLast?_startsAfterNewlines hbefore hlast,
    byteLength_append, Nat.add_sub_cancel_left]

/-! ## Pieces between newlines -/

/-- The piece in which a text is cut in two is the last line before and the first line after. -/
theorem getElem?_splitOn_newline {before last : List Char} (hbefore : BeginsLine before)
    (hlast : '\n' ∉ last) (rest : List Char) :
    ((before ++ last ++ rest).splitOn '\n')[(before ++ last).count '\n']? =
      some (last ++ rest.takeWhile (· ≠ '\n')) := by
  have hpiece : (last ++ rest).takeWhile (· ≠ '\n') = last ++ rest.takeWhile (· ≠ '\n') := by
    refine List.takeWhile_append_of_pos fun c hc => decide_eq_true ?_
    rintro rfl
    exact hlast hc
  rw [List.append_assoc, List.count_append, List.count_eq_zero.mpr hlast, Nat.add_zero]
  cases hbefore with
  | first => rw [List.nil_append, List.count_nil, getElem?_splitOn_newline_zero, hpiece]
  | newline closed =>
      -- the pieces of the lines that are closed come first
      rw [List.append_assoc, List.singleton_append, List.splitOn_append_cons_self,
        List.count_append, List.count_singleton_self, ← length_splitOn_newline,
        List.getElem?_append_right (Nat.le_refl _), Nat.sub_self,
        getElem?_splitOn_newline_zero, hpiece]

/-! ## Slices and locations -/

/-- **Slices and locations agree.** In a source of fewer than 4294967295 bytes, a span covers a
    text exactly when it is the piece of the source between the two offsets. Then the span starts
    in the line after as many newlines as there are before the piece, and what stands in that
    line from the column on is the line that begins where the piece begins. -/
theorem Span.slice?_spanStart? {source : String} (hsize : source.utf8ByteSize < 4294967295)
    (s : Span) :
    (∀ t, s.slice? source = some t ↔ ∃ a c, source = a ++ t ++ c ∧
      a.utf8ByteSize = s.start.toNat ∧ (a ++ t).utf8ByteSize = s.stop.toNat) ∧
    ∀ t, s.slice? source = some t →
      ∀ a c, source = a ++ t ++ c → a.utf8ByteSize = s.start.toNat →
        ∃ line column skipped, (LineIndex.ofSource source).spanStart? s = some ⟨line, column⟩ ∧
          line.toNat = a.toList.count '\n' + 1 ∧
          column.toNat = (String.ofList skipped).utf8ByteSize + 1 ∧
          (source.toList.splitOn '\n')[line.toNat - 1]? =
            some (skipped ++ (t ++ c).toList.takeWhile (· ≠ '\n')) := by
  refine ⟨fun t => Span.slice?_eq_some hsize, ?_⟩
  intro t ht a c hsource hstart
  have hdummy : s.isDummy = false := by
    obtain ⟨⟨hdummy, -⟩, -⟩ := Span.slice?_eq_some_iff.mp ht
    exact beq_eq_false_iff_ne.mpr hdummy
  obtain ⟨before, last, ha, hbefore, hlast⟩ := exists_lastLine a.toList
  have htext : source.toList = before ++ last ++ (t ++ c).toList := by
    rw [hsource, String.append_assoc, String.toList_append, ha]
  have hplace : s.start.toNat = byteLength (before ++ last) := by
    rw [← hstart, ← byteLength_toList, ha]
  -- the newlines and the last line are no more bytes than the source has
  have hbytes : byteLength (before ++ last) ≤ source.utf8ByteSize := by
    rw [← byteLength_toList, htext, byteLength_append (before ++ last)]
    exact Nat.le_add_right _ _
  have hline : (UInt32.ofNat ((before ++ last).count '\n' + 1)).toNat =
      (before ++ last).count '\n' + 1 := by
    have hcount : (before ++ last).count '\n' ≤ byteLength (before ++ last) :=
      Nat.le_trans List.count_le_length (length_le_byteLength _)
    exact UInt32.toNat_ofNat_of_lt' (Nat.succ_lt_succ (by omega))
  have hcolumn : (UInt32.ofNat (byteLength last + 1)).toNat = byteLength last + 1 := by
    rw [byteLength_append] at hbytes
    exact UInt32.toNat_ofNat_of_lt' (Nat.succ_lt_succ (by omega))
  refine ⟨.ofNat ((before ++ last).count '\n' + 1), .ofNat (byteLength last + 1), last, ?_, ?_,
    ?_, ?_⟩
  · rw [LineIndex.spanStart?, hdummy, LineIndex.ofSource, htext, LineIndex.location, hplace,
      LineIndex.lineAt_byteLength, LineIndex.columnAt_byteLength hbefore hlast]
    rfl
  · rw [hline, ha]
  · rw [hcolumn, utf8ByteSize_ofList]
  · rw [hline, Nat.add_sub_cancel, htext]
    exact getElem?_splitOn_newline hbefore hlast _

/-- In the second line of this source, the last letter stands behind one of two bytes. -/
theorem Span.slice?_spanStart?_secondLine :
    "é\nüb".utf8ByteSize < 4294967295 ∧ (Span.mk 5 6).slice? "é\nüb" = some "b" ∧
      ∃ column, (LineIndex.ofSource "é\nüb").spanStart? ⟨5, 6⟩ = some ⟨2, column⟩ := by
  have hsize : "é\nüb".utf8ByteSize < 4294967295 := by decide
  obtain ⟨hslice, hstart⟩ := Span.slice?_spanStart? hsize ⟨5, 6⟩
  have hcut : "é\nüb" = "é\nü" ++ "b" ++ "" := by decide
  have hb : (Span.mk 5 6).slice? "é\nüb" = some "b" :=
    (hslice "b").mpr ⟨"é\nü", "", hcut, by decide, by decide⟩
  obtain ⟨line, column, skipped, hlocation, hline, -⟩ := hstart "b" hb "é\nü" "" hcut (by decide)
  obtain rfl : line = 2 := UInt32.toNat_inj.mp hline
  exact ⟨hsize, hb, column, hlocation⟩

end CaskLint
