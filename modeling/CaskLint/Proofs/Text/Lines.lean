import Mathlib.Data.List.SplitBy

/-!
# The lines of a text

  A text is cut at its newlines in two ways:

* **`List.splitOn`** — everything between two newlines is a piece, and so is what stands before
  the first one and after the last one. There is one piece more than there are newlines.
* **`terminatedLines`** — only what a newline closes is a line. A text that consists of such lines
  is cut into just these (`terminatedLines_unlines`).
-/

namespace CaskLint

/-! ## Pieces between newlines -/

/-- A text is cut once more than it has newlines. -/
theorem length_splitOn_newline (cs : List Char) :
    (cs.splitOn '\n').length = cs.count '\n' + 1 := by
  induction cs with
  | nil => rfl
  | cons c cs ih =>
      rw [List.splitOn_cons_eq_if_modifyHead, List.count_cons]
      split
      · rw [List.length_cons, ih]
      · rw [List.length_modifyHead, ih]

/-- The first piece of a text ends before its first newline. -/
theorem getElem?_splitOn_newline_zero (cs : List Char) :
    (cs.splitOn '\n')[0]? = some (cs.takeWhile (· ≠ '\n')) := by
  induction cs with
  | nil => rfl
  | cons c cs ih =>
      rw [List.splitOn_cons_eq_if_modifyHead]
      by_cases hc : c = '\n'
      · rw [if_pos (beq_iff_eq.mpr hc), List.takeWhile_cons_of_neg (by simpa using hc)]
        rfl
      · rw [if_neg (by simpa using hc), List.takeWhile_cons_of_pos (by simpa using hc),
          List.getElem?_modifyHead, ih]
        rfl

/-- No piece has a newline in it. -/
theorem newline_not_mem_of_mem_splitOn {cs piece : List Char} (h : piece ∈ cs.splitOn '\n') :
    '\n' ∉ piece := by
  induction cs generalizing piece with
  | nil =>
      obtain rfl := List.mem_singleton.mp h
      exact List.not_mem_nil
  | cons c cs ih =>
      obtain ⟨first, more, hpieces⟩ := List.exists_cons_of_ne_nil (List.splitOn_ne_nil '\n' cs)
      rw [List.splitOn_cons_eq_if_modifyHead] at h
      rw [hpieces] at ih h
      by_cases hc : c = '\n'
      · rw [if_pos (beq_iff_eq.mpr hc)] at h
        rcases List.mem_cons.mp h with rfl | h
        · exact List.not_mem_nil
        · exact ih h
      · -- the character goes in front of the first of the other pieces
        rw [if_neg (by simpa using hc)] at h
        rcases List.mem_cons.mp h with rfl | h
        · rw [List.mem_cons, not_or]
          exact ⟨fun heq => hc heq.symm, ih List.mem_cons_self⟩
        · exact ih (List.mem_cons_of_mem first h)

/-- Something put after every newline stands before every piece but the first one. -/
theorem flatMap_afterNewline {cs first : List Char} {more : List (List Char)}
    (h : cs.splitOn '\n' = first :: more) (indent : List Char) :
    cs.flatMap (fun c => if c = '\n' then '\n' :: indent else [c]) =
      first ++ more.flatMap fun piece => '\n' :: (indent ++ piece) := by
  induction cs generalizing first more with
  | nil =>
      obtain ⟨rfl, rfl⟩ := List.cons.inj h
      rfl
  | cons c cs ih =>
      obtain ⟨first', more', hpieces⟩ := List.exists_cons_of_ne_nil (List.splitOn_ne_nil '\n' cs)
      rw [List.splitOn_cons_eq_if_modifyHead, hpieces] at h
      rw [List.flatMap_cons, ih hpieces]
      by_cases hc : c = '\n'
      · rw [if_pos (beq_iff_eq.mpr hc)] at h
        obtain ⟨rfl, rfl⟩ := List.cons.inj h
        rw [if_pos hc, List.flatMap_cons]
        simp only [List.nil_append, List.cons_append, List.append_assoc]
      · rw [if_neg (by simpa using hc)] at h
        obtain ⟨rfl, rfl⟩ := List.cons.inj h
        rw [if_neg hc]
        rfl

/-! ## Lines that are closed -/

/-- The text that consists of these lines, each closed by a newline. -/
def unlines (lines : List (List Char)) : List Char := lines.flatMap (· ++ ['\n'])

/-- The lines of a text that are closed by a newline. -/
def terminatedLines (cs : List Char) : List (List Char) := (cs.splitOn '\n').dropLast

theorem unlines_cons (line : List Char) (lines : List (List Char)) :
    unlines (line :: lines) = line ++ '\n' :: unlines lines := by
  rw [unlines, List.flatMap_cons, List.append_assoc, List.singleton_append, unlines]

theorem splitOn_unlines {lines : List (List Char)} (h : ∀ line ∈ lines, '\n' ∉ line) :
    (unlines lines).splitOn '\n' = lines ++ [[]] := by
  induction lines with
  | nil => rfl
  | cons line lines ih =>
      obtain ⟨hline, hlines⟩ := List.forall_mem_cons.mp h
      rw [unlines_cons, List.splitOn_append_cons_self_of_not_mem hline, ih hlines]
      rfl

theorem terminatedLines_unlines {lines : List (List Char)} (h : ∀ line ∈ lines, '\n' ∉ line) :
    terminatedLines (unlines lines) = lines := by
  rw [terminatedLines, splitOn_unlines h, List.dropLast_concat]

/-- A newline at the end of a text closes its last piece. -/
theorem append_flatMap_newline (first : List Char) (more : List (List Char)) :
    first ++ more.flatMap ('\n' :: ·) ++ ['\n'] = unlines (first :: more) := by
  induction more generalizing first with
  | nil => rw [List.flatMap_nil, unlines, List.flatMap_singleton, List.append_nil]
  | cons piece more ih =>
      rw [unlines_cons, ← ih piece, List.flatMap_cons]
      simp only [List.append_assoc, List.cons_append]

end CaskLint
