import CaskLint.Proofs.Detection.Pairwise
import CaskLint.Proofs.Report.Objects
import CaskLint.Proofs.Text.Lines

/-!
# The text report cannot be forged

  A message may have newlines in it, because a name may. In the text report every line of a message
  but the first is indented, so a line that is not indented always begins an offense:

* **`Offense.heading`** — the line that an offense begins with: its place as the JSON report tells
  it (**`shownPlace`**), the name of the check and the first line of the message.
* **`reportEntries`** — the lines of a report in groups, each with a line that is not indented and
  the indented ones up to the next such line.

  The heart is `toList_line`: an offense is written as its heading and the other lines of its
  message, indented. A heading is not indented when its file name is not
  (`isIndented_heading`), so the groups are the offenses (**`ReportFormat.render_text_exact`**).
-/

namespace CaskLint

/-! ## Indentation -/

/-- What stands before the lines of a message after the first one. -/
def indentation : List Char := [' ', ' ', ' ', ' ']

/-- Whether a line begins with the indentation. -/
def isIndented (line : List Char) : Bool := indentation.isPrefixOf line

theorem isIndented_append (line : List Char) : isIndented (indentation ++ line) = true :=
  List.isPrefixOf_iff_prefix.mpr (List.prefix_append indentation line)

/-- A text that goes on with another character than those of a prefix gains no such prefix. -/
theorem isPrefixOf_append_cons {p : List Char} {c : Char} (h : c ∉ p) (line rest : List Char) :
    p.isPrefixOf (line ++ c :: rest) = p.isPrefixOf line := by
  induction p generalizing line with
  | nil => rfl
  | cons a p ih =>
      rw [List.mem_cons, not_or] at h
      cases line with
      | nil =>
          have hne : (a == c) = false := beq_eq_false_iff_ne.mpr fun heq => h.1 heq.symm
          rw [List.nil_append, List.isPrefixOf_cons_cons, hne]
          rfl
      | cons b line =>
          rw [List.cons_append, List.isPrefixOf_cons_cons, List.isPrefixOf_cons_cons, ih h.2]

/-! ## Places -/

/-- The place that the members of an object give: line and column, else the bytes, else the file
    alone. -/
def shownPlace (file : String) (members : List (String × Json)) : String :=
  match members.lookup "line", members.lookup "column", members.lookup "start",
    members.lookup "end" with
  | some (.integer line), some (.integer column), _, _ =>
    file ++ ":" ++ toString line ++ ":" ++ toString column
  | _, _, some (.integer start), some (.integer stop) =>
    file ++ ":" ++ toString start ++ ".." ++ toString stop
  | _, _, _, _ => file

namespace Offense

/-- The text report and the JSON report give the same place. -/
theorem shownPlace_eq {o : Offense} {name : String} {members : List (String × Json)}
    (h : o.Told name members) : shownPlace o.file.display members = o.position := by
  rw [shownPlace, h.line, h.column, h.start, h.stop, position]
  cases o.location with
  | some l =>
      show o.file.display ++ ":" ++ toString l.line.toNat ++ ":" ++ toString l.column.toNat =
        o.file.display ++ ":" ++ l.display
      rw [Location.display]
      simp only [String.append_assoc]
  | none =>
      cases o.span with
      | some s =>
          show o.file.display ++ ":" ++ toString s.start.toNat ++ ".." ++ toString s.stop.toNat =
            o.file.display ++ ":" ++ s.display
          rw [Span.display]
          simp only [String.append_assoc]
      | none => rfl

/-- Digits are no newlines. -/
theorem newline_not_mem_toDigits (n : Nat) : '\n' ∉ Nat.toDigits 10 n := by
  intro h
  exact absurd (Json.isDigit_toDigits _ h) (by decide)

/-- A place is the file name, and after that perhaps a colon and more on the same line. -/
theorem exists_position_eq (o : Offense) :
    ∃ rest, o.position.toList = o.file.display.toList ++ rest ∧ '\n' ∉ rest ∧
      (rest = [] ∨ ∃ more, rest = ':' :: more) := by
  rw [position]
  cases o.location with
  | some l =>
      refine ⟨':' :: l.display.toList, ?_, ?_, Or.inr ⟨_, rfl⟩⟩
      · simp only [String.toList_append, List.append_assoc]
        rfl
      · simp [Location.display, newline_not_mem_toDigits]
  | none =>
      cases o.span with
      | some s =>
          refine ⟨':' :: s.display.toList, ?_, ?_, Or.inr ⟨_, rfl⟩⟩
          · simp only [String.toList_append, List.append_assoc]
            rfl
          · simp [Span.display, newline_not_mem_toDigits]
      | none => exact ⟨[], (List.append_nil _).symm, List.not_mem_nil, Or.inl rfl⟩

/-! ## One offense -/

/-- The lines of the message. -/
def messageLines (o : Offense) : List (List Char) := o.message.toList.splitOn '\n'

/-- The line that the offense begins with. Its place is read off the members of the object that
    the offense is. -/
def heading (o : Offense) : List Char :=
  (shownPlace o.file.display (o.members o.file.display) ++ ": C: Cask/NoOverrides: ").toList ++
    o.messageLines.headD []

/-- The lines that an offense is written as. -/
def lines (o : Offense) : List (List Char) :=
  o.heading :: o.messageLines.tail.map (indentation ++ ·)

theorem heading_eq (o : Offense) : o.heading =
    o.position.toList ++ (": C: Cask/NoOverrides: ".toList ++ o.messageLines.headD []) := by
  rw [heading, shownPlace_eq (o.told_members o.file.display), String.toList_append,
    List.append_assoc]

/-- **An offense is written as its heading and the other lines of its message, indented.** -/
theorem toList_line (o : Offense) : o.line.toList = unlines o.lines := by
  obtain ⟨first, more, hpieces⟩ :=
    List.exists_cons_of_ne_nil (List.splitOn_ne_nil '\n' o.message.toList)
  have hindented : (indentLines o.message).toList =
      first ++ (more.map (indentation ++ ·)).flatMap ('\n' :: ·) := by
    rw [indentLines, String.toList_ofList, List.flatMap_map]
    exact flatMap_afterNewline hpieces indentation
  have hlines : o.lines = (o.position.toList ++ (": C: Cask/NoOverrides: ".toList ++ first)) ::
      more.map (indentation ++ ·) := by
    rw [lines, heading_eq, messageLines, hpieces]
    rfl
  rw [hlines, ← append_flatMap_newline, line]
  simp only [String.toList_append, hindented, List.append_assoc]
  rfl

theorem newline_not_mem_lines {o : Offense} (hfile : '\n' ∉ o.file.display.toList) :
    ∀ l ∈ o.lines, '\n' ∉ l := by
  obtain ⟨first, more, hpieces⟩ :=
    List.exists_cons_of_ne_nil (List.splitOn_ne_nil '\n' o.message.toList)
  have hmessage : ∀ l ∈ first :: more, '\n' ∉ l := by
    intro l hl
    exact newline_not_mem_of_mem_splitOn (hpieces ▸ hl)
  obtain ⟨hfirst, hmore⟩ := List.forall_mem_cons.mp hmessage
  obtain ⟨rest, hposition, hrest, -⟩ := o.exists_position_eq
  rw [lines, heading_eq, messageLines, hpieces, hposition]
  refine List.forall_mem_cons.mpr ⟨?_, ?_⟩
  · have hcheck : '\n' ∉ ": C: Cask/NoOverrides: ".toList := by decide
    simp only [List.mem_append, not_or]
    exact ⟨⟨hfile, hrest⟩, hcheck, hfirst⟩
  · intro l hl
    obtain ⟨piece, hpiece, rfl⟩ := List.mem_map.mp hl
    rw [List.mem_append, not_or]
    exact ⟨by decide, hmore piece hpiece⟩

/-- After the file name, a heading goes on with a colon, so no heading is indented. -/
theorem isIndented_heading {o : Offense} (hfile : isIndented o.file.display.toList = false) :
    isIndented o.heading = false := by
  obtain ⟨rest, hposition, -, hcolon⟩ := o.exists_position_eq
  have hheading : ∃ more, o.heading = o.file.display.toList ++ ':' :: more := by
    rw [heading_eq, hposition, List.append_assoc]
    rcases hcolon with rfl | ⟨more, rfl⟩
    · exact ⟨_, rfl⟩
    · exact ⟨_, rfl⟩
  obtain ⟨more, hmore⟩ := hheading
  rw [hmore, isIndented, isPrefixOf_append_cons (by decide)]
  exact hfile

theorem isIndented_of_mem_tail {o : Offense} : ∀ l ∈ o.lines.tail, isIndented l = true := by
  intro l hl
  obtain ⟨piece, -, rfl⟩ := List.mem_map.mp hl
  exact isIndented_append piece

end Offense

/-! ## The report as a whole -/

/-- The lines of a report in groups: a line that is not indented, and the indented lines up to the
    next such line without their indentation. -/
def reportEntries (lines : List (List Char)) : List (List Char × List (List Char)) :=
  (lines.splitBy fun _ next => isIndented next).map fun group =>
    (group.headD [], group.tail.map (·.drop indentation.length))

/-- A text report is the lines of its offenses. -/
theorem toList_join_line (offenses : List Offense) :
    (String.join (offenses.map Offense.line)).toList =
      unlines (offenses.flatMap Offense.lines) := by
  induction offenses with
  | nil => rfl
  | cons o offenses ih =>
      rw [String.toList_join] at ih ⊢
      rw [List.map_cons, List.flatMap_cons, ih, Offense.toList_line, unlines, unlines, unlines,
        List.flatMap_cons, List.flatMap_append]

/-- Indented lines stay with the line before them. -/
theorem isChain_of_mem_tail {lines : List (List Char)} (h : ∀ l ∈ lines.tail, isIndented l = true) :
    lines.IsChain fun _ next => isIndented next = true := by
  induction lines with
  | nil => exact .nil
  | cons first more ih =>
      refine List.isChain_cons.mpr ⟨fun l hl => h l (List.mem_of_mem_head? hl), ?_⟩
      exact ih fun l hl => h l (List.mem_of_mem_tail hl)

/-- A heading begins a new group. -/
theorem isChain_map_lines {offenses : List Offense}
    (h : ∀ o ∈ offenses, isIndented o.heading = false) :
    (offenses.map Offense.lines).IsChain fun a b =>
      ∃ (_ : a ≠ []) (hb : b ≠ []), isIndented (b.head hb) = false := by
  induction offenses with
  | nil => exact .nil
  | cons o offenses ih =>
      obtain ⟨-, hoffenses⟩ := List.forall_mem_cons.mp h
      refine List.isChain_cons.mpr ⟨fun b hb => ?_, ih hoffenses⟩
      rw [List.head?_map, Option.mem_map] at hb
      obtain ⟨o', ho', rfl⟩ := hb
      exact ⟨List.cons_ne_nil _ _, List.cons_ne_nil _ _, hoffenses o' (List.mem_of_mem_head? ho')⟩

/-- Lines are grouped by offense, because the first line of an offense is the only one that is not
    indented. -/
theorem splitBy_lines {offenses : List Offense}
    (h : ∀ o ∈ offenses, isIndented o.heading = false) :
    (offenses.flatMap Offense.lines).splitBy (fun _ next => isIndented next) =
      offenses.map Offense.lines := by
  rw [List.flatMap_def]
  refine List.splitBy_flatten ?_ ?_ (isChain_map_lines h)
  · intro hmem
    obtain ⟨o, -, ho⟩ := List.mem_map.mp hmem
    exact absurd ho (List.cons_ne_nil _ _)
  · intro lines hlines
    obtain ⟨o, -, rfl⟩ := List.mem_map.mp hlines
    exact isChain_of_mem_tail o.isIndented_of_mem_tail

/-- The lines of a report that are not indented are the headings. -/
theorem filter_lines {offenses : List Offense}
    (h : ∀ o ∈ offenses, isIndented o.heading = false) :
    (offenses.flatMap Offense.lines).filter (fun line => !isIndented line) =
      offenses.map Offense.heading := by
  induction offenses with
  | nil => rfl
  | cons o offenses ih =>
      obtain ⟨ho, hoffenses⟩ := List.forall_mem_cons.mp h
      have hrest : o.lines.tail.filter (fun line => !isIndented line) = [] := by
        refine List.filter_eq_nil_iff.mpr fun l hl => ?_
        rw [o.isIndented_of_mem_tail l hl]
        exact Bool.false_ne_true
      have hlines : o.lines.filter (fun line => !isIndented line) = [o.heading] := by
        rw [Offense.lines, List.filter_cons_of_pos (by rw [ho]; rfl)]
        exact congrArg (o.heading :: ·) hrest
      rw [List.flatMap_cons, List.filter_append, hlines, ih hoffenses]
      rfl

/-- **The text report cannot be forged.** If no file name as it is shown has a newline in it or
    begins with four spaces, then the report consists of lines that a newline closes, and those
    among them that do not begin with four spaces are one for each offense, in order: its place as
    in the JSON report, the check and the first line of its message. The lines up to the next such
    line are the others of the message behind four spaces. Where the JSON report has an object
    for the offense, its members are those that the place is read off. -/
theorem ReportFormat.render_text_exact {offenses : List Offense}
    (h : ∀ o ∈ offenses, '\n' ∉ o.file.display.toList ∧
      isIndented o.file.display.toList = false) :
    ∃ report, ReportFormat.text.render offenses = .ok report ∧
      unlines (terminatedLines report.toList) = report.toList ∧
      (terminatedLines report.toList).filter (fun line => !isIndented line) =
        offenses.map Offense.heading ∧
      reportEntries (terminatedLines report.toList) =
        offenses.map (fun o => (o.heading, o.messageLines.tail)) ∧
      ∀ o ∈ offenses, ∀ object, o.toJson = .ok object →
        object = .object (o.members o.file.display) := by
  have htext := toList_join_line offenses
  have hlines : terminatedLines (String.join (offenses.map Offense.line)).toList =
      offenses.flatMap Offense.lines := by
    rw [htext]
    refine terminatedLines_unlines fun l hl => ?_
    obtain ⟨o, ho, hl⟩ := List.mem_flatMap.mp hl
    exact Offense.newline_not_mem_lines (h o ho).1 l hl
  have hheading : ∀ o ∈ offenses, isIndented o.heading = false := by
    intro o ho
    exact Offense.isIndented_heading (h o ho).2
  refine ⟨_, rfl, ?_⟩
  rw [hlines]
  refine ⟨htext.symm, filter_lines hheading, ?_, ?_⟩
  · rw [reportEntries, splitBy_lines hheading, List.map_map]
    refine List.map_congr_left fun o _ => congrArg (Prod.mk o.heading) ?_
    show (o.messageLines.tail.map (indentation ++ ·)).map (·.drop indentation.length) = _
    rw [List.map_map]
    exact List.map_id'' (fun piece => List.drop_left' rfl) _
  · intro o _ object hobject
    rw [Offense.toJson] at hobject
    cases hfile : o.file with
    | text name =>
        rw [hfile] at hobject
        exact (Except.ok.inj hobject).symm
    | bytes content invalid =>
        rw [hfile] at hobject
        cases hobject

/-- The name of this stanza ends one line of the message and goes on like a line of the report. -/
theorem ReportFormat.render_text_exact_forgedName :
    let o := Offense.ofFinding (.text "a.json") none
      ⟨0, .plain "on_\nb.json: C: Cask/NoOverrides: c"⟩
    (∀ o' ∈ [o, o], '\n' ∉ o'.file.display.toList ∧
      isIndented o'.file.display.toList = false) ∧
    ∃ report, ReportFormat.text.render [o, o] = .ok report ∧
      (terminatedLines report.toList).filter (fun line => !isIndented line) =
        [o.heading, o.heading] := by
  intro o
  have hfile : ∀ o' ∈ [o, o], '\n' ∉ o'.file.display.toList ∧
      isIndented o'.file.display.toList = false := by
    intro o' ho'
    have heq : o' = o := by simpa using ho'
    rw [heq]
    decide
  obtain ⟨report, hreport, -, hheadings, -⟩ := ReportFormat.render_text_exact hfile
  exact ⟨hfile, report, hreport, hheadings⟩

end CaskLint
