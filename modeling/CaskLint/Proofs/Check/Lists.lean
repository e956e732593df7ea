import CaskLint.Proofs.Check.Gathering
import CaskLint.Proofs.Detection.Exactness
import CaskLint.Proofs.Report.Objects
import Mathlib.Data.List.Forall2

/-!
# Checking many files is checking each

  A list of files may be looked at in any order (`Check.Gives`). Whatever the order, what it gives
  is what the runs for its single files give, one after the other (**`Check.run_many`**), down to
  the stanzas that one file is reported for (`map_place_offensesIn`).
-/

namespace CaskLint

namespace Check

/-! ## One file -/

theorem run_singleton_of_loadable {s : Settings} (h : s.enabled = true) {files : Files}
    {path : SystemString} (hpath : Loadable files path) :
    run files s [path] = .ok ⟨1, offensesIn files s.detector path⟩ := by
  have hall : ∀ other ∈ [path], Loadable files other := fun other hother =>
    List.mem_singleton.mp hother ▸ hpath
  have hrun := (gives_of_forall hall).mp (gives_run h files [path])
  rw [List.flatMap_singleton] at hrun
  exact hrun

/-- What an offense says about where it is. -/
def place (o : Offense) : SystemString × String × Option Span × Option Location :=
  (o.file, o.stanza, o.span, o.location)

/-- What is to be said about a stanza of a document in a file. -/
def placeOf (path : SystemString) (d : Document) (s : Stanza) :
    SystemString × String × Option Span × Option Location :=
  (path, s.name, if s.span.isDummy then none else some s.span,
    d.lineIndex?.bind (·.spanStart? s.span))

open Classical in
/-- The offenses of a file are the stanzas that are in conflict, as they were declared. -/
theorem map_place_offensesIn {files : Files} {path : SystemString} {d : Document}
    (hload : Document.load files path = .ok d) (detector : Detector) :
    (offensesIn files detector path).map place =
      (d.manifest.stanzas.filter (detector.Conflict d.manifest ·)).map (placeOf path d) := by
  have hfilter : d.manifest.stanzas.filter (detector.Conflict d.manifest ·) =
      d.manifest.stanzas.filter (detector.conflicts (detector.declaredInBlocks d.manifest)) := by
    refine List.filter_congr fun s _ => ?_
    rw [Bool.eq_iff_iff, detector.conflicts_declaredInBlocks, decide_eq_true_iff]
  rw [hfilter, ← detector.map_stanza_findings, offensesIn, hload, List.map_map, List.map_map]
  rfl

/-! ## Many files -/

open Classical in
/-- **Checking many files is checking each.** In whatever order the files of a list are looked at,
    the check succeeds exactly when every file can be loaded. Then it counts the files of the list
    and has the offenses of the runs for the single files one after the other; those of one file
    are the stanzas in conflict, as they were declared. So two lists together give the sum of what
    they give apart. Where one position of a list fails and no other, the failure is that of the
    run for this file. -/
theorem run_many {s : Settings} (h : s.enabled = true) (files : Files) :
    (∀ paths, Gives files s.detector paths (run files s paths)) ∧
    (∀ paths result, Gives files s.detector paths result →
      ((∃ report, result = .ok report) ↔ ∀ path ∈ paths, ∃ d, Document.load files path = .ok d)) ∧
    (∀ paths report, Gives files s.detector paths (.ok report) → report.files = paths.length ∧
      ∃ each, List.Forall₂ (fun path one => run files s [path] = .ok one) paths each ∧
        report.offenses = each.flatMap CheckReport.offenses) ∧
    (∀ path d, Document.load files path = .ok d → ∃ one, run files s [path] = .ok one ∧
      one.files = 1 ∧ one.offenses.map place =
        (d.manifest.stanzas.filter (s.detector.Conflict d.manifest ·)).map (placeOf path d)) ∧
    (∀ a b reportA reportB, Gives files s.detector a (.ok reportA) →
      Gives files s.detector b (.ok reportB) → ∀ result, Gives files s.detector (a ++ b) result →
        result = .ok ⟨reportA.files + reportB.files, reportA.offenses ++ reportB.offenses⟩) ∧
    ∀ before path after, (∀ other ∈ before ++ after, ∃ d, Document.load files other = .ok d) →
      (¬ ∃ d, Document.load files path = .ok d) → ∃ f, run files s [path] = .error f ∧
        ∀ result, Gives files s.detector (before ++ path :: after) result → result = .error f := by
  refine ⟨gives_run h files, ?_, ?_, ?_, ?_, ?_⟩
  · intro paths result hresult
    constructor
    · rintro ⟨report, rfl⟩
      exact forall_of_gives hresult
    · intro hall
      exact ⟨_, (gives_of_forall hall).mp hresult⟩
  · intro paths report hreport
    have hall := forall_of_gives hreport
    obtain rfl := Except.ok.inj ((gives_of_forall hall).mp hreport)
    refine ⟨rfl, paths.map fun path => ⟨1, offensesIn files s.detector path⟩, ?_, ?_⟩
    · refine List.forall₂_map_right_iff.mpr (List.forall₂_same.mpr fun path hpath => ?_)
      exact run_singleton_of_loadable h (hall path hpath)
    · rw [List.flatMap_map]
  · intro path d hload
    exact ⟨_, run_singleton_of_loadable h ⟨d, hload⟩, rfl, map_place_offensesIn hload s.detector⟩
  · intro a b reportA reportB ha hb result hresult
    have halla := forall_of_gives ha
    have hallb := forall_of_gives hb
    obtain rfl := Except.ok.inj ((gives_of_forall halla).mp ha)
    obtain rfl := Except.ok.inj ((gives_of_forall hallb).mp hb)
    have hall := List.forall_mem_append.mpr ⟨halla, hallb⟩
    rw [(gives_of_forall hall).mp hresult, List.length_append, List.flatMap_append]
  · intro before path after hothers hpath
    obtain ⟨e, hf⟩ := file_of_not_loadable s.detector hpath
    have halone : ∀ other ∈ ([] : List SystemString) ++ [], Loadable files other := fun _ hmem =>
      nomatch hmem
    exact ⟨_, (gives_of_only halone hf).mp (gives_run h files [path]),
      fun result => (gives_of_only hothers hf).mp⟩

/-- A file with one offense that is listed twice, and the same list with a missing file between. -/
theorem run_many_missingBetween :
    let files : Files := fun path =>
      if path = .text "a.json" then .file placedDocument.toText.toUTF8 else .missing
    ({} : Settings).enabled = true ∧
    (∃ report one, run files {} ["a.json", "a.json"] = .ok report ∧
      run files {} ["a.json"] = .ok one ∧ one.offenses.length = 1 ∧
      report.files = 2 ∧ report.offenses = one.offenses ++ one.offenses) ∧
    ∃ f, run files {} ["b.json"] = .error f ∧
      run files {} ["a.json", "b.json", "a.json"] = .error f := by
  intro files
  obtain ⟨hgives, -, -, hfound, htwo, honly⟩ := run_many (s := {}) rfl files
  have hload : Document.load files "a.json" = .ok placedDocument :=
    (Document.load_congr (if_pos rfl)).trans (Document.load_placedDocument "a.json")
  refine ⟨rfl, ?_, ?_⟩
  · obtain ⟨one, hone, hcount, -⟩ := hfound "a.json" placedDocument hload
    have hlength : one.offenses.length = 1 := by
      have hfindings : (Detector.standard.findings placedDocument.manifest).length = 1 := by
        decide
      have heq := hone.symm.trans (run_singleton_of_loadable rfl ⟨_, hload⟩)
      rw [Except.ok.inj heq, offensesIn_of_ok hload, List.length_map]
      exact hfindings
    have hgiven : Gives files _ ["a.json"] (.ok one) := hone ▸ hgives ["a.json"]
    have hboth := htwo _ _ one one hgiven hgiven _ (hgives ["a.json", "a.json"])
    exact ⟨_, one, hboth, hone, hlength, by rw [hcount], rfl⟩
  · have hothers : ∀ other ∈ [SystemString.text "a.json"] ++ [.text "a.json"],
        ∃ d, Document.load files other = .ok d := by
      intro other hother
      obtain rfl : other = .text "a.json" := by simpa using hother
      exact ⟨_, hload⟩
    have hmissing : ¬ ∃ d, Document.load files "b.json" = .ok d := by
      rintro ⟨d, hd⟩
      exact nomatch hd
    obtain ⟨f, halone, hlist⟩ := honly ["a.json"] "b.json" ["a.json"] hothers hmissing
    exact ⟨f, halone, hlist _ (hgives _)⟩

end Check

end CaskLint
