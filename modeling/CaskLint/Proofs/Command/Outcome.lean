import CaskLint.Command.Run
import CaskLint.Proofs.Check.Gathering
import CaskLint.Proofs.Report.Objects

/-!
# How a run of the check ends

  A run ends in one of three ways, told apart by its exit code: nothing found, something found, or
  nothing to report on because a file that is needed cannot be loaded. There is a fourth way for
  the JSON format alone, which cannot name every file.

* **`Check.Blocked`** — the settings cannot be loaded, or the check is enabled and one of the
  listed documents cannot be loaded. Then the run fails, wherever the document stands in the
  list, and nothing of what was found in the others is written.
* **`Check.Unnamed`** — something is found in a file whose path is no text.
* **`Command.MayEnd`** — how a command may end, in whatever order the listed files are looked at.
  Only the failing document that is told may depend on that order.

  **`runArguments_check`** carries this from the command line to the exit code and the two output
  streams. In `runArguments_check_pathNotText` nothing fails to load, and still the run fails.
-/

namespace CaskLint

/-! ## What is in the way of a report -/

namespace Check

/-- The settings cannot be loaded, or the check is enabled and a listed document cannot be
    loaded. -/
def Blocked (files : Files) (directory : SystemString) (config : Option SystemString)
    (paths : List SystemString) : Prop :=
  (∃ f, settings files config directory = .error f) ∨
    ∃ s, settings files config directory = .ok s ∧ s.enabled = true ∧
      ∃ path ∈ paths, ∃ e, Document.load files path = .error e

/-- Something is found in a file whose path is no text. -/
def Unnamed (files : Files) (directory : SystemString) (config : Option SystemString)
    (paths : List SystemString) : Prop :=
  ∃ s, settings files config directory = .ok s ∧
    ∃ o ∈ offenses files s paths, o.file.isText = false

/-- A run that is not blocked has settings, and loads every document that it looks at. -/
theorem exists_settings_of_not_blocked {files : Files} {directory : SystemString}
    {config : Option SystemString} {paths : List SystemString}
    (h : ¬ Blocked files directory config paths) :
    ∃ s, settings files config directory = .ok s ∧
      (s.enabled = true → ∀ path ∈ paths, Loadable files path) := by
  cases hs : settings files config directory with
  | error f => exact absurd (Or.inl ⟨f, hs⟩) h
  | ok s =>
      refine ⟨s, rfl, fun henabled path hpath => ?_⟩
      cases hload : Document.load files path with
      | ok d => exact ⟨d, hload⟩
      | error e => exact absurd (Or.inr ⟨s, hs, henabled, path, hpath, e, hload⟩) h

/-- Where there are settings and every listed file is a document nothing blocks the run. -/
theorem not_blocked_of_forall {files : Files} {directory : SystemString}
    {config : Option SystemString} {paths : List SystemString} {s : Settings}
    (hs : settings files config directory = .ok s)
    (hload : ∀ path ∈ paths, Loadable files path) : ¬ Blocked files directory config paths := by
  rintro (⟨f, hf⟩ | ⟨s, -, -, path, hpath, e, he⟩)
  · exact nomatch hs.symm.trans hf
  · obtain ⟨d, hd⟩ := hload path hpath
    exact nomatch hd.symm.trans he

end Check

/-! ## The words of a failure -/

theorem DocumentError.causes_ne_nil (e : DocumentError) : e.causes ≠ [] := by
  cases e <;> exact List.cons_ne_nil _ _

theorem LoadSettingsError.causes_ne_nil (e : LoadSettingsError) : e.causes ≠ [] := by
  cases e with
  | file f => exact List.cons_ne_nil _ _
  | content e => cases e <;> exact List.cons_ne_nil _ _

/-- Whatever fails, the words begin with what failed to load. -/
theorem Failure.intercalate_causes (f : Failure) :
    ∃ more, ": ".intercalate f.causes = "failed to " ++ more := by
  cases f with
  | document path e =>
      rw [Failure.causes, String.intercalate_cons_of_ne_nil e.causes_ne_nil]
      refine ⟨"load '" ++ (path.display ++ "'" ++ ": " ++ ": ".intercalate e.causes), ?_⟩
      simp only [← String.append_assoc]
      rfl
  | settings path e =>
      rw [Failure.causes, String.intercalate_cons_of_ne_nil e.causes_ne_nil]
      refine ⟨"load config '" ++ (path.display ++ "'" ++ ": " ++ ": ".intercalate e.causes), ?_⟩
      simp only [← String.append_assoc]
      rfl

/-- A run that fails writes no report and says what failed to load. -/
theorem Outcome.ofFailure_eq (f : Failure) :
    ∃ more, Outcome.ofFailure f = ⟨2, "", "error: failed to " ++ more⟩ := by
  obtain ⟨more, hmore⟩ := f.intercalate_causes
  refine ⟨more ++ "\n", ?_⟩
  rw [Outcome.ofFailure, Outcome.failed, hmore]
  simp only [← String.append_assoc]
  rfl

/-! ## The end of a report -/

namespace CheckReport

variable {format : ReportFormat} {r : CheckReport}

/-- What can be rendered is written, and the exit code tells whether it is anything. -/
theorem outcome_of_named (h : format = .json → ∀ o ∈ r.offenses, o.file.isText = true) :
    ∃ text, format.render r.offenses = .ok text ∧
      r.outcome format = ⟨if r.offenses = [] then 0 else 1, text,
        if format = .json then "" else r.summary⟩ := by
  have hrender : ∃ text, format.render r.offenses = .ok text := by
    cases format with
    | text => exact ⟨_, rfl⟩
    | json => exact ⟨_, Offense.render_json (h rfl)⟩
  obtain ⟨text, htext⟩ := hrender
  refine ⟨text, htext, ?_⟩
  rw [outcome.eq_def, htext]
  simp only [List.isEmpty_iff]
  cases format <;> rfl

/-- A file without a name fails the report. -/
theorem outcome_json_of_mem {o : Offense} (ho : o ∈ r.offenses) (h : o.file.isText = false) :
    r.outcome .json = ⟨2, "", "error: path contains invalid UTF-8 characters\n"⟩ := by
  rw [outcome.eq_def, Offense.render_json_of_mem ho h]
  rfl

end CheckReport

/-! ## How a command may end -/

namespace Command

/-- How a command may end, in whatever order the files are looked at that it lists. -/
def MayEnd (files : Files) (directory : SystemString) : Command → Outcome → Prop
  | .check paths config format, outcome =>
    match Check.settings files config directory with
    | .error f => outcome = .ofFailure f
    | .ok s => ∃ result, Check.MayGive files s paths result ∧ outcome = .ofCheck format result
  | command, outcome => outcome = command.run files directory

/-- A run ends as the command may end. -/
theorem mayEnd_run (files : Files) (directory : SystemString) (command : Command) :
    MayEnd files directory command (command.run files directory) := by
  cases command with
  | check paths config format =>
      rw [MayEnd, run]
      cases Check.settings files config directory with
      | error f => rfl
      | ok s => exact ⟨_, Check.mayGive_run files s paths, rfl⟩
  | printConfig config => rfl
  | version => rfl

section

variable {files : Files} {directory : SystemString} {config : Option SystemString}
  {paths : List SystemString} {format : ReportFormat} {outcome : Outcome}

/-- A run that is blocked fails. -/
theorem MayEnd.of_blocked (h : MayEnd files directory (.check paths config format) outcome)
    (hblocked : Check.Blocked files directory config paths) :
    ∃ more, outcome = ⟨2, "", "error: failed to " ++ more⟩ := by
  rw [MayEnd] at h
  rcases hblocked with ⟨f, hf⟩ | ⟨s, hs, henabled, path, hpath, e, he⟩
  · rw [hf] at h
    exact h ▸ Outcome.ofFailure_eq f
  · rw [hs] at h
    obtain ⟨result, hresult, rfl⟩ := h
    have hload : ¬ Check.Loadable files path := by
      rintro ⟨d, hd⟩
      exact nomatch hd.symm.trans he
    obtain ⟨path', e', rfl⟩ := hresult.eq_error henabled hpath hload
    exact Outcome.ofFailure_eq _

/-- A run that is not blocked ends with everything that is found. -/
theorem MayEnd.of_not_blocked (h : MayEnd files directory (.check paths config format) outcome)
    (hblocked : ¬ Check.Blocked files directory config paths) :
    ∃ s, Check.settings files config directory = .ok s ∧
      outcome = CheckReport.outcome format ⟨paths.length, Check.offenses files s paths⟩ := by
  obtain ⟨s, hs, hload⟩ := Check.exists_settings_of_not_blocked hblocked
  rw [MayEnd, hs] at h
  obtain ⟨result, hresult, rfl⟩ := h
  rw [hresult.eq_ok hload]
  exact ⟨s, hs, rfl⟩

/-- A run that is not blocked fails when a file has to be named that has no name. -/
theorem MayEnd.of_unnamed (h : MayEnd files directory (.check paths config .json) outcome)
    (hblocked : ¬ Check.Blocked files directory config paths)
    (hunnamed : Check.Unnamed files directory config paths) :
    outcome = ⟨2, "", "error: path contains invalid UTF-8 characters\n"⟩ := by
  obtain ⟨s, hs, rfl⟩ := h.of_not_blocked hblocked
  obtain ⟨s', hs', o, ho, hfile⟩ := hunnamed
  obtain rfl := Except.ok.inj (hs.symm.trans hs')
  exact CheckReport.outcome_json_of_mem ho hfile

/-- Otherwise everything that is found is reported. -/
theorem MayEnd.of_named (h : MayEnd files directory (.check paths config format) outcome)
    (hblocked : ¬ Check.Blocked files directory config paths)
    (hnamed : format = .json → ¬ Check.Unnamed files directory config paths) :
    ∃ s, Check.settings files config directory = .ok s ∧
      outcome.exitCode = (if Check.offenses files s paths = [] then 0 else 1) ∧
      format.render (Check.offenses files s paths) = .ok outcome.output ∧
      outcome.errors = if format = .json then "" else
        toString paths.length ++ " file(s) checked, " ++
          toString (Check.offenses files s paths).length ++ " offense(s) detected\n" := by
  obtain ⟨s, hs, rfl⟩ := h.of_not_blocked hblocked
  have htexts : format = .json → ∀ o ∈ Check.offenses files s paths, o.file.isText = true := by
    intro hformat o ho
    by_contra hfile
    exact hnamed hformat ⟨s, hs, o, ho, Bool.eq_false_iff.mpr hfile⟩
  obtain ⟨text, htext, houtcome⟩ :=
    CheckReport.outcome_of_named (r := ⟨paths.length, Check.offenses files s paths⟩) htexts
  rw [houtcome]
  exact ⟨s, hs, rfl, htext, rfl⟩

/-- A run fails with exit code 2 exactly when something is in the way of the report. -/
theorem MayEnd.exitCode_eq_two
    (h : MayEnd files directory (.check paths config format) outcome) :
    outcome.exitCode = 2 ↔ Check.Blocked files directory config paths ∨
      format = .json ∧ Check.Unnamed files directory config paths := by
  by_cases hblocked : Check.Blocked files directory config paths
  · obtain ⟨more, rfl⟩ := h.of_blocked hblocked
    exact ⟨fun _ => .inl hblocked, fun _ => rfl⟩
  · rw [or_iff_right hblocked]
    constructor
    · intro hcode
      by_contra hnot
      obtain ⟨s, -, hreport, -⟩ := h.of_named hblocked (not_and.mp hnot)
      rw [hreport] at hcode
      split at hcode <;> exact absurd hcode (by decide)
    · rintro ⟨rfl, hunnamed⟩
      rw [h.of_unnamed hblocked hunnamed]

/-- The format has no part in the exit code, unless a file has to be named that has no name. -/
theorem MayEnd.exitCode_eq {format' : ReportFormat} {outcome' : Outcome}
    (h : MayEnd files directory (.check paths config format) outcome)
    (h' : MayEnd files directory (.check paths config format') outcome')
    (hunnamed : Check.Unnamed files directory config paths →
      Check.Blocked files directory config paths) :
    outcome'.exitCode = outcome.exitCode := by
  by_cases hblocked : Check.Blocked files directory config paths
  · rw [h.exitCode_eq_two.mpr (.inl hblocked), h'.exitCode_eq_two.mpr (.inl hblocked)]
  · have hnamed : ¬ Check.Unnamed files directory config paths := fun h => hblocked (hunnamed h)
    obtain ⟨s, hs, hcode, -⟩ := h.of_named hblocked fun _ => hnamed
    obtain ⟨s', hs', hcode', -⟩ := h'.of_named hblocked fun _ => hnamed
    obtain rfl := Except.ok.inj (hs.symm.trans hs')
    rw [hcode, hcode']

/-- A check that is not enabled finds nothing, whatever the listed files are. -/
theorem MayEnd.of_not_enabled {s : Settings}
    (h : MayEnd files directory (.check paths config format) outcome)
    (hs : Check.settings files config directory = .ok s) (hdisabled : s.enabled = false) :
    outcome.exitCode = 0 := by
  rw [MayEnd, hs] at h
  obtain ⟨result, hresult, rfl⟩ := h
  have hload : s.enabled = true → ∀ path ∈ paths, Check.Loadable files path := fun henabled =>
    absurd (hdisabled.symm.trans henabled) Bool.false_ne_true
  have hnone : Check.offenses files s paths = [] := by
    rw [Check.offenses, hdisabled]
    rfl
  rw [hresult.eq_ok hload, hnone]
  cases format <;> rfl

end

/-! ## From the command line to the end -/

/-- **How a run of the check ends.** For every command line that asks for a check and whatever the
    files are, in whatever order they are looked at: the exit code is 2 exactly when the run is
    blocked, or the report is asked for as JSON and something is found in a file that has no name
    in it. When the run is blocked, there is no report and the error says what failed to load;
    else, when it fails, there is no report either and the error is the other one. Otherwise
    everything that is found in the listed documents is reported, and the exit code tells whether
    that is anything. A check that is not enabled ends with 0, and the format does not matter
    for the exit code unless something is found in a file without a name. -/
theorem runArguments_check {arguments paths : List SystemString} {config : Option SystemString}
    {format : ReportFormat} (h : ofArguments arguments = .ok (.check paths config format))
    (files : Files) (directory : SystemString) :
    (∃ outcome, runArguments files directory arguments = .ok outcome ∧
      MayEnd files directory (.check paths config format) outcome) ∧
    ∀ outcome, MayEnd files directory (.check paths config format) outcome →
      (outcome.exitCode = 2 ↔ Check.Blocked files directory config paths ∨
        format = .json ∧ Check.Unnamed files directory config paths) ∧
      (Check.Blocked files directory config paths →
        outcome.output = "" ∧ ∃ more, outcome.errors = "error: failed to " ++ more) ∧
      (outcome.exitCode = 2 → ¬ Check.Blocked files directory config paths →
        outcome.output = "" ∧
        outcome.errors = "error: path contains invalid UTF-8 characters\n") ∧
      (outcome.exitCode ≠ 2 → ∃ s, Check.settings files config directory = .ok s ∧
        outcome.exitCode = (if Check.offenses files s paths = [] then 0 else 1) ∧
        format.render (Check.offenses files s paths) = .ok outcome.output ∧
        outcome.errors = if format = .json then "" else
          toString paths.length ++ " file(s) checked, " ++
            toString (Check.offenses files s paths).length ++ " offense(s) detected\n") ∧
      (∀ s, Check.settings files config directory = .ok s → s.enabled = false →
        outcome.exitCode = 0) ∧
      ∀ format' outcome', MayEnd files directory (.check paths config format') outcome' →
        (Check.Unnamed files directory config paths →
          Check.Blocked files directory config paths) →
        outcome'.exitCode = outcome.exitCode := by
  constructor
  · refine ⟨_, ?_, mayEnd_run files directory (.check paths config format)⟩
    rw [runArguments, h]
    rfl
  · intro outcome houtcome
    have hcode := houtcome.exitCode_eq_two
    refine ⟨hcode, ?_, ?_, ?_, fun s => houtcome.of_not_enabled, ?_⟩
    · intro hblocked
      obtain ⟨more, rfl⟩ := houtcome.of_blocked hblocked
      exact ⟨rfl, more, rfl⟩
    · intro hfailed hblocked
      obtain ⟨rfl, hunnamed⟩ := (hcode.mp hfailed).resolve_left hblocked
      rw [houtcome.of_unnamed hblocked hunnamed]
      exact ⟨rfl, rfl⟩
    · intro hreport
      have hfree := not_or.mp (mt hcode.mpr hreport)
      exact houtcome.of_named hfree.1 (not_and.mp hfree.2)
    · intro format' outcome' houtcome'
      exact houtcome.exitCode_eq houtcome'

/-- A cask with nothing to find in it. -/
def cleanDocument : Document where
  token := "bar"
  source := none
  body := [.send "version" [], .block "on_arm" [] [] [.send "url" []]]

/-- The first of three lists has a clean document on it, the second an offending one besides, and
    the third one that is not there. -/
theorem runArguments_check_mixed :
    let files : Files := fun path =>
      if path = .text "a.json" then .file placedDocument.toText.toUTF8
      else if path = .text "clean.json" then .file cleanDocument.toText.toUTF8
      else .missing
    (∃ outcome, runArguments files "" ["check", "clean.json"] = .ok outcome ∧
      outcome.exitCode = 0) ∧
    (∃ outcome, runArguments files "" ["check", "clean.json", "a.json"] = .ok outcome ∧
      outcome.exitCode = 1) ∧
    ∃ outcome, runArguments files "" ["check", "a.json", "b.json", "clean.json", "--format=json"] =
      .ok outcome ∧ outcome.exitCode = 2 ∧ outcome.output = "" := by
  intro files
  have hsettings : Check.settings files none "" = .ok {} := rfl
  have hoffending : Document.load files "a.json" = .ok placedDocument :=
    (Document.load_congr (if_pos rfl)).trans (Document.load_placedDocument "a.json")
  have hclean : Document.load files "clean.json" = .ok cleanDocument :=
    Document.load_of_file rfl
      (Document.ofText_toText_eq_ok.mpr ⟨⟨by decide, fun x hx => nomatch hx⟩, rfl⟩)
  have hnone : Check.offensesIn files ({} : Settings).detector "clean.json" = [] := by
    have hfindings : ({} : Settings).detector.findings cleanDocument.manifest = [] := by
      decide
    rw [Check.offensesIn_of_ok hclean, hfindings, List.map_nil]
  have hsome : Check.offensesIn files ({} : Settings).detector "a.json" ≠ [] := by
    have hfindings : ({} : Settings).detector.findings placedDocument.manifest ≠ [] := by
      decide
    rw [Check.offensesIn_of_ok hoffending]
    exact mt List.map_eq_nil_iff.mp hfindings
  -- where every listed document is there, the report decides
  have hreported : ∀ {arguments paths}, ofArguments arguments = .ok (.check paths none .text) →
      (∀ path ∈ paths, Check.Loadable files path) →
      ∃ outcome, runArguments files "" arguments = .ok outcome ∧
        outcome.exitCode = if Check.offenses files {} paths = [] then 0 else 1 := by
    intro arguments paths harguments hload
    obtain ⟨⟨outcome, hrun, hend⟩, hall⟩ := runArguments_check harguments files ""
    obtain ⟨hcode, -, -, hreport, -⟩ := hall outcome hend
    have hfree := Check.not_blocked_of_forall hsettings hload
    obtain ⟨s, hs, hexit, -⟩ := hreport (mt hcode.mp (not_or.mpr ⟨hfree, nofun⟩))
    obtain rfl := Except.ok.inj (hsettings.symm.trans hs)
    exact ⟨outcome, hrun, hexit⟩
  refine ⟨?_, ?_, ?_⟩
  · have harguments : ofArguments ["check", "clean.json"] =
        .ok (.check ["clean.json"] none .text) := rfl
    have hnothing : Check.offenses files {} ["clean.json"] = [] := by
      show [_].flatMap _ = []
      rw [List.flatMap_singleton, hnone]
    obtain ⟨outcome, hrun, hexit⟩ := hreported harguments
      (List.forall_mem_singleton.mpr ⟨_, hclean⟩)
    exact ⟨outcome, hrun, hexit.trans (if_pos hnothing)⟩
  · have harguments : ofArguments ["check", "clean.json", "a.json"] =
        .ok (.check ["clean.json", "a.json"] none .text) := rfl
    have hfound : Check.offenses files {} ["clean.json", "a.json"] ≠ [] := by
      show [_, _].flatMap _ ≠ []
      rw [List.flatMap_cons, List.flatMap_singleton, hnone, List.nil_append]
      exact hsome
    obtain ⟨outcome, hrun, hexit⟩ := hreported harguments
      (List.forall_mem_cons.mpr ⟨⟨_, hclean⟩, List.forall_mem_singleton.mpr ⟨_, hoffending⟩⟩)
    exact ⟨outcome, hrun, hexit.trans (if_neg hfound)⟩
  · have harguments : ofArguments ["check", "a.json", "b.json", "clean.json", "--format=json"] =
        .ok (.check ["a.json", "b.json", "clean.json"] none .json) := rfl
    obtain ⟨⟨outcome, hrun, hend⟩, hall⟩ := runArguments_check harguments files ""
    obtain ⟨hcode, hfailed, -⟩ := hall outcome hend
    have hblocked : Check.Blocked files "" none ["a.json", "b.json", "clean.json"] :=
      .inr ⟨{}, hsettings, rfl, "b.json", by simp, .file .missing, rfl⟩
    exact ⟨outcome, hrun, hcode.mpr (.inl hblocked), (hfailed hblocked).1⟩

/-- No text has the form of this byte. -/
theorem not_isValidUTF8_byte : ¬ (ByteArray.mk #[0xFF]).IsValidUTF8 := by decide

/-- A document with one offense lies at a path that is no text, and nothing else lies anywhere.
    Everything that is needed can be loaded. The offense is reported as text, and the exit code is
    1; as JSON it is not, the exit code is 2, and the error does not say that anything failed to
    load. -/
theorem runArguments_check_pathNotText :
    let path : SystemString := .bytes ⟨#[0xFF]⟩ not_isValidUTF8_byte
    let files : Files := fun other =>
      if other = path then .file placedDocument.toText.toUTF8 else .missing
    ofArguments ["check", path, "--format", "json"] = .ok (.check [path] none .json) ∧
    Check.settings files none "" = .ok {} ∧
    Document.load files path = .ok placedDocument ∧
    ¬ Check.Blocked files "" none [path] ∧
    runArguments files "" ["check", path, "--format", "json"] =
      .ok ⟨2, "", "error: path contains invalid UTF-8 characters\n"⟩ ∧
    (¬ ∃ more, "error: path contains invalid UTF-8 characters\n" = "error: failed to " ++ more) ∧
    ∃ outcome, runArguments files "" ["check", path, "--format", "text"] = .ok outcome ∧
      outcome.exitCode = 1 := by
  intro path files
  have hsettings : Check.settings files none "" = .ok {} := rfl
  have hload : Document.load files path = .ok placedDocument :=
    (Document.load_congr (if_pos rfl)).trans (Document.load_placedDocument path)
  have hfree : ¬ Check.Blocked files "" none [path] :=
    Check.not_blocked_of_forall hsettings (List.forall_mem_singleton.mpr ⟨_, hload⟩)
  have hoffenses : Check.offenses files {} [path] =
      (({} : Settings).detector.findings placedDocument.manifest).map
        (.ofFinding path (placedDocument.source.map .ofSource)) := by
    show [path].flatMap _ = _
    rw [List.flatMap_singleton, Check.offensesIn_of_ok hload]
  have hfindings : ({} : Settings).detector.findings placedDocument.manifest ≠ [] := by
    decide
  have hrun : ∀ {arguments format}, ofArguments arguments = .ok (.check [path] none format) →
      runArguments files "" arguments = .ok (run files "" (.check [path] none format)) := by
    intro arguments format h
    rw [runArguments, h, Except.map]
  have hjson : ofArguments ["check", path, "--format", "json"] =
      .ok (.check [path] none .json) := rfl
  have htext : ofArguments ["check", path, "--format", "text"] =
      .ok (.check [path] none .text) := rfl
  refine ⟨hjson, hsettings, hload, hfree, ?_, ?_, ?_⟩
  · obtain ⟨f, hf⟩ := List.exists_mem_of_ne_nil _ hfindings
    have hunnamed : Check.Unnamed files "" none [path] :=
      ⟨{}, hsettings, _, hoffenses ▸ List.mem_map_of_mem hf, rfl⟩
    rw [hrun hjson, (mayEnd_run files "" (.check [path] none .json)).of_unnamed hfree hunnamed]
  · rintro ⟨more, heq⟩
    -- the eighth letters differ
    have htake := congrArg (fun s : String => s.toList.take 8) heq
    simp only [String.toList_append] at htake
    rw [List.take_append_of_le_length (by decide)] at htake
    exact absurd htake (by decide)
  · obtain ⟨s, hs, hexit, -⟩ :=
      (mayEnd_run files "" (.check [path] none .text)).of_named hfree nofun
    obtain rfl := Except.ok.inj (hsettings.symm.trans hs)
    rw [hoffenses, if_neg (mt List.map_eq_nil_iff.mp hfindings)] at hexit
    exact ⟨_, hrun htext, hexit⟩

end Command

end CaskLint
