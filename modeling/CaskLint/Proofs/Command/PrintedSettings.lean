import CaskLint.Proofs.Command.Outcome
import CaskLint.Proofs.Detection.Selection
import CaskLint.Proofs.Settings.RoundTrip

/-!
# The printed settings are those in effect

  `print-config` finds settings in one of three ways and prints them. When what it prints is
  written to a new file, that file holds the settings that are in effect, so asking for it changes
  nothing:

* **`Check.settings_of_created`** — the settings are found again in the file, and in every way in
  which they were found before. It takes two facts: settings that are found are valid, and valid
  settings are read back as they were printed.
* **`Command.endsAlike_check`** — what a check does depends on its settings and on the listed
  files, and so does what it may do when these are looked at in another order.

  A new file may turn up where settings are looked for when none are asked for. Then it takes the
  place of the defaults, but these are what it holds (**`run_printed_settings`**).
-/

namespace CaskLint

/-! ## Settings that are found -/

namespace Check

variable {files files' : Files} {directory : SystemString} {config : Option SystemString}
  {s : Settings}

theorem settings_none (files : Files) (directory : SystemString) :
    settings files none directory =
      if files.isFile (joinPath directory settingsFile) then
        settingsAt files (joinPath directory settingsFile)
      else .ok {} := rfl

/-- A file that holds what is printed of valid settings gives these settings. -/
theorem settingsAt_toText {path : SystemString} (hfile : files path = .file s.toText.toUTF8)
    (hvalid : s.validate = .ok ()) : settingsAt files path = .ok s :=
  settingsAt_of_file hfile (Settings.ofText_toText_of_valid hvalid)

/-- Settings that were found are found in the same way after they were printed to a new file. -/
theorem settings_of_created {leads : SystemString → Prop}
    (h : settings files config directory = .ok s)
    (hcreated : Files.Created files files' leads s.toText.toUTF8) :
    settings files' config directory = .ok s := by
  have hvalid : s.validate = .ok () := load_validates h
  cases config with
  | some path =>
      -- there was a file at the path that is asked for, so it is not the new one
      have hold : ¬ leads path := fun hleads =>
        settingsAt_ne_ok_of_missing (hcreated.missing path hleads) s h
      exact (settingsAt_congr (hcreated.kept path hold)).trans h
  | none =>
      rw [settings_none] at h ⊢
      by_cases hleads : leads (joinPath directory settingsFile)
      · have hfile := hcreated.written _ hleads
        rw [Files.isFile, hfile, if_pos rfl]
        exact settingsAt_toText hfile hvalid
      · have hkept := hcreated.kept _ hleads
        rw [Files.isFile, hkept, settingsAt_congr hkept]
        exact h

end Check

/-! ## Runs -/

namespace Command

variable {files files' : Files} {directory : SystemString} {config : Option SystemString}

/-- Settings are printed when they are found, and that is the only way to end with 0. -/
theorem exitCode_run_printConfig :
    (run files directory (.printConfig config)).exitCode = 0 ↔
      ∃ s, Check.settings files config directory = .ok s ∧
        run files directory (.printConfig config) = .printed s.toText := by
  rw [run]
  cases hs : Check.settings files config directory with
  | ok s => exact ⟨fun _ => ⟨s, rfl, rfl⟩, fun _ => rfl⟩
  | error f =>
      constructor
      · intro h
        cases h
      · rintro ⟨s, h, -⟩
        cases h

theorem run_printConfig_congr {config' : Option SystemString}
    (h : Check.settings files' config' directory = Check.settings files config directory) :
    run files' directory (.printConfig config') = run files directory (.printConfig config) := by
  rw [run, run, h]

/-- Two commands end alike in two file systems: as they run, and in every way in which they may end
    when the files are looked at in another order. -/
structure EndsAlike (files files' : Files) (directory : SystemString) (c c' : Command) : Prop where
  run_eq : run files' directory c' = run files directory c
  mayEnd_iff : ∀ outcome, MayEnd files' directory c' outcome ↔ MayEnd files directory c outcome

/-- A check does the same with the same settings and the same listed files. -/
theorem endsAlike_check {config' : Option SystemString} {paths : List SystemString}
    (h : Check.settings files' config' directory = Check.settings files config directory)
    (hpaths : ∀ path ∈ paths, files' path = files path) (format : ReportFormat) :
    EndsAlike files files' directory (.check paths config format)
      (.check paths config' format) := by
  constructor
  · rw [run, run, h]
    simp only [Check.run_congr hpaths]
  · intro outcome
    rw [MayEnd, MayEnd, h]
    simp only [Check.mayGive_congr hpaths]

/-- **The printed settings are those in effect.** Let settings be found, in whatever way, and let
    what is printed of them be written to a new file. Then they are printed again when that file is
    asked for, and a check with that file does what it does without: in the same directory with any
    list of documents, and compared with the directory as it was, with any list that does not have
    the new file on it, since it takes the same settings and loads the same documents. And whenever
    a file is asked for, no other file has a part in the settings, `caskcheck.toml` included. -/
theorem run_printed_settings :
    (∀ {leads : SystemString → Prop} {printed : SystemString},
      (run files directory (.printConfig config)).exitCode = 0 →
      Files.Created files files' leads
        (run files directory (.printConfig config)).output.toUTF8 → leads printed →
      run files' directory (.printConfig (some printed)) =
        run files directory (.printConfig config) ∧
      (∀ paths format, EndsAlike files' files' directory (.check paths config format)
        (.check paths (some printed) format)) ∧
      (∀ paths format, (∀ path ∈ paths, ¬ leads path) →
        EndsAlike files files' directory (.check paths config format)
          (.check paths (some printed) format)) ∧
      ∃ s, Check.settings files config directory = .ok s ∧
        Check.settings files' (some printed) directory = .ok s ∧
        ∀ path, ¬ leads path → Document.load files' path = Document.load files path) ∧
    ∀ {path : SystemString}, files' path = files path →
      run files' directory (.printConfig (some path)) =
        run files directory (.printConfig (some path)) ∧
      ∀ paths format, (∀ path ∈ paths, files' path = files path) →
        EndsAlike files files' directory (.check paths (some path) format)
          (.check paths (some path) format) := by
  constructor
  · intro leads printed hcode hcreated hleads
    obtain ⟨s, hs, hrun⟩ := exitCode_run_printConfig.mp hcode
    rw [hrun] at hcreated
    have hfound : Check.settings files' config directory = .ok s :=
      Check.settings_of_created hs hcreated
    have hasked : Check.settings files' (some printed) directory = .ok s :=
      Check.settingsAt_toText (hcreated.written printed hleads) (Check.load_validates hs)
    refine ⟨run_printConfig_congr (hasked.trans hs.symm), ?_, ?_, s, hs, hasked, ?_⟩
    · intro paths format
      exact endsAlike_check (hasked.trans hfound.symm) (fun _ _ => rfl) format
    · intro paths format hothers
      exact endsAlike_check (hasked.trans hs.symm)
        (fun path hpath => hcreated.kept path (hothers path hpath)) format
    · intro path hother
      exact Document.load_congr (hcreated.kept path hother)
  · intro path h
    have hsettings : Check.settings files' (some path) directory =
        Check.settings files (some path) directory := Check.settingsAt_congr h
    exact ⟨run_printConfig_congr hsettings, fun paths format hpaths =>
      endsAlike_check hsettings hpaths format⟩

/-- Settings that were discovered are printed to a file beside them, which two paths lead to. -/
theorem run_printed_settings_discovered :
    let s : Settings := ⟨true, ["on_x"], "check"⟩
    let tree := (FileTree.empty "/w").put "caskcheck.toml" (.file s.toText.toUTF8)
    let tree' := tree.put "new.toml" (.file s.toText.toUTF8)
    (run tree.files "/w" (.printConfig none)).exitCode = 0 ∧
    run tree'.files "/w" (.printConfig (some "./new.toml")) =
      run tree.files "/w" (.printConfig none) ∧
    run tree'.files "/w" (.check ["a.json"] (some "new.toml") .json) =
      run tree.files "/w" (.check ["a.json"] none .json) := by
  intro s tree tree'
  have hplace : tree.resolve? "new.toml" = some ["w", "new.toml"] := by decide
  have hway : ∀ above ∈ FileTree.downTo ["w"], tree.at? above = .directory :=
    List.forall_mem_cons.mpr ⟨rfl, List.forall_mem_cons.mpr ⟨rfl, nofun⟩⟩
  have hcreated := FileTree.created_put hplace hway rfl s.toText.toUTF8
  have hsettings : Check.settings tree.files none "/w" = .ok s := by
    have hfound : tree.files "/w/caskcheck.toml" = .file s.toText.toUTF8 := rfl
    exact Check.settingsAt_toText hfound (by decide)
  have hrun : run tree.files "/w" (.printConfig none) = .printed s.toText := by
    rw [run, hsettings]
  have hcode : (run tree.files "/w" (.printConfig none)).exitCode = 0 := by
    rw [hrun]
    rfl
  have hprinted : Files.Created tree.files tree'.files
      (fun path => tree.resolve? path = some ["w", "new.toml"])
      (run tree.files "/w" (.printConfig none)).output.toUTF8 := by
    rw [hrun]
    exact hcreated
  have hnew : tree.resolve? "./new.toml" = some ["w", "new.toml"] := by decide
  have hother : ∀ path ∈ [SystemString.text "a.json"],
      ¬ tree.resolve? path = some ["w", "new.toml"] := by decide
  obtain ⟨heffective, -⟩ := @run_printed_settings tree.files tree'.files "/w" none
  obtain ⟨hagain, -⟩ := heffective hcode hprinted hnew
  obtain ⟨-, -, hchecked, -⟩ := heffective hcode hprinted hplace
  exact ⟨hcode, hagain, (hchecked ["a.json"] .json hother).run_eq⟩

end Command

end CaskLint
