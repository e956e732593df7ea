import CaskLint.Proofs.Check.Files
import CaskLint.Proofs.Detection.Exactness
import CaskLint.Proofs.Settings.RoundTrip
import CaskLint.Tree.Builders

/-!
# Selecting stanzas hides no conditional block

  The manifest of a body keeps the stanzas whose name is in the vocabulary. A conditional block
  with a name outside the vocabulary would be dropped, and with it the names that it declares.
  Settings that can be loaded rule this out:

* **`load_validates`** — whatever way settings are found, they are valid.
* **`validate_eq_ok`** — so every conditional name begins as the vocabulary asks.
* **`findings_filter`** — a selection by name that keeps the conditional blocks commutes with
  the search for conflicts.

  **`findings_ofBody_eq_filter`** puts the three together.
-/

namespace CaskLint

/-! ## Valid settings -/

namespace Settings

/-- Settings are valid when no rule is broken: there is a conditional block, the conditional blocks
    have conditional names, and livecheck is none of them. -/
theorem validate_eq_ok {s : Settings} :
    s.validate = .ok () ↔
      s.conditional ≠ [] ∧ (∀ name ∈ s.conditional, isConditionalName name = true) ∧
        s.livecheck ∉ s.conditional := by
  rw [validate]
  cases hc : s.conditional with
  | nil => simp
  | cons first rest =>
      rw [if_neg (by simp)]
      cases hf : (first :: rest).find? (!isConditionalName ·) with
      | some name =>
          -- the name that is reported breaks the second condition
          have hbad : isConditionalName name = false := by simpa using List.find?_some hf
          have hmem := List.mem_of_find?_eq_some hf
          constructor
          · intro h
            exact nomatch h
          · rintro ⟨-, hall, -⟩
            exact absurd (hall name hmem) (by simp [hbad])
      | none =>
          have hall : ∀ name ∈ first :: rest, isConditionalName name = true := by
            simpa using List.find?_eq_none.mp hf
          by_cases hl : s.livecheck ∈ first :: rest
          · simp [hl]
          · rw [if_neg (by simpa using hl)]
            exact ⟨fun _ => ⟨List.cons_ne_nil _ _, hall, hl⟩, fun _ => rfl⟩

theorem validate_default : ({} : Settings).validate = .ok () := by decide

theorem ofText_validates {text : String} {s : Settings} (h : ofText text = .ok s) :
    s.validate = .ok () := by
  unfold ofText at h
  cases hread : Toml.read text with
  | none => rw [hread] at h; exact nomatch h
  | some entries =>
      rw [hread] at h
      obtain ⟨s', -, h⟩ := bind_eq_ok.mp h
      obtain ⟨⟨⟩, hv, h⟩ := bind_eq_ok.mp h
      obtain rfl := Except.ok.inj h
      exact mapError_eq_ok.mp hv

end Settings

/-- Settings that are found, in whatever way, are valid. -/
theorem Check.load_validates {files : Files} {explicit : Option SystemString}
    {directory : SystemString} {s : Settings}
    (h : Check.settings files explicit directory = .ok s) : s.validate = .ok () := by
  have hat : ∀ path, Check.settingsAt files path = .ok s → s.validate = .ok () := by
    intro path h
    obtain ⟨text, -, h⟩ := bind_eq_ok.mp (mapError_eq_ok.mp h)
    exact Settings.ofText_validates (mapError_eq_ok.mp h)
  unfold Check.settings at h
  cases explicit with
  | some path => exact hat path h
  | none =>
      dsimp only at h
      split at h
      · -- a file that was discovered
        exact hat _ h
      · -- no file, so the defaults
        obtain rfl := Except.ok.inj h
        exact Settings.validate_default

/-! ## Selections by name -/

namespace Detector

variable (d : Detector)

/-- Stanzas that are no conditional blocks declare nothing, so they may be left out. -/
theorem declaredInBlocks_filter {keep : String → Bool}
    (hkeep : ∀ name ∈ d.conditional, keep name = true) (m : Manifest) :
    d.declaredInBlocks ⟨m.token, m.stanzas.filter (keep ·.name)⟩ = d.declaredInBlocks m := by
  obtain ⟨token, stanzas⟩ := m
  show (stanzas.filter (keep ·.name)).flatMap d.declaredByStanza
    = stanzas.flatMap d.declaredByStanza
  induction stanzas with
  | nil => rfl
  | cons s rest ih =>
      rw [List.filter_cons]
      cases hs : keep s.name with
      | true => rw [if_pos rfl, List.flatMap_cons, List.flatMap_cons, ih]
      | false =>
          -- a stanza that is left out is no conditional block
          have hname : d.isConditional s.name = false := by
            rw [isConditional_eq_false]
            intro hmem
            exact absurd (hkeep _ hmem) (by simp [hs])
          have hnone : d.declaredByStanza s = [] := by simp [declaredByStanza, hname]
          rw [if_neg Bool.false_ne_true, List.flatMap_cons, hnone, ih]
          rfl

/-- A selection by name that keeps the conditional blocks selects among the findings as well. -/
theorem findings_filter {keep : String → Bool}
    (hkeep : ∀ name ∈ d.conditional, keep name = true) (m : Manifest) :
    (d.findings ⟨m.token, m.stanzas.filter (keep ·.name)⟩).map Finding.stanza =
      ((d.findings m).map Finding.stanza).filter (keep ·.name) := by
  rw [map_stanza_findings, map_stanza_findings, d.declaredInBlocks_filter hkeep,
    List.filter_filter, List.filter_filter]
  refine List.filter_congr fun s _ => ?_
  rw [Bool.and_comm]

end Detector

/-! ## The manifest without a vocabulary -/

/-- The manifest of all statements of a body that invoke something without a receiver, whatever
    the name. -/
def Manifest.ofStatements (token : String) (body : List Node) : Manifest :=
  ⟨token, (Node.flattenList body).filterMap Stanza.ofNode?⟩

theorem Manifest.ofBody_eq_filter (token : String) (body : List Node) :
    Manifest.ofBody token body =
      ⟨token, (Manifest.ofStatements token body).stanzas.filter
        (Vocabulary.isStanzaName ·.name)⟩ := by
  rw [Manifest.ofBody, Manifest.ofStatements]
  dsimp only
  rw [List.filter_filterMap]
  rfl

/-- A name that a conditional block may have is a stanza name. -/
theorem isStanzaName_of_isConditionalName {name : String}
    (h : Settings.isConditionalName name = true) : Vocabulary.isStanzaName name = true := by
  rw [Settings.isConditionalName, Bool.and_eq_true] at h
  rw [Vocabulary.isStanzaName, h.1]
  rfl

/-- **Selection hides nothing.** With settings that can be loaded, the findings in the manifest of
    a body are the findings among all its receiver-less invocations, as far as these have a
    name from the vocabulary. -/
theorem findings_ofBody_eq_filter {files : Files} {explicit : Option SystemString}
    {directory : SystemString} {s : Settings}
    (h : Check.settings files explicit directory = .ok s) (token : String) (body : List Node) :
    (s.detector.findings (Manifest.ofBody token body)).map Finding.stanza =
      ((s.detector.findings (Manifest.ofStatements token body)).map Finding.stanza).filter
        (Vocabulary.isStanzaName ·.name) := by
  obtain ⟨-, hnames, -⟩ := Settings.validate_eq_ok.mp (Check.load_validates h)
  rw [Manifest.ofBody_eq_filter]
  exact s.detector.findings_filter
    (fun name hname => isStanzaName_of_isConditionalName (hnames name hname))
    (Manifest.ofStatements token body)

/-- These settings are found in the directory. They have one conditional block, which the vocabulary
    does not list, and the selection keeps it because its name begins as that of a conditional block
    does; a helper call beside the stanzas is left out. -/
theorem findings_ofBody_eq_filter_someday :
    let s : Settings := ⟨true, ["on_someday"], "livecheck"⟩
    let files : Files := fun path =>
      if path = .text "/w/caskcheck.toml" then .file s.toText.toUTF8 else .missing
    let body : List Node := [.send "version" [],
      .block "on_someday" [] [] [.send "version" [], .send "helper" []], .send "helper" []]
    Check.settings files none "/w" = .ok s ∧ "on_someday" ∉ Vocabulary.stanzaOrder ∧
    ((s.detector.findings (Manifest.ofBody "foo" body)).map Finding.stanza =
      ((s.detector.findings (Manifest.ofStatements "foo" body)).map Finding.stanza).filter
        (Vocabulary.isStanzaName ·.name)) ∧
    (s.detector.findings (Manifest.ofBody "foo" body)).length = 1 ∧
    (s.detector.findings (Manifest.ofStatements "foo" body)).length = 2 := by
  intro s files body
  have hfound : files "/w/caskcheck.toml" = .file s.toText.toUTF8 := rfl
  have hload : Check.settings files none "/w" = .ok s :=
    Check.settingsAt_of_file hfound (Settings.ofText_toText_of_valid rfl)
  exact ⟨hload, by decide, findings_ofBody_eq_filter hload "foo" body,
    by decide, by decide⟩

end CaskLint
