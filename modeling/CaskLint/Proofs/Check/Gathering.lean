import CaskLint.Check.Run
import CaskLint.Proofs.Check.Files
import CaskLint.Proofs.Fallible
import Mathlib.Data.List.Basic

/-!
# What a check may give

  The files of a list may be looked at in any order, several at a time. What a run gives is then
  told by what the single files give, and not by when they give it:

* **`Gathered`** — the results of all computations in their places, or the failure of any one of
  them. Going from left to right is one way to gather (`gathered_mapM`).
* **`Check.Gives`** — what an enabled check of a list of files may give.
* **`Check.MayGive`** — what a check may give, be it enabled or not.

  There is a choice of failures and of nothing else: a list of which every file is a document has
  one thing to give (`MayGive.eq_ok`), and any other list fails (`MayGive.eq_error`), with no choice
  where a single position fails (`gives_of_only`).
-/

namespace CaskLint

/-! ## Results in any order -/

section

variable {ε α β : Type}

/-- What computations give together that run in any order: the results of all of them, each in its
    place, or the failure of any one of them. -/
inductive Gathered : List (Except ε α) → Except ε (List α) → Prop
  | all (as : List α) : Gathered (as.map .ok) (.ok as)
  | failed {results : List (Except ε α)} {e : ε} (h : .error e ∈ results) :
      Gathered results (.error e)

theorem gathered_ok {results : List (Except ε α)} {as : List α} :
    Gathered results (.ok as) ↔ results = as.map .ok := by
  constructor
  · intro h
    cases h
    rfl
  · rintro rfl
    exact .all as

theorem gathered_error {results : List (Except ε α)} {e : ε} :
    Gathered results (.error e) ↔ .error e ∈ results := by
  constructor
  · intro h
    cases h
    assumption
  · exact .failed

/-- Where nothing fails all results are gathered. -/
theorem gathered_map_ok {as : List α} {g : Except ε (List α)} :
    Gathered (as.map .ok) g ↔ g = .ok as := by
  constructor
  · intro h
    cases g with
    | error e =>
        obtain ⟨a, -, ha⟩ := List.mem_map.mp (gathered_error.mp h)
        exact nomatch ha
    | ok as' =>
        have hmap := gathered_ok.mp h
        rw [(List.map_injective_iff.mpr fun a b => Except.ok.inj) hmap]
  · rintro rfl
    exact .all as

/-- Going from left to right and stopping at the first failure is one way to gather. -/
theorem gathered_mapM (f : α → Except ε β) (as : List α) : Gathered (as.map f) (as.mapM f) := by
  induction as with
  | nil => exact .all []
  | cons a as ih =>
      rw [List.mapM_cons, List.map_cons]
      cases hfirst : f a with
      | error e => exact .failed List.mem_cons_self
      | ok b =>
          cases hrest : as.mapM f with
          | error e =>
              rw [hrest] at ih
              exact .failed (List.mem_cons_of_mem _ (gathered_error.mp ih))
          | ok bs =>
              rw [hrest] at ih
              rw [gathered_ok.mp ih]
              exact .all (b :: bs)

end

namespace Check

/-! ## One file -/

/-- The offenses in the document at a path; none if no document can be loaded there. -/
def offensesIn (files : Files) (detector : Detector) (path : SystemString) : List Offense :=
  match Document.load files path with
  | .ok d => (detector.findings d.manifest).map (.ofFinding path d.lineIndex?)
  | .error _ => []

/-- A document can be loaded at a path. -/
def Loadable (files : Files) (path : SystemString) : Prop :=
  ∃ d, Document.load files path = .ok d

section

variable {files : Files} {detector : Detector} {path : SystemString}

theorem offensesIn_of_ok {d : Document} (h : Document.load files path = .ok d) :
    offensesIn files detector path =
      (detector.findings d.manifest).map (.ofFinding path (d.source.map .ofSource)) := by
  rw [offensesIn, h]
  rfl

theorem file_of_ok {d : Document} (h : Document.load files path = .ok d) :
    file files detector path = .ok (offensesIn files detector path) := by
  rw [file, offensesIn, h]
  rfl

theorem file_of_error {e : DocumentError} (h : Document.load files path = .error e) :
    file files detector path = .error (.document path e) := by
  rw [file, h]
  rfl

theorem file_of_not_loadable (detector : Detector) (h : ¬ Loadable files path) :
    ∃ e, file files detector path = .error (.document path e) := by
  cases hload : Document.load files path with
  | ok d => exact absurd ⟨d, hload⟩ h
  | error e => exact ⟨e, file_of_error hload⟩

/-- What fails in a file is that its document cannot be loaded. -/
theorem eq_document_of_file {f : Failure} (h : file files detector path = .error f) :
    ∃ e, f = .document path e := by
  cases hload : Document.load files path with
  | ok d =>
      rw [file_of_ok hload] at h
      exact nomatch h
  | error e =>
      rw [file_of_error hload] at h
      exact ⟨e, (Except.error.inj h).symm⟩

end

/-! ## Files in any order -/

/-- What an enabled check of these files may give, in whatever order they are looked at. -/
def Gives (files : Files) (detector : Detector) (paths : List SystemString)
    (result : Except Failure CheckReport) : Prop :=
  ∃ gathered, Gathered (paths.map (file files detector)) gathered ∧
    result = gathered.map fun found => ⟨paths.length, found.flatten⟩

section

variable {files : Files} {detector : Detector} {path : SystemString}
  {paths : List SystemString} {s : Settings}

/-- A run gives what an enabled check may give. -/
theorem gives_run (h : s.enabled = true) (files : Files) (paths : List SystemString) :
    Gives files s.detector paths (run files s paths) := by
  refine ⟨paths.mapM (file files s.detector), gathered_mapM _ _, ?_⟩
  rw [run, h, if_pos rfl]
  cases paths.mapM (file files s.detector) <;> rfl

theorem map_file_of_forall (h : ∀ path ∈ paths, Loadable files path) :
    paths.map (file files detector) = (paths.map (offensesIn files detector)).map .ok := by
  rw [List.map_map]
  refine List.map_congr_left fun path hpath => ?_
  obtain ⟨d, hd⟩ := h path hpath
  exact file_of_ok hd

/-- Where every file is a document there is one thing to give. -/
theorem gives_of_forall (h : ∀ path ∈ paths, Loadable files path)
    {result : Except Failure CheckReport} :
    Gives files detector paths result ↔
      result = .ok ⟨paths.length, paths.flatMap (offensesIn files detector)⟩ := by
  rw [Gives, map_file_of_forall h, List.flatMap_def]
  simp only [gathered_map_ok]
  constructor
  · rintro ⟨_, rfl, hresult⟩
    exact hresult
  · intro hresult
    exact ⟨_, rfl, hresult⟩

/-- What succeeds has loaded every file. -/
theorem forall_of_gives {report : CheckReport} (h : Gives files detector paths (.ok report)) :
    ∀ path ∈ paths, Loadable files path := by
  obtain ⟨gathered, hgathered, hreport⟩ := h
  cases gathered with
  | error f => exact nomatch hreport
  | ok found =>
      intro path hpath
      by_contra hload
      obtain ⟨e, he⟩ := file_of_not_loadable detector hload
      have hmem : file files detector path ∈ found.map .ok :=
        gathered_ok.mp hgathered ▸ List.mem_map_of_mem hpath
      obtain ⟨offenses, -, hoffenses⟩ := List.mem_map.mp hmem
      exact nomatch hoffenses.trans he

/-- What fails has not loaded one of the files. -/
theorem document_of_gives {f : Failure} (h : Gives files detector paths (.error f)) :
    ∃ path e, f = .document path e := by
  obtain ⟨gathered, hgathered, hf⟩ := h
  cases gathered with
  | ok found => exact nomatch hf
  | error f' =>
      obtain rfl := Except.error.inj hf
      obtain ⟨path, -, hfile⟩ := List.mem_map.mp (gathered_error.mp hgathered)
      exact ⟨path, eq_document_of_file hfile⟩

/-- Where one position fails and no other, its failure is the one that is given. -/
theorem gives_of_only {before after : List SystemString} {f : Failure}
    (h : ∀ other ∈ before ++ after, Loadable files other)
    (hpath : file files detector path = .error f) {result : Except Failure CheckReport} :
    Gives files detector (before ++ path :: after) result ↔ result = .error f := by
  obtain ⟨hbefore, hafter⟩ := List.forall_mem_append.mp h
  have hresults : ∀ {f'}, .error f' ∈ (before ++ path :: after).map (file files detector) ↔
      f' = f := by
    intro f'
    rw [List.map_append, List.map_cons, map_file_of_forall hbefore, map_file_of_forall hafter,
      hpath]
    simp
  constructor
  · rintro ⟨gathered, hgathered, rfl⟩
    cases gathered with
    | error f' =>
        rw [hresults.mp (gathered_error.mp hgathered)]
        rfl
    | ok found =>
        -- the failing file is among those that were gathered
        have hmem := hresults.mpr rfl
        rw [gathered_ok.mp hgathered] at hmem
        obtain ⟨offenses, -, hoffenses⟩ := List.mem_map.mp hmem
        exact nomatch hoffenses
  · rintro rfl
    exact ⟨.error f, .failed (hresults.mpr rfl), rfl⟩

end

/-! ## Checks that are enabled or not -/

/-- The offenses in the listed documents, in the order of the list. A check that is not enabled
    looks for none. -/
def offenses (files : Files) (s : Settings) (paths : List SystemString) : List Offense :=
  if s.enabled then paths.flatMap (offensesIn files s.detector) else []

/-- What a check of these files may give. One that is not enabled looks at none of them. -/
def MayGive (files : Files) (s : Settings) (paths : List SystemString)
    (result : Except Failure CheckReport) : Prop :=
  if s.enabled then Gives files s.detector paths result else result = .ok ⟨paths.length, []⟩

section

variable {files files' : Files} {s : Settings} {paths : List SystemString}
  {result : Except Failure CheckReport}

/-- A run gives what a check may give. -/
theorem mayGive_run (files : Files) (s : Settings) (paths : List SystemString) :
    MayGive files s paths (run files s paths) := by
  rw [MayGive]
  split
  case isTrue henabled => exact gives_run henabled files paths
  case isFalse hdisabled => rw [run, if_neg hdisabled]; rfl

/-- Where every file that is looked at is a document, all that is found in them is reported. -/
theorem MayGive.eq_ok (h : MayGive files s paths result)
    (hload : s.enabled = true → ∀ path ∈ paths, Loadable files path) :
    result = .ok ⟨paths.length, offenses files s paths⟩ := by
  rw [MayGive] at h
  rw [offenses]
  split at h
  case isTrue henabled =>
      rw [if_pos henabled]
      exact (gives_of_forall (hload henabled)).mp h
  case isFalse hdisabled =>
      rw [if_neg hdisabled]
      exact h

/-- One file that is no document fails an enabled check, wherever it is listed. -/
theorem MayGive.eq_error (h : MayGive files s paths result) (henabled : s.enabled = true)
    {path : SystemString} (hpath : path ∈ paths) (hload : ¬ Loadable files path) :
    ∃ path e, result = .error (.document path e) := by
  rw [MayGive, if_pos henabled] at h
  cases result with
  | ok report => exact absurd (forall_of_gives h path hpath) hload
  | error f =>
      obtain ⟨path', e, rfl⟩ := document_of_gives h
      exact ⟨path', e, rfl⟩

/-- What a check of some files may give depends on what lies there. -/
theorem mayGive_congr (h : ∀ path ∈ paths, files' path = files path) (s : Settings) :
    MayGive files' s paths result ↔ MayGive files s paths result := by
  have hfiles : paths.map (file files' s.detector) = paths.map (file files s.detector) :=
    List.map_congr_left fun path hpath => file_congr (h path hpath) s.detector
  rw [MayGive, MayGive, Gives, Gives, hfiles]

end

end Check

end CaskLint
