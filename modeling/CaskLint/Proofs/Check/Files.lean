import CaskLint.Check.Run
import CaskLint.Proofs.Fallible
import Mathlib.Data.List.Basic

/-!
# Files that are read and files that are written

  A run looks at the paths that it is given and at nothing else, so what it reads is told by what
  lies at these paths. A file that holds a text is read as that text (`Files.text_of_file`).

* **`Files.Created`** — a new file is written. More than one path may lead to it; nothing lay at
  any of these before, and every other path leads where it did.
* **`FileTree.created_put`** — that is what putting a file into a tree does, at a place where
  there is nothing and to which directories lead. The one thing to see is that no path takes
  another way: going up needs a directory, and the new file is none.
-/

namespace CaskLint

/-! ## Files that hold a text -/

/-- The bytes of a text are those of that text. -/
theorem fromUTF8?_toUTF8 (s : String) : String.fromUTF8? s.toUTF8 = some s := by
  rw [String.fromUTF8?, String.toUTF8_eq_toByteArray, dif_pos s.isValidUTF8]
  rfl

theorem Files.text_of_file {files : Files} {path : SystemString} {s : String}
    (h : files path = .file s.toUTF8) : files.text path = .ok s := by
  rw [Files.text, h, Lookup.content, ok_bind, fromUTF8?_toUTF8]
  rfl

/-- A file that holds the text of a document is loaded as that document. -/
theorem Document.load_of_file {files : Files} {path : SystemString} {s : String} {d : Document}
    (hfile : files path = .file s.toUTF8) (htext : Document.ofText s = .ok d) :
    Document.load files path = .ok d := by
  rw [Document.load, Files.text_of_file hfile]
  show (Document.ofText s).mapError _ = _
  rw [htext]
  rfl

/-- A file that holds the text of settings gives these settings. -/
theorem Check.settingsAt_of_file {files : Files} {path : SystemString} {text : String}
    {s : Settings}
    (hfile : files path = .file text.toUTF8) (htext : Settings.ofText text = .ok s) :
    Check.settingsAt files path = .ok s := by
  rw [Check.settingsAt, Settings.load, Files.text_of_file hfile]
  show ((Settings.ofText text).mapError _).mapError _ = _
  rw [htext]
  rfl

/-! ## Files that are read alike -/

section

variable {files files' : Files} {path : SystemString}

theorem Files.text_congr (h : files' path = files path) : files'.text path = files.text path := by
  rw [Files.text, Files.text, h]

theorem Document.load_congr (h : files' path = files path) :
    Document.load files' path = Document.load files path := by
  rw [Document.load, Document.load, Files.text_congr h]

theorem Check.settingsAt_congr (h : files' path = files path) :
    Check.settingsAt files' path = Check.settingsAt files path := by
  rw [Check.settingsAt, Check.settingsAt, Settings.load, Settings.load, Files.text_congr h]

/-- Where nothing lies there are no settings. -/
theorem Check.settingsAt_ne_ok_of_missing (h : files path = .missing) (s : Settings) :
    Check.settingsAt files path ≠ .ok s := by
  rw [Check.settingsAt, Settings.load, Files.text, h]
  exact nofun

theorem Check.file_congr (h : files' path = files path) (detector : Detector) :
    Check.file files' detector path = Check.file files detector path := by
  rw [Check.file, Check.file, Document.load_congr h]

/-- The check of some files depends on what lies there. -/
theorem Check.run_congr {paths : List SystemString} (h : ∀ path ∈ paths, files' path = files path)
    (s : Settings) : Check.run files' s paths = Check.run files s paths := by
  have hfiles : paths.mapM (Check.file files' s.detector) =
      paths.mapM (Check.file files s.detector) :=
    mapM_congr fun path hpath => Check.file_congr (h path hpath) s.detector
  rw [Check.run, Check.run, hfiles]

end

/-! ## New files -/

/-- A file with this content is written where there was none. All the paths that lead to the file
    led nowhere, and the other paths lead where they did. -/
structure Files.Created (files files' : Files) (leads : SystemString → Prop)
    (content : ByteArray) : Prop where
  missing : ∀ path, leads path → files path = .missing
  written : ∀ path, leads path → files' path = .file content
  kept : ∀ path, ¬ leads path → files' path = files path

namespace FileTree

variable {tree : FileTree} {place : List String}

/-- Which places are reached depends on where there are directories. -/
theorem follow?_congr {tree' : FileTree}
    (h : ∀ place, tree'.at? place = .directory ↔ tree.at? place = .directory)
    (place parts : List String) : tree'.follow? place parts = tree.follow? place parts := by
  induction parts generalizing place with
  | nil => rfl
  | cons part parts ih =>
      rw [follow?, follow?, ih, ih]
      -- the way up is open in both trees or in none
      have hplace := h place
      cases ht : tree.at? place <;> cases ht' : tree'.at? place <;> simp_all

/-- What lies at a place once something was put at a place. -/
theorem lookup_putAt (what : Lookup) (entries : List (List String × Lookup))
    (other : List String) :
    (putAt place what entries).lookup other =
      if other = place then some what else entries.lookup other := by
  rw [putAt, List.lookup_cons]
  by_cases hother : other = place
  · rw [if_pos hother, beq_iff_eq.mpr hother]
  · rw [if_neg hother, beq_eq_false_iff_ne.mpr hother]
    dsimp only
    -- what was taken out lay at the place itself
    induction entries with
    | nil => rfl
    | cons entry entries ih =>
        obtain ⟨old, what'⟩ := entry
        rw [List.lookup_cons, List.filter_cons]
        by_cases hold : old = place
        · have hne : (other == old) = false := by
            rw [hold]
            exact beq_eq_false_iff_ne.mpr hother
          rw [if_neg (by simpa using hold), ih, hne]
        · rw [if_pos (by simpa using hold), List.lookup_cons, ih]

/-- Where the directories on the way are there already, putting something at a place changes what
    lies at that place. -/
theorem at?_put {path : SystemString} (hplace : tree.resolve? path = some place)
    (hway : ∀ above ∈ downTo place.dropLast, tree.at? above = .directory) (what : Lookup)
    (other : List String) :
    (tree.put path what).at? other = if other = place then what else tree.at? other := by
  have hmissing : (downTo place.dropLast).filter
      (fun above => (tree.entries.lookup above).isNone) = [] := by
    rw [List.filter_eq_nil_iff]
    intro above habove
    have hdirectory := hway above habove
    rw [at?] at hdirectory
    cases hlookup : tree.entries.lookup above with
    | none =>
        rw [hlookup] at hdirectory
        exact nomatch hdirectory
    | some what => exact nofun
  rw [put, hplace]
  dsimp only
  rw [hmissing, at?, lookup_putAt, at?]
  split <;> rfl

/-- **Putting a file into a tree** creates it, if nothing lies at its place and the directories on
    the way are there. The paths that lead to the file are those that led to its place. -/
theorem created_put {path : SystemString} (hplace : tree.resolve? path = some place)
    (hway : ∀ above ∈ downTo place.dropLast, tree.at? above = .directory)
    (hmissing : tree.at? place = .missing) (content : ByteArray) :
    Files.Created tree.files (tree.put path (.file content)).files
      (fun path => tree.resolve? path = some place) content := by
  have hat := at?_put hplace hway (.file content)
  have hdirectory : ∀ other, (tree.put path (.file content)).at? other = .directory ↔
      tree.at? other = .directory := by
    intro other
    rw [hat]
    by_cases hother : other = place
    · rw [if_pos hother, hother, hmissing]
      simp
    · rw [if_neg hother]
  have hstart : (tree.put path (.file content)).directory = tree.directory := by
    rw [put, hplace]
  have hresolve : ∀ path', (tree.put path (.file content)).resolve? path' =
      tree.resolve? path' := by
    intro path'
    cases path' with
    | bytes content invalid => rfl
    | text path' =>
        rw [resolve?, resolve?, hstart]
        split
        · rfl
        · exact follow?_congr hdirectory _ _
        · exact follow?_congr hdirectory _ _
  refine ⟨?_, ?_, ?_⟩
  · intro path' hleads
    rw [files, hleads]
    exact hmissing
  · intro path' hleads
    rw [files, hresolve, hleads]
    dsimp only
    rw [hat, if_pos rfl]
  · intro path' hleads
    rw [files, files, hresolve]
    cases hother : tree.resolve? path' with
    | none => rfl
    | some other =>
        dsimp only
        rw [hat, if_neg]
        rintro rfl
        exact hleads hother

end FileTree

end CaskLint
