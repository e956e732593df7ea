import CaskLint.Check.Files
import CaskLint.Check.Report
import CaskLint.Document.FromText
import CaskLint.Settings.Text

/-!
# Checking files

  **`Check.settings`** finds the settings: in the file that is asked for, else in
  `caskcheck.toml` of a directory, else the defaults. **`Check.run`** checks a list of
  files with them. All offenses are listed in the order of the files, and in each file in the
  order of the document; one file that cannot be loaded fails the whole run. A check
  that is not enabled looks at no file.
-/

namespace CaskLint

/-! ## Loading -/

/-- Why a document cannot be loaded. -/
inductive DocumentError where
  | file (f : FileFault)
  | content (e : ReadError)

/-- Why settings cannot be loaded. -/
inductive LoadSettingsError where
  | file (f : FileFault)
  | content (e : SettingsError)

/-- Loads a document. -/
def Document.load (files : Files) (path : SystemString) : Except DocumentError Document := do
  let text ← (files.text path).mapError .file
  (Document.ofText text).mapError .content

/-- Loads settings and validates them. -/
def Settings.load (files : Files) (path : SystemString) : Except LoadSettingsError Settings := do
  let text ← (files.text path).mapError .file
  (Settings.ofText text).mapError .content

/-! ## Failures -/

/-- Why a run fails: what could not be loaded. -/
inductive Failure where
  | document (path : SystemString) (e : DocumentError)
  | settings (path : SystemString) (e : LoadSettingsError)

/-- The wording of a text that is not JSON or not a document. -/
def ReadError.message : ReadError → String
  | .fault .malformed => "malformed JSON"
  | .fault .truncated => "JSON that ends too early"
  | .mismatch m => m.message fun x => String.ofList (Json.writeFloat x)

/-- The wording of a text that is not TOML or not settings. -/
def SettingsError.message : SettingsError → String
  | .notToml => "malformed TOML"
  | .mismatch m => m.message Settings.floatText
  | .invalid f => f.message

/-- What is wrong with a document, from the outermost cause to the innermost. -/
def DocumentError.causes : DocumentError → List String
  | .file f => ["failed to read document: " ++ f.message, f.message]
  | .content e => ["failed to parse document: " ++ e.message, e.message]

/-- What is wrong with settings, from the outermost cause to the innermost. -/
def LoadSettingsError.causes : LoadSettingsError → List String
  | .file f => ["failed to read config file: " ++ f.message, f.message]
  | .content (.invalid f) => [f.message]
  | .content e => ["failed to parse config: " ++ e.message, e.message]

/-- Why the run fails, from the outermost cause to the innermost. -/
def Failure.causes : Failure → List String
  | .document path e => ("failed to load '" ++ path.display ++ "'") :: e.causes
  | .settings path e => ("failed to load config '" ++ path.display ++ "'") :: e.causes

/-! ## Runs -/

/-- What a run found. -/
structure CheckReport where
  files : Nat
  offenses : List Offense

namespace Check

/-- The file that settings are looked for in. -/
def settingsFile : String := "caskcheck.toml"

/-- Loads the settings at a path. -/
def settingsAt (files : Files) (path : SystemString) : Except Failure Settings :=
  (Settings.load files path).mapError (.settings path)

/-- The settings that apply in a directory when `explicit` is asked for. -/
def settings (files : Files) (explicit : Option SystemString) (directory : SystemString) :
    Except Failure Settings :=
  match explicit with
  | some path => settingsAt files path
  | none =>
    let discovered := joinPath directory settingsFile
    if files.isFile discovered then settingsAt files discovered else .ok {}

/-- The offenses of one file. -/
def file (files : Files) (detector : Detector) (path : SystemString) :
    Except Failure (List Offense) := do
  let d ← (Document.load files path).mapError (.document path)
  return (detector.findings d.manifest).map (.ofFinding path d.lineIndex?)

/-- Checks the files at these paths. -/
def run (files : Files) (settings : Settings) (paths : List SystemString) :
    Except Failure CheckReport := do
  if settings.enabled then
    let offenses ← paths.mapM (file files settings.detector)
    return ⟨paths.length, offenses.flatten⟩
  else return ⟨paths.length, []⟩

end Check

end CaskLint
