import CaskLint.Record.Fields
import CaskLint.Settings.Basic
import CaskLint.Toml.Reader
import CaskLint.Toml.Writer

/-!
# Settings as text

  Settings are kept in a TOML document with one table, `no-overrides`. What is left out
  keeps its default, and what is not known is an error. **`Settings.ofText`** reads and
  validates settings, **`Settings.toText`** writes them.
-/

namespace CaskLint

open Record

/-! ## Errors -/

/-- Why a text is not a document with valid settings. -/
inductive SettingsError where
  /-- The text is not TOML. -/
  | notToml
  /-- The text is TOML, but not that of settings. -/
  | mismatch (m : Mismatch)
  /-- The settings break a rule. -/
  | invalid (f : SettingsFault)

/-- What a TOML value is called when another one was expected. -/
def Toml.Value.found : Toml.Value → Found
  | .text value => .text value
  | .integer value => .integer value
  | .float value => .float value
  | .flag value => .flag value
  | .moment _ => .map
  | .array _ => .sequence
  | .table _ => .map

namespace Settings

/-- Floating-point numbers in messages: always positional, ties up. -/
def floatStyle : FloatStyle := ⟨.up, fun _ => true⟩

/-- A floating-point number in a message. -/
def floatText : Binary64 → String
  | .nan => "NaN"
  | .infinite false => "inf"
  | .infinite true => "-inf"
  | .finite negative m => String.ofList ((floatStyle.write? (.finite negative m)).getD [])

/-! ## Reading -/

/-- What a setting holds. -/
inductive Shape where
  | flag | text | texts
deriving DecidableEq, Repr

/-- The values of a shape. -/
def Shape.Value : Shape → Type
  | .flag => Bool
  | .text => String
  | .texts => List String

/-- The settings, all of which have defaults. -/
def fields : List (Field Shape.Value) :=
  [⟨"enabled", .flag, some true⟩,
    ⟨"on-system-methods", .texts, some Vocabulary.conditionalBlocks⟩,
    ⟨"livecheck", .text, some Vocabulary.livecheck⟩]

/-- The settings that the values of the fields make. -/
def build : Values Shape.Value fields → Settings
  | (enabled, conditional, livecheck, _) => ⟨enabled, conditional, livecheck⟩

/-- The value is not of the expected type. -/
def wrongType {α : Type} (v : Toml.Value) (expected : String) : Except Mismatch α :=
  .error (.wrongType v.found expected)

/-- Reads a text. -/
def readText : Toml.Value → Except Mismatch String
  | .text s => .ok s
  | v => wrongType v "a string"

/-- Reads a list of texts. -/
def readTexts : List Toml.Value → Except Mismatch (List String)
  | [] => .ok []
  | v :: vs => do
    let s ← readText v
    let ss ← readTexts vs
    return s :: ss

/-- Reads the value of a setting. -/
def readValue : (s : Shape) → Toml.Value → Except Mismatch s.Value
  | .flag, .flag b => .ok b
  | .flag, v => wrongType v "a boolean"
  | .text, v => readText v
  | .texts, .array vs => readTexts vs
  | .texts, v => wrongType v "a sequence"

/-- Reads more members of the table; one that is not known is an error. -/
def readSlots (slots : Slots Shape.Value fields) :
    List (String × Toml.Value) → Except Mismatch (Slots Shape.Value fields)
  | [] => .ok slots
  | (name, v) :: rest =>
    match Slots.assign? id name (readValue · v) fields slots with
    | none => .error (.unknownMember name (fields.map Field.name))
    | some slots => do readSlots (← slots) rest

/-- Reads the fields of the table in order from a list of values; more values do no harm. -/
def readItems (index : Nat) :
    (fs : List (Field Shape.Value)) → List Toml.Value → Except Mismatch (Values Shape.Value fs)
  | fs, [] => Values.standIns "struct NoOverridesConfig" index fs
  | [], _ :: _ => .ok ()
  | f :: fs, v :: vs => do
    let x ← readValue f.shape v
    let xs ← readItems (index + 1) fs vs
    return (x, xs)

/-- The members of a table that stands for a moment, which no other table may have. -/
def momentMember : String := "$__toml_private_datetime"

/-- Reads the table of the settings, which may also be given as an array. -/
def readTable : Toml.Value → Except Mismatch Settings
  | .table entries => do
    build <$> Slots.complete fields (← readSlots (Slots.empty fields) entries)
  | .moment _ => .error (.unknownMember momentMember (fields.map Field.name))
  | .array vs => build <$> readItems 0 fields vs
  | v => wrongType v "struct NoOverridesConfig"

/-- The name of the table of the settings. -/
def tableName : String := "no-overrides"

/-- Reads the settings of a document. -/
def readDocument (settings : Settings) : List (String × Toml.Value) → Except Mismatch Settings
  | [] => .ok settings
  | (name, v) :: rest => do
    if name = tableName then readDocument (← readTable v) rest
    else .error (.unknownMember name [tableName])

/-- Reads and validates the settings in a text. -/
def ofText (text : String) : Except SettingsError Settings := do
  let some entries := Toml.read text | .error .notToml
  let settings ← (readDocument {} entries).mapError .mismatch
  settings.validate.mapError .invalid
  return settings

/-! ## Writing -/

/-- The text of the settings. -/
def toText (s : Settings) : String :=
  "[no-overrides]\nenabled = " ++ (if s.enabled then "true" else "false") ++
  "\non-system-methods = " ++ String.ofList (Toml.writeTexts s.conditional) ++
  "\nlivecheck = " ++ String.ofList (Toml.writeText s.livecheck) ++ "\n"

end Settings

end CaskLint
