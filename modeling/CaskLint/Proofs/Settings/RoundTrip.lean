import CaskLint.Proofs.Fallible
import CaskLint.Proofs.Toml.Lines
import CaskLint.Settings.Text

/-!
# Settings, written and read back

  Settings are written as one table of three keys. Reading takes the lines apart, the last one
  first (`statements_livecheckLines` to `statements_enabledLines`), makes the table of them
  (`read_toText`) and the settings of the table (`readTable_writtenTable`). None of these steps
  can fail on written settings, so all that reading adds is the validation: **`ofText_toText`**
  holds of all settings, valid or not, whatever characters the names are made of.
-/

namespace CaskLint.Settings

open Record

/-! ## Lines -/

/-- The last line of written settings. -/
def livecheckLines (s : Settings) : List Char :=
  "livecheck".toList ++ ' ' :: '=' :: ' ' :: (Toml.writeText s.livecheck ++ ['\n'])

/-- The last two keys of written settings; the list of the first one may take several lines. -/
def conditionalLines (s : Settings) : List Char :=
  "on-system-methods".toList ++ ' ' :: '=' :: ' ' ::
    (Toml.writeTexts s.conditional ++ '\n' :: s.livecheckLines)

/-- The three keys of written settings. -/
def enabledLines (s : Settings) : List Char :=
  "enabled".toList ++ ' ' :: '=' :: ' ' ::
    ((if s.enabled then "true" else "false").toList ++ '\n' :: s.conditionalLines)

/-- Written settings are the header of the table and its three keys. -/
theorem toList_toText (s : Settings) :
    s.toText.toList = '[' :: ("no-overrides".toList ++ ']' :: '\n' :: s.enabledLines) := by
  have hheader : "[no-overrides]\nenabled = ".toList =
      '[' :: ("no-overrides".toList ++ ']' :: '\n' :: ("enabled".toList ++ [' ', '=', ' '])) := by
    decide
  have hconditional : "\non-system-methods = ".toList =
      '\n' :: ("on-system-methods".toList ++ [' ', '=', ' ']) := by decide
  have hlivecheck : "\nlivecheck = ".toList =
      '\n' :: ("livecheck".toList ++ [' ', '=', ' ']) := by decide
  have hend : "\n".toList = ['\n'] := by decide
  unfold toText enabledLines conditionalLines livecheckLines
  simp only [String.toList_append, String.toList_ofList, hheader, hconditional, hlivecheck, hend,
    List.append_assoc, List.cons_append, List.nil_append]

/-! ## Statements -/

/-- A truth value before the end of its line. -/
theorem value?_flag (b : Bool) (rest : List Char) :
    Toml.value? Toml.maxLevels ((if b then "true" else "false").toList ++ '\n' :: rest) =
      some (.flag b, '\n' :: rest) := by
  cases b <;> rfl

/-- A truth value does not begin with a blank. -/
theorem skipBlanks_flag (b : Bool) (rest : List Char) :
    Toml.skipBlanks ((if b then "true" else "false").toList ++ rest) =
      (if b then "true" else "false").toList ++ rest := by
  cases b <;> rfl

theorem statements_livecheckLines (s : Settings) (bound : Nat) :
    Toml.statements (bound + 2) s.livecheckLines =
      some [.define [] "livecheck" (.text s.livecheck)] := by
  have hbare : Toml.IsBare "livecheck" := by decide
  have hvalue : Toml.value? Toml.maxLevels (Toml.writeText s.livecheck ++ ['\n']) =
      some (.text s.livecheck, ['\n']) :=
    Toml.value?_writeText _ _ (.of_head (by decide) (by decide) [])
  have hend : Toml.statements (bound + 1) [] = some [] := rfl
  unfold livecheckLines
  rw [Toml.statements_define hbare (Toml.skipBlanks_writeText _ _) hvalue, hend]
  rfl

theorem statements_conditionalLines (s : Settings) (bound : Nat) :
    Toml.statements (bound + 3) s.conditionalLines =
      some [.define [] "on-system-methods" (.array (s.conditional.map .text)),
        .define [] "livecheck" (.text s.livecheck)] := by
  have hbare : Toml.IsBare "on-system-methods" := by decide
  have hvalue := Toml.value?_writeTexts 78 s.conditional ('\n' :: s.livecheckLines)
  unfold conditionalLines
  rw [Toml.statements_define hbare (Toml.skipBlanks_writeTexts _ _) hvalue,
    statements_livecheckLines]
  rfl

theorem statements_enabledLines (s : Settings) (bound : Nat) :
    Toml.statements (bound + 4) s.enabledLines =
      some [.define [] "enabled" (.flag s.enabled),
        .define [] "on-system-methods" (.array (s.conditional.map .text)),
        .define [] "livecheck" (.text s.livecheck)] := by
  have hbare : Toml.IsBare "enabled" := by decide
  unfold enabledLines
  rw [Toml.statements_define hbare (skipBlanks_flag _ _) (value?_flag s.enabled _),
    statements_conditionalLines]
  rfl

/-! ## The table -/

/-- The table that settings are written as. -/
def writtenTable (s : Settings) : Toml.Value :=
  .table [("enabled", .flag s.enabled),
    ("on-system-methods", .array (s.conditional.map .text)), ("livecheck", .text s.livecheck)]

/-- The table under construction when a list of its keys has been read. -/
theorem document_writtenLines (enabled conditional livecheck : Toml.Value) :
    Toml.document [.table [] "no-overrides", .define [] "enabled" enabled,
      .define [] "on-system-methods" conditional, .define [] "livecheck" livecheck] =
      some [("no-overrides", .table [("enabled", enabled), ("on-system-methods", conditional),
        ("livecheck", livecheck)])] := by
  rfl

/-- Written settings are TOML. -/
theorem read_toText (s : Settings) :
    Toml.read s.toText = some [(tableName, s.writtenTable)] := by
  have hbare : Toml.IsBare "no-overrides" := by decide
  have hlines : Toml.statements (s.toText.toList.length + 1) s.toText.toList =
      some [.table [] "no-overrides", .define [] "enabled" (.flag s.enabled),
        .define [] "on-system-methods" (.array (s.conditional.map .text)),
        .define [] "livecheck" (.text s.livecheck)] := by
    -- there is a line for each bracket and each newline at least
    obtain ⟨bound, hbound⟩ : ∃ bound, s.toText.toList.length = bound + 4 := by
      refine Nat.exists_eq_add_of_le' ?_
      rw [toList_toText]
      have hlength : "no-overrides".toList.length = 12 := by decide
      simp only [List.length_cons, List.length_append, hlength]
      omega
    rw [hbound, toList_toText, Toml.statements_header hbare, statements_enabledLines]
    rfl
  have hmark : Toml.dropByteOrderMark s.toText.toList = s.toText.toList := by
    rw [toList_toText]
    rfl
  rw [Toml.read, hmark, hlines]
  exact document_writtenLines ..

theorem readTexts_map_text (texts : List String) : readTexts (texts.map .text) = .ok texts := by
  induction texts with
  | nil => rfl
  | cons s texts ih =>
      rw [List.map_cons, readTexts, ih]
      rfl

theorem readSlots_cons {slots slots' : Slots Shape.Value fields} {name : String} {v : Toml.Value}
    (h : Slots.assign? id name (readValue · v) fields slots = some (.ok slots'))
    (rest : List (String × Toml.Value)) :
    readSlots slots ((name, v) :: rest) = readSlots slots' rest := by
  rw [readSlots, h]
  rfl

/-- Each key of the table takes its own slot, and none is left for a default. -/
theorem readTable_writtenTable (s : Settings) : readTable s.writtenTable = .ok s := by
  have htexts := readTexts_map_text s.conditional
  have hslots : readSlots (Slots.empty fields) [("enabled", .flag s.enabled),
      ("on-system-methods", .array (s.conditional.map .text)),
      ("livecheck", .text s.livecheck)] =
        .ok (some s.enabled, some s.conditional, some s.livecheck, ()) := by
    have hconditional : Slots.assign? id "on-system-methods"
        (readValue · (.array (s.conditional.map .text))) fields (some s.enabled, none, none, ()) =
          some (.ok (some s.enabled, some s.conditional, none, ())) := by
      show some (Except.map _ (Except.map _ (readTexts _))) = _
      rw [htexts]
      rfl
    have henabled : Slots.assign? id "enabled" (readValue · (.flag s.enabled)) fields
        (Slots.empty fields) = some (.ok (some s.enabled, none, none, ())) := rfl
    have hlivecheck : Slots.assign? id "livecheck" (readValue · (.text s.livecheck)) fields
        (some s.enabled, some s.conditional, none, ()) =
          some (.ok (some s.enabled, some s.conditional, some s.livecheck, ())) := rfl
    rw [readSlots_cons henabled, readSlots_cons hconditional, readSlots_cons hlivecheck]
    rfl
  rw [writtenTable, readTable, hslots]
  rfl

/-- All that is left of reading written settings is their validation. -/
theorem ofText_toText_eq_validate (s : Settings) :
    ofText s.toText = (do s.validate.mapError SettingsError.invalid; return s) := by
  have hdocument : readDocument {} [(tableName, s.writtenTable)] = .ok s := by
    rw [readDocument, if_pos rfl, readTable_writtenTable]
    rfl
  rw [ofText, read_toText]
  dsimp only
  rw [hdocument]
  rfl

theorem ofText_toText_of_valid {s : Settings} (h : s.validate = .ok ()) :
    ofText s.toText = .ok s := by
  rw [ofText_toText_eq_validate, h]
  rfl

/-- **Settings round trip.** Written settings are read back as they are if they are valid, and
    otherwise refused for the rule that they break. -/
theorem ofText_toText (s : Settings) :
    ofText s.toText = match s.validate with
      | .ok () => .ok s
      | .error f => .error (.invalid f) := by
  rw [ofText_toText_eq_validate]
  cases s.validate <;> rfl

end CaskLint.Settings
