import CaskLint.Detector

/-!
# Settings of the check

  The **`Settings`** say whether the check runs, which blocks are conditional, and what the
  livecheck block is called. Settings are valid when there is a conditional block, every
  conditional block has a name that begins with `on_` and goes on after it, and the
  livecheck block is not conditional itself. **`Settings.validate`** reports the first of
  these rules that is broken.
-/

namespace CaskLint

/-- What can be set about the check. -/
structure Settings where
  enabled : Bool := true
  conditional : List String := Vocabulary.conditionalBlocks
  livecheck : String := Vocabulary.livecheck
deriving DecidableEq, Repr

/-- Which rule about settings is broken. -/
inductive SettingsFault where
  | noConditionalBlocks
  | invalidConditionalBlock (name : String)
  | livecheckIsConditional (name : String)
deriving DecidableEq, Repr

/-- The wording of a broken rule. -/
def SettingsFault.message : SettingsFault → String
  | .noConditionalBlocks => "on-system-methods must not be empty"
  | .invalidConditionalBlock name =>
    "invalid conditional block name '" ++ name ++ "': must start with `on_`"
  | .livecheckIsConditional name =>
    "livecheck name '" ++ name ++ "' is also listed as a conditional block"

namespace Settings

/-- Whether a conditional block may have this name. -/
def isConditionalName (name : String) : Bool :=
  Vocabulary.startsConditional name && name.toList.length != 3

/-- The first rule that the settings break, if any. -/
def validate (s : Settings) : Except SettingsFault Unit :=
  if s.conditional.isEmpty then .error .noConditionalBlocks
  else match s.conditional.find? (!isConditionalName ·) with
    | some name => .error (.invalidConditionalBlock name)
    | none =>
      if s.conditional.contains s.livecheck then .error (.livecheckIsConditional s.livecheck)
      else .ok ()

/-- The detector that the settings describe. -/
def detector (s : Settings) : Detector := ⟨s.conditional, s.livecheck⟩

end Settings

end CaskLint
