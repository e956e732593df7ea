/-!
# The words of the cask language

  The stanza names that may stand at the top level of a cask, in their canonical order. Any
  name that begins with `on_` counts as a stanza too, so that a conditional block for a
  release newer than this list is still seen.
-/

namespace CaskLint.Vocabulary

/-- The version of this vocabulary and of the program. -/
def version : String := "0.3.0"

/-- The block that tells how new releases are found. -/
def livecheck : String := "livecheck"

/-- The blocks that apply on one processor, system or system release only. -/
def conditionalBlocks : List String :=
  [ "on_arm", "on_intel", "on_macos", "on_linux", "on_tahoe", "on_sequoia", "on_sonoma",
    "on_ventura", "on_monterey", "on_big_sur", "on_catalina", "on_mojave",
    "on_high_sierra", "on_sierra", "on_el_capitan" ]

/-- The stanza names in groups, in canonical order. -/
def stanzaGroups : List (List String) :=
  [ ["arch", "on_arch_conditional", "os"],
    ["version", "sha256"],
    conditionalBlocks,
    ["language"],
    ["url", "appcast", "name", "desc", "homepage"],
    [livecheck],
    ["deprecate!", "disable!"],
    ["auto_updates", "conflicts_with", "depends_on", "container"],
    [ "suite", "app", "pkg", "installer", "binary", "bash_completion", "fish_completion",
      "zsh_completion", "manpage", "colorpicker", "dictionary", "font", "input_method",
      "internet_plugin", "keyboard_layout", "prefpane", "qlplugin", "mdimporter",
      "screen_saver", "service", "audio_unit_plugin", "vst_plugin", "vst3_plugin",
      "artifact", "stage_only" ],
    ["preflight"],
    ["postflight"],
    ["uninstall_preflight"],
    ["uninstall_postflight"],
    ["uninstall"],
    ["zap"],
    ["caveats"] ]

/-- The stanza names in canonical order. -/
def stanzaOrder : List String := stanzaGroups.flatten

/-- Whether a name begins the way conditional blocks do. -/
def startsConditional (name : String) : Bool :=
  ['o', 'n', '_'].isPrefixOf name.toList

/-- Whether a name may stand at the top level of a cask. -/
def isStanzaName (name : String) : Bool :=
  startsConditional name || stanzaOrder.contains name

end CaskLint.Vocabulary
