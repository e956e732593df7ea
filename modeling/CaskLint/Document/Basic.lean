import CaskLint.Stanza.Manifest
import CaskLint.Source.Lines

/-!
# Cask documents

  A **`Document`** is one cask as it is handed over for checking: its token, the source text if
  it comes along, and the statements of its body, whose spans index into that source.
-/

namespace CaskLint

/-- A parsed cask. -/
structure Document where
  token : String
  source : Option String
  body : List Node
deriving BEq

namespace Document

/-- The stanzas of the body. -/
def manifest (d : Document) : Manifest := .ofBody d.token d.body

/-- The lines of the source, if the document carries it. -/
def lineIndex? (d : Document) : Option LineIndex := d.source.map .ofSource

end Document

end CaskLint
