import CaskLint.Detector
import CaskLint.Json.Writer
import CaskLint.Source.Lines
import CaskLint.Text.System

/-!
# Reports

  An **`Offense`** is a finding on its own: the file it was found in, the name of the
  stanza, where it is as far as that is known, and the explanation. A list of offenses is
  reported in one of two formats.

* As text, each offense is a line that begins with its position; further lines of the
  explanation are indented under it.
* As JSON, each offense is an object. What is not known about its place is left out. A file
  whose path is no text cannot be named in JSON, and then there is no report
  (**`RenderFault`**).
-/

namespace CaskLint

/-- A finding, detached from the document it was found in. -/
structure Offense where
  file : SystemString
  stanza : String
  span : Option Span
  location : Option Location
  message : String
deriving DecidableEq

/-- The formats of a report. -/
inductive ReportFormat where
  | text | json
deriving DecidableEq, Repr

/-- Why offenses cannot be reported. -/
inductive RenderFault where
  | pathNotText
deriving DecidableEq, Repr

/-- The wording of the fault. -/
def RenderFault.message : RenderFault → String
  | .pathNotText => "path contains invalid UTF-8 characters"

namespace Offense

/-- A finding in a file; a dummy span is no place, and without an index there is no location. -/
def ofFinding (file : SystemString) (index : Option LineIndex) (f : Finding) : Offense where
  file := file
  stanza := f.name
  span := if f.span.isDummy then none else some f.span
  location := index.bind (·.spanStart? f.span)
  message := f.message

/-- The file, with the best position that is known. -/
def position (o : Offense) : String :=
  match o.location, o.span with
  | some location, _ => o.file.display ++ ":" ++ location.display
  | none, some span => o.file.display ++ ":" ++ span.display
  | none, none => o.file.display

/-- A text whose lines after the first are indented by four blanks. -/
def indentLines (s : String) : String :=
  String.ofList (s.toList.flatMap fun c => if c = '\n' then ['\n', ' ', ' ', ' ', ' '] else [c])

/-- The offense as lines of text. -/
def line (o : Offense) : String :=
  o.position ++ ": C: " ++ checkName ++ ": " ++ indentLines o.message ++ "\n"

/-- The members of the object that the offense is, with this name for its file. -/
def members (o : Offense) (file : String) : List (String × Json) :=
  let span : List (String × Json) := match o.span with
    | some s => [("start", .integer s.start.toNat), ("end", .integer s.stop.toNat)]
    | none => []
  let location : List (String × Json) := match o.location with
    | some l => [("line", .integer l.line.toNat), ("column", .integer l.column.toNat)]
    | none => []
  [("file", .text file), ("cop", .text checkName), ("stanza", .text o.stanza)] ++
    span ++ location ++ [("message", .text o.message)]

/-- The offense as an object. -/
def toJson (o : Offense) : Except RenderFault Json :=
  match o.file with
  | .text file => .ok (.object (o.members file))
  | .bytes .. => .error .pathNotText

end Offense

/-- The report of a list of offenses. -/
def ReportFormat.render (offenses : List Offense) : ReportFormat → Except RenderFault String
  | .text => .ok (String.join (offenses.map Offense.line))
  | .json => do
    let objects ← offenses.mapM Offense.toJson
    return (Json.array objects).pretty

end CaskLint
