import CaskLint.Check.Run
import CaskLint.Command.Arguments

/-!
# Running the program

  A command ends with an **`Outcome`**: an exit code and what is written to the two output
  streams. The exit code is 0 when nothing was found, 1 when there are offenses, and 2 when the
  run fails; a run that fails writes no report.
-/

namespace CaskLint

/-- How a command ends. -/
structure Outcome where
  exitCode : Nat
  output : String
  errors : String
deriving DecidableEq, Repr

namespace Outcome

/-- A run that fails. -/
def failed (reason : String) : Outcome := ⟨2, "", "error: " ++ reason ++ "\n"⟩

/-- A run that fails for these causes, the outermost first. -/
def ofFailure (f : Failure) : Outcome := failed (": ".intercalate f.causes)

/-- A run that only prints. -/
def printed (text : String) : Outcome := ⟨0, text, ""⟩

end Outcome

/-- The line that sums up a report. -/
def CheckReport.summary (r : CheckReport) : String :=
  toString r.files ++ " file(s) checked, " ++ toString r.offenses.length ++
    " offense(s) detected\n"

/-- The end of a run that found something to report on. -/
def CheckReport.outcome (format : ReportFormat) (r : CheckReport) : Outcome :=
  match format.render r.offenses with
  | .error f => .failed f.message
  | .ok text =>
    { exitCode := if r.offenses.isEmpty then 0 else 1
      output := text
      errors := match format with
        | .text => r.summary
        | .json => "" }

/-- The end of a check. -/
def Outcome.ofCheck (format : ReportFormat) : Except Failure CheckReport → Outcome
  | .ok report => report.outcome format
  | .error f => .ofFailure f

namespace Command

/-- Runs a command in a directory. -/
def run (files : Files) (directory : SystemString) : Command → Outcome
  | .version => .printed ("caskcheck " ++ Vocabulary.version ++ "\n")
  | .printConfig config =>
    match Check.settings files config directory with
    | .ok settings => .printed settings.toText
    | .error f => .ofFailure f
  | .check paths config format =>
    match Check.settings files config directory with
    | .error f => .ofFailure f
    | .ok settings => .ofCheck format (Check.run files settings paths)

/-- Runs the command that the arguments ask for in a directory. -/
def runArguments (files : Files) (directory : SystemString) (arguments : List SystemString) :
    Except Stop Outcome :=
  (ofArguments arguments).map (·.run files directory)

/-- The paths that a run of the program may look at. -/
def paths (directory : SystemString) (arguments : List SystemString) : List SystemString :=
  let settings (config : Option SystemString) : SystemString :=
    config.getD (joinPath directory Check.settingsFile)
  match ofArguments arguments with
  | .ok (.check files config _) => settings config :: files
  | .ok (.printConfig config) => [settings config]
  | _ => []

end Command

end CaskLint
