import CaskLint.Command.Run

/-!
# The program

  Looks up the paths that the arguments name, and leaves the rest to `Command.runArguments`.
-/

namespace CaskLint

/-- What an action gives, or why the system refuses it. -/
def attempt {α : Type} (act : IO α) : IO (Except IO.Error α) := do
  try
    return .ok (← act)
  catch e =>
    return .error e

/-- The wording of a fault and its number, which some calls give with its sign changed. -/
def worded (details : String) (code : UInt32) : String :=
  details.capitalize ++ " (os error " ++ toString (min code (0 - code)) ++ ")"

/-- The reason that the system gives for a fault. -/
def systemReason : IO.Error → String
  | .permissionDenied _ code details
  | .resourceBusy code details
  | .hardwareFault code details
  | .resourceExhausted _ code details
  | .inappropriateType _ code details
  | .invalidArgument _ code details
  | .otherError code details => worded details code
  | e => toString e

/-- What lies at a path. The kind of it is known as soon as one is let through to the directory;
    whether a file is read is known by reading it. -/
def lookUp (directory : String) (path : String) : IO Lookup := do
  let place := System.mkFilePath [directory] / path
  match ← attempt place.metadata with
  | .error (.noFileOrDirectory ..) => return .missing
  | .error e => return .special (.error (systemReason e))
  | .ok found =>
    match found.type, ← attempt (IO.FS.readBinFile place) with
    | .dir, _ => return .directory
    | .file, .ok content => return .file content
    | .file, .error e => return .unreadable (systemReason e)
    | _, content => return .special (content.mapError systemReason)

end CaskLint

open CaskLint in
/-- Runs the program in the current directory. -/
def main (arguments : List String) : IO UInt32 := do
  let directory := (← IO.currentDir).toString
  let arguments := arguments.map SystemString.text
  let found ← (Command.paths directory arguments).mapM fun path =>
    return (path, ← lookUp directory path.display)
  let files : Files := fun path => (found.lookup path).getD .missing
  match Command.runArguments files directory arguments with
  | .error stop => return stop.exitCode.toUInt32
  | .ok outcome =>
    IO.print outcome.output
    IO.eprint outcome.errors
    return outcome.exitCode.toUInt32
