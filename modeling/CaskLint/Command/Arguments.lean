import CaskLint.Check.Report

/-!
# The command line

  The program has two commands: `check`, which takes files, and `print-config`. Both take the
  option `--config`, and `check` also takes `--format`. The value of an option is the next
  argument or stands after an equals sign. Every option may be given once. Options and files
  may be mixed; after `--` every argument is a file.

  Arguments that are no texts are fit for paths and for nothing else. Where the arguments ask for
  help or are at fault no command is run (**`Stop`**).
-/

namespace CaskLint

/-- What the program is asked to do. -/
inductive Command where
  | check (files : List SystemString) (config : Option SystemString) (format : ReportFormat)
  | printConfig (config : Option SystemString)
  | version
deriving DecidableEq

/-- What is wrong with a command line. -/
inductive UsageFault where
  | noCommand
  | unknownCommand (name : SystemString)
  | unexpectedArgument (argument : SystemString)
  | missingValue (option : String)
  | repeatedOption (option : String)
  | invalidFormat (value : SystemString)
  | emptyPath
  | noFiles
deriving DecidableEq

/-- Why no command is run. -/
inductive Stop where
  | help
  | usage (f : UsageFault)
deriving DecidableEq

/-- The exit code of a program that runs no command. -/
def Stop.exitCode : Stop → Nat
  | .help => 0
  | .usage _ => 2

namespace Command

/-! ## Options -/

/-- The options of the two commands. -/
inductive Opt where
  | config | format
deriving DecidableEq, Repr

/-- How an option is spelled. -/
def Opt.spelling : Opt → String
  | .config => "--config"
  | .format => "--format"

/-- What has been read of a command. -/
structure Partial where
  files : List SystemString := []
  config : Option SystemString := none
  format : Option ReportFormat := none

/-- An argument is a file. -/
def addFile (takesFiles : Bool) (argument : SystemString) (p : Partial) : Except Stop Partial :=
  if !takesFiles then .error (.usage (.unexpectedArgument argument))
  else if argument.isEmpty then .error (.usage .emptyPath)
  else .ok { p with files := p.files ++ [argument] }

/-- An option gets its value. -/
def setOption (o : Opt) (value : SystemString) (p : Partial) : Except Stop Partial :=
  match o with
  | .config =>
    if p.config.isSome then .error (.usage (.repeatedOption o.spelling))
    else if value.isEmpty then .error (.usage .emptyPath)
    else .ok { p with config := some value }
  | .format =>
    if p.format.isSome then .error (.usage (.repeatedOption o.spelling))
    else if value = .text "text" then .ok { p with format := some .text }
    else if value = .text "json" then .ok { p with format := some .json }
    else .error (.usage (.invalidFormat value))

/-- Whether an argument begins with a text. -/
def startsWith (start : String) (argument : SystemString) : Bool :=
  (argument.dropPrefix? start).isSome

/-- Whether an argument looks like an option; a single hyphen does not. -/
def looksLikeOption (argument : SystemString) : Bool :=
  (argument.dropPrefix? "-").any fun rest => !rest.isEmpty

/-- The option that an argument is, with the value after its equals sign, if it has one. -/
def option? (options : List Opt) (argument : SystemString) :
    Option (Opt × Option SystemString) :=
  options.findSome? fun o =>
    if argument = .text o.spelling then some (o, none)
    else (argument.dropPrefix? (o.spelling ++ "=")).map fun value => (o, some value)

/-- What the arguments of a command mean. -/
def arguments (takesFiles : Bool) (options : List Opt) :
    Partial → List SystemString → Except Stop Partial
  | p, [] => .ok p
  | p, argument :: rest =>
    if argument = .text "--" then rest.foldlM (fun p file => addFile takesFiles file p) p
    else if argument = .text "--help" ∨ startsWith "-h" argument then .error .help
    else match option? options argument with
      | some (o, some value) => do
        arguments takesFiles options (← setOption o value p) rest
      | some (o, none) =>
        match rest with
        | [] => .error (.usage (.missingValue o.spelling))
        | value :: rest =>
          if looksLikeOption value then .error (.usage (.missingValue o.spelling))
          else do arguments takesFiles options (← setOption o value p) rest
      | none =>
        if looksLikeOption argument then .error (.usage (.unexpectedArgument argument))
        else do arguments takesFiles options (← addFile takesFiles argument p) rest

/-- What the program is asked to do by its arguments. -/
def ofArguments : List SystemString → Except Stop Command
  | [] => .error (.usage .noCommand)
  | name :: rest =>
    if name = .text "check" then do
      let p ← arguments true [.config, .format] {} rest
      if p.files.isEmpty then .error (.usage .noFiles)
      else return .check p.files p.config (p.format.getD .text)
    else if name = .text "print-config" then do
      let p ← arguments false [.config] {} rest
      return .printConfig p.config
    else if name = .text "--version" ∨ startsWith "-V" name then .ok .version
    else if name = .text "--help" ∨ startsWith "-h" name then .error .help
    else if name = .text "help" ∧
        rest ∈ [[], [.text "check"], [.text "print-config"], [.text "help"]] then .error .help
    else .error (.usage (.unknownCommand name))

end Command

end CaskLint
