import CodeIndex.Settings

/-!
# The command line

The arguments say which folder to index, where the settings are, and whether to go on after the
first run.
-/

namespace CodeIndex.CommandLine

/-- What a run is asked to do. -/
structure Options where
  /-- The folder to index. -/
  root : String := "."
  /-- The settings file, if not the usual one. -/
  config : Option String := none
  watch : Bool := false
  deriving DecidableEq, Inhabited, Repr

/-- What the program is asked to do. -/
inductive Command where
  | index (o : Options)
  | help
  | version
  deriving DecidableEq, Inhabited, Repr

/-- Why arguments make no command. -/
inductive UsageError where
  | unexpected (argument : String)
  | missingValue (argument : String)
  | unexpectedValue (value argument : String)
  | repeated (argument : String)
  deriving DecidableEq, Inhabited, Repr

/-- The wording of an error. -/
def UsageError.message : UsageError → String
  | unexpected argument => "error: unexpected argument '" ++ argument ++ "' found"
  | missingValue argument =>
    "error: a value is required for '" ++ argument ++ "' but none was supplied"
  | unexpectedValue value argument =>
    "error: unexpected value '" ++ value ++ "' for '" ++ argument ++
      "' found; no more were expected"
  | repeated argument => "error: the argument '" ++ argument ++ "' cannot be used multiple times"

/-- The arguments seen so far. -/
structure Seen where
  root : Option String := none
  config : Option String := none
  watch : Bool := false

namespace Seen

/-- The options that were seen, and the defaults of the others. -/
def options (s : Seen) : Options := ⟨s.root.getD ".", s.config, s.watch⟩

/-- Takes the folder to index. -/
def takeRoot (s : Seen) (root : String) : Except UsageError Seen :=
  if s.root.isSome then .error (.unexpected root)
  else if root.isEmpty then .error (.missingValue "[ROOT]")
  else .ok { s with root := some root }

/-- Takes the settings file. -/
def takeConfig (s : Seen) (path : String) : Except UsageError Seen :=
  if s.config.isSome then .error (.repeated "--config <CONFIG>")
  else if path.isEmpty then .error (.missingValue "--config <CONFIG>")
  else .ok { s with config := some path }

/-- Takes the wish to go on. -/
def takeWatch (s : Seen) : Except UsageError Seen :=
  if s.watch then .error (.repeated "--watch") else .ok { s with watch := true }

end Seen

/-- What stands behind `word` at the start of an argument. -/
def behind? (word argument : String) : Option String :=
  if word.toList.isPrefixOf argument.toList then
    some (String.ofList (argument.toList.drop word.length))
  else none

/-- Whether an argument looks like an option. -/
def isOption (argument : String) : Bool :=
  argument.toList.head? == some '-' && argument != "-"

/-- Reads arguments of which all remaining ones stand for themselves. -/
def readPlain (seen : Seen) : List String → Except UsageError Command
  | [] => .ok (.index seen.options)
  | argument :: rest =>
    match seen.takeRoot argument with
    | .ok seen => readPlain seen rest
    | .error e => .error e

/-- Reads arguments from left to right. -/
def read (seen : Seen) : List String → Except UsageError Command
  | [] => .ok (.index seen.options)
  | "--" :: rest => readPlain seen rest
  | "--help" :: _ => .ok .help
  | "-h" :: _ => .ok .help
  | "--version" :: _ => .ok .version
  | "-V" :: _ => .ok .version
  | "--watch" :: rest => seen.takeWatch.bind fun seen => read seen rest
  | "--config" :: path :: rest =>
    if isOption path then .error (.missingValue "--config <CONFIG>")
    else
      match seen.takeConfig path with
      | .ok seen => read seen rest
      | .error e => .error e
  | ["--config"] => .error (.missingValue "--config <CONFIG>")
  | argument :: rest =>
    match behind? "--config=" argument, behind? "--watch=" argument with
    | some path, _ =>
      match seen.takeConfig path with
      | .ok seen => read seen rest
      | .error e => .error e
    | none, some value => .error (.unexpectedValue value "--watch")
    | none, none =>
      if isOption argument then .error (.unexpected argument)
      else
        match seen.takeRoot argument with
        | .ok seen => read seen rest
        | .error e => .error e

/-- The command that arguments spell. -/
def parse (arguments : List String) : Except UsageError Command := read {} arguments

/-- The text of the version. -/
def versionText : String := "repodex 0.1.0"

/-- The text of the help. -/
def helpText : String :=
  "Keep a structural, embedded snapshot of a source tree up to date\n\n"
    ++ "Usage: repodex [OPTIONS] [ROOT]\n\n"
    ++ "Arguments:\n"
    ++ "  [ROOT]  Repository root to index [default: .]\n\n"
    ++ "Options:\n"
    ++ "      --config <CONFIG>  Config file (defaults to REPODEX_CONFIG or repodex.toml)\n"
    ++ "      --watch            Keep running and re-index when files change\n"
    ++ "  -h, --help             Print help\n"
    ++ "  -V, --version          Print version"

end CodeIndex.CommandLine
