import CodeIndex.CommandLine
import CodeIndex.Index.Run
import CodeIndex.Inventory
import CodeIndex.Settings.Load
import CodeIndex.Settings.Start

/-!
# The program

Indexes a folder once, or whenever a second has passed.  The inventory of the run comes in on
standard input; the files that it lists, the ignore files, the settings and the snapshot are read
from where they lie.
-/

namespace CodeIndex.Program

/-- All lines of standard input. -/
partial def inputLines (input : IO.FS.Stream) (lines : List String) : IO (List String) := do
  let line ← input.getLine
  if line.isEmpty then return lines.reverse
  else inputLines input (line :: lines)

/-- What lies at a path. -/
def look (path : String) : IO FileTree.Occupant := do
  try
    return .file (.ofOctets (← IO.FS.readBinFile path))
  catch
    | .noFileOrDirectory _ _ _ => return .nothing
    | _ => return .folder

/-- The path of a file below a folder. -/
def below (root path : String) : String :=
  Text.decodeLossy (FilePath.join (Text.octets root) (Text.octets path))

/-- The tree with the file at a path below `root` put in, if there is one. -/
def addFile (root : String) (top : FileTree) (path : String) : IO FileTree := do
  match ← look (below root path) with
  | .file content => return top.create (Text.octets path) (.file content)
  | _ => return top

/-- The listed files and the ignore files below a folder. -/
def loadTree (root : String) (known : Inventory) : IO FileTree :=
  (IgnoreRules.fileNames ++ known.files.map ListedFile.path).foldlM (addFile root) .emptyFolder

/-- Puts a snapshot file in place: writes a file beside it, and renames that. -/
def store (path : String) (o : FileTree.Occupant) : IO Unit := do
  match o with
  | .file content =>
    let parent := Text.decodeLossy (FilePath.parent (Text.octets path))
    if !parent.isEmpty then IO.FS.createDirAll parent
    let beside := path ++ ".tmp"
    IO.FS.writeBinFile beside content.bytes
    IO.FS.rename beside path
  | _ => return ()

/-- The text of a file of the tree. -/
def textOf (top : FileTree) (path : String) : Option String :=
  (top.readText (Text.octets path)).toOption

/-- One run over the folder at `root`. -/
def runOnce (start : Startup) (known : Inventory) (root path : String) :
    IO (Except IndexError RunReport) := do
  let top ← loadTree root known
  let found ← look path
  let (connected, opened) := StoreSession.open ⟨found, none⟩
  if found.isWriteAhead then store path connected.target
  match opened with
  | .error e => return .error e
  | .ok session =>
    let ix : Indexer Unit := {
      embedder := .ofProvider (known.provider start.endpoint.name start.endpoint.model)
        known.tokenize start.embedder
      grammar := known.grammar (textOf top)
      extraIgnore := start.extraIgnore
      snapshotPath := path }
    let out := ix.run .calm top [] session ()
    if out.written then
      try
        store path out.session.disk.target
        return out.result
      catch e => return .error (.storageWrite (.failed path (toString e)))
    else return out.result

/-- Runs again and again. -/
partial def watch (start : Startup) (known : Inventory) (root path : String) : IO Unit := do
  IO.sleep 1000
  let _ ← runOnce start known root path
  watch start known root path

/-- Ends the program with a message about what went wrong. -/
def fail (message : String) (status : UInt32) : IO UInt32 := do
  IO.eprintln message
  return status

/-- The settings of a run and where they come from. -/
def loadSettings (o : CommandLine.Options) : IO (String × Except SettingsError Settings) := do
  let names := ["REPODEX_CONFIG", "REPODEX_EMBEDDING_PROVIDER", "REPODEX_EMBEDDING_BASE_URL",
    "REPODEX_EMBEDDING_MODEL", "REPODEX_OPENAI_API_KEY", "REPODEX_MAX_TOKENS",
    "REPODEX_MAX_CONCURRENT_REQUESTS", "REPODEX_MAX_ATTEMPTS", "REPODEX_REQUEST_TIMEOUT",
    "REPODEX_SNAPSHOT_PATH", "REPODEX_DECOMPOSE_WORKERS", "REPODEX_INDEX_WATCH"]
  let values ← names.mapM fun name => return (name, ← IO.getEnv name)
  let env : Environment := fun name => (values.lookup name).join
  let path := env.settingsPath o.config
  return (path, Settings.load (← look path) env)

/-- Indexes the folder at `root` with these settings. -/
def index (o : CommandLine.Options) (settings : Settings) (root : String) : IO UInt32 := do
  match settings.start with
  | .error (.refused e) => fail ("Error: " ++ e.message) 1
  | .error .unusableUrl => fail "unusable base URL" 101
  | .error .tooManyPermits => fail "too many permits" 101
  | .ok start =>
    let known := Inventory.ofLines (← inputLines (← IO.getStdin) [])
    let path := Text.decodeLossy (settings.snapshotPath (Text.octets root))
    let began ← IO.monoMsNow
    match ← runOnce start known root path with
    | .error e => fail ("Error: " ++ e.message) 1
    | .ok report =>
      for line in report.lines ((← IO.monoMsNow) - began) do
        IO.println line
      if o.watch || settings.index.watch then watch start known root path
      return 0

/-- Carries out what the command line asks for. -/
def execute (o : CommandLine.Options) : IO UInt32 := do
  match ← loadSettings o with
  | (path, .error e) =>
    fail ("Error: failed to load config " ++ path ++ "\n\nCaused by:\n    " ++ e.message) 1
  | (_, .ok settings) =>
    match settings.validate with
    | .error e => fail ("Error: " ++ e.message) 1
    | .ok () =>
      match ← (IO.FS.realPath o.root).toBaseIO with
      | .error _ => fail ("Error: repository root " ++ o.root ++ " not found") 1
      | .ok root => index o settings (toString root)

end CodeIndex.Program

/-- Indexes a folder. -/
def main (arguments : List String) : IO UInt32 := do
  match CodeIndex.CommandLine.parse arguments with
  | .error e => CodeIndex.Program.fail e.message 2
  | .ok .help => do
    IO.println CodeIndex.CommandLine.helpText
    return 0
  | .ok .version => do
    IO.println CodeIndex.CommandLine.versionText
    return 0
  | .ok (.index o) => CodeIndex.Program.execute o
