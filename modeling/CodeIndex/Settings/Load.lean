import CodeIndex.FileTree
import CodeIndex.Settings.Decode
import CodeIndex.Settings.Environment
import CodeIndex.Text.Basic

/-!
# Loading and judging settings

Settings come from a file, which may be missing, and from the environment.  `Settings.fault?` names
the first setting with which a run would stall or break.
-/

namespace CodeIndex

namespace Settings

/-- The settings of what lies at the path of the settings file. -/
def ofFile : FileTree.Occupant → Except SettingsError Settings
  | .nothing => .ok {}
  | .blocked _ => .ok {}
  | .folder => .error .unreadable
  | .file content =>
    match content.text with
    | .error _ => .error .unreadable
    | .ok text =>
      match ofText? text with
      | some s => .ok s
      | none => .error .malformed

/-- The settings of a file and an environment. -/
def load (file : FileTree.Occupant) (env : Environment) : Except SettingsError Settings :=
  (ofFile file).map env.override

/-- The first setting that cannot be used. -/
def fault? (s : Settings) : Option SettingsError :=
  let e := s.embedding
  if e.maxTokens = 0 then some (.zero "embedding.max_tokens")
  else if e.maxConcurrentRequests = 0 then some (.zero "embedding.max_concurrent_requests")
  else if e.maxAttempts = 0 then some (.zero "embedding.max_attempts")
  else if e.requestTimeoutSeconds = 0 then some (.zero "embedding.request_timeout_secs")
  else if Text.allBlank e.baseUrl then some (.blank "embedding.base_url")
  else if s.index.decomposeWorkers = some 0 then some (.zero "index.decompose_workers")
  else if Text.allBlank s.index.snapshotPath then some (.blank "index.snapshot_path")
  else none

/-- Refuses settings that cannot be used. -/
def validate (s : Settings) : Except SettingsError Unit :=
  match s.fault? with
  | some e => .error e
  | none => .ok ()

/-- Where the snapshot of the folder at `root` lies. -/
def snapshotPath (s : Settings) (root : RawPath) : RawPath :=
  FilePath.join root (Text.octets s.index.snapshotPath)

end Settings

end CodeIndex
