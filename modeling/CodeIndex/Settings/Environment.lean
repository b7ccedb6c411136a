import CodeIndex.Settings
import CodeIndex.Text.Basic

/-!
# Settings from the environment

Environment variables go before the settings of the file.  A variable whose value cannot be read as
what the setting needs is passed over.
-/

namespace CodeIndex

/-- The value of each environment variable that is set. -/
abbrev Environment := String → Option String

namespace Environment

/-- The value of a variable, if it can be read. -/
def read (env : Environment) {α : Type} (name : String) (value? : String → Option α) : Option α :=
  (env name).bind value?

/-- A natural number of so many bits. -/
def nat (env : Environment) (bits : Nat) (name : String) : Option Nat :=
  env.read name fun s => Text.natOfBits? bits s.toList

/-- A truth value. -/
def truth (env : Environment) (name : String) : Option Bool :=
  env.read name fun
    | "true" => some true
    | "false" => some false
    | _ => none

/-- The settings of the provider with what the environment says instead. -/
def overrideProvider (env : Environment) (s : ProviderSettings) : ProviderSettings :=
  { s with
    kind := (env.read "REPODEX_EMBEDDING_PROVIDER" ProviderKind.ofName?).getD s.kind
    baseUrl := (env "REPODEX_EMBEDDING_BASE_URL").getD s.baseUrl
    model := (env "REPODEX_EMBEDDING_MODEL").getD s.model
    apiKey := (env "REPODEX_OPENAI_API_KEY").or s.apiKey
    maxTokens := (env.nat 64 "REPODEX_MAX_TOKENS").getD s.maxTokens
    maxConcurrentRequests :=
      (env.nat 64 "REPODEX_MAX_CONCURRENT_REQUESTS").getD s.maxConcurrentRequests
    maxAttempts := (env.nat 32 "REPODEX_MAX_ATTEMPTS").getD s.maxAttempts
    requestTimeoutSeconds :=
      (env.nat 64 "REPODEX_REQUEST_TIMEOUT").getD s.requestTimeoutSeconds }

/-- The settings of the index with what the environment says instead. -/
def overrideIndex (env : Environment) (s : IndexSettings) : IndexSettings :=
  { s with
    snapshotPath := (env "REPODEX_SNAPSHOT_PATH").getD s.snapshotPath
    decomposeWorkers := (env.nat 64 "REPODEX_DECOMPOSE_WORKERS").or s.decomposeWorkers
    watch := (env.truth "REPODEX_INDEX_WATCH").getD s.watch }

/-- Settings with what the environment says instead. -/
def override (env : Environment) (s : Settings) : Settings :=
  ⟨env.overrideProvider s.embedding, env.overrideIndex s.index⟩

/-- The path of the settings file: the one asked for, or else that of the environment, or else the
usual one. -/
def settingsPath (env : Environment) (explicit : Option String) : String :=
  (explicit.or (env "REPODEX_CONFIG")).getD "repodex.toml"

end Environment

end CodeIndex
