/-!
# Settings

What a user can configure: whom to ask for embeddings and how, and where the snapshot lies.  Every
setting has a default.
-/

namespace CodeIndex

/-- Who can be asked for embeddings. -/
inductive ProviderKind where
  | ollama
  | openAi
  deriving DecidableEq, Inhabited, Repr

namespace ProviderKind

/-- The name of a provider in settings. -/
def name : ProviderKind → String
  | ollama => "ollama"
  | openAi => "openai"

/-- The provider of a name. -/
def ofName? : String → Option ProviderKind
  | "ollama" => some ollama
  | "openai" => some openAi
  | _ => none

/-- A kind of provider is found by its name. -/
@[simp] theorem ofName?_name (k : ProviderKind) : ofName? k.name = some k := by
  cases k <;> rfl

end ProviderKind

/-- Settings of the provider and of the requests to it. -/
structure ProviderSettings where
  kind : ProviderKind := .openAi
  baseUrl : String := "https://api.openai.com/v1"
  model : String := "text-embedding-ada-002"
  /-- Never written out. -/
  apiKey : Option String := none
  maxTokens : Nat := 8191
  maxConcurrentRequests : Nat := 100
  maxAttempts : Nat := 3
  baseBackoffMillis : Nat := 500
  requestTimeoutSeconds : Nat := 30
  deriving DecidableEq, Inhabited, Repr

/-- Settings of the index. -/
structure IndexSettings where
  /-- Where the snapshot lies, as seen from the indexed folder. -/
  snapshotPath : String := ".repodex/index.db"
  /-- Patterns of files to ignore, besides those of ignore files. -/
  extraIgnore : List String := []
  /-- How many files are decomposed at once; one per processor if unset. -/
  decomposeWorkers : Option Nat := none
  /-- Whether to go on after the first run, whenever files change. -/
  watch : Bool := false
  deriving DecidableEq, Inhabited, Repr

/-- All settings. -/
structure Settings where
  embedding : ProviderSettings := {}
  index : IndexSettings := {}
  deriving DecidableEq, Inhabited, Repr

/-- Why settings are of no use. -/
inductive SettingsError where
  /-- The file cannot be read as a text. -/
  | unreadable
  /-- The file holds no settings. -/
  | malformed
  /-- A number that has to be positive is zero. -/
  | zero (setting : String)
  /-- A text that has to say something is blank. -/
  | blank (setting : String)
  /-- The provider needs a key and has none. -/
  | missingKey
  deriving DecidableEq, Inhabited, Repr

/-- The wording of an error. -/
def SettingsError.message : SettingsError → String
  | unreadable => "failed to read config file"
  | malformed => "failed to parse config file"
  | zero setting => setting ++ " must be greater than 0"
  | blank setting => setting ++ " must not be empty"
  | missingKey => "openai embedding provider requires REPODEX_OPENAI_API_KEY"

end CodeIndex
