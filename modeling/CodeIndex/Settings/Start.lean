import CodeIndex.Embedding.Settings
import CodeIndex.Endpoint.Ollama
import CodeIndex.Settings

/-!
# Starting up

From settings to what a run works with: the provider's endpoint and the embedder.  Start-up is
refused when a key is missing, and it crashes when a base URL cannot be used or a pool would need
more permits than there can be.
-/

namespace CodeIndex

/-- Where a provider is found. -/
inductive Endpoint where
  | openAi (key baseUrl model : String)
  | ollama (url : Url) (model : String)
  deriving DecidableEq, Inhabited, Repr

namespace Endpoint

/-- The provider's name. -/
def name : Endpoint → String
  | openAi _ _ _ => ProviderKind.openAi.name
  | ollama _ _ => ProviderKind.ollama.name

/-- The model that is asked for vectors. -/
def model : Endpoint → String
  | openAi _ _ model => model
  | ollama _ model => model

end Endpoint

/-- Why a program does not start. -/
inductive StartFailure where
  | refused (e : SettingsError)
  /-- The base URL names no host that has ports. -/
  | unusableUrl
  /-- No pool has so many permits. -/
  | tooManyPermits
  deriving DecidableEq, Inhabited, Repr

/-- Whether the failure is a crash and not an answer. -/
def StartFailure.isCrash : StartFailure → Bool
  | refused _ => false
  | unusableUrl => true
  | tooManyPermits => true

/-- A program that is ready to run. -/
structure Startup where
  endpoint : Endpoint
  embedder : EmbedderSettings
  extraIgnore : List String
  deriving DecidableEq, Inhabited, Repr

namespace Settings

/-- The endpoint of the configured provider. -/
def endpoint (s : Settings) : Except StartFailure Endpoint :=
  let e := s.embedding
  match e.kind with
  | .openAi =>
    match e.apiKey with
    | some key => .ok (.openAi key e.baseUrl e.model)
    | none => .error (.refused .missingKey)
  | .ollama =>
    match Ollama.endpoint? e.baseUrl with
    | some url => .ok (.ollama url e.model)
    | none => .error .unusableUrl

/-- How the embedder works. -/
def embedderSettings (s : Settings) : EmbedderSettings where
  maxTokens := s.embedding.maxTokens
  maxConcurrent := s.embedding.maxConcurrentRequests
  maxAttempts := s.embedding.maxAttempts
  baseBackoffMillis := s.embedding.baseBackoffMillis
  requestTimeoutSeconds := s.embedding.requestTimeoutSeconds

/-- The most permits that a pool can have. -/
def maxPermits : Nat := 0x1FFFFFFFFFFFFFFF

/-- Builds the provider, and then the embedder with its pool. -/
def start (s : Settings) : Except StartFailure Startup :=
  match s.endpoint with
  | .error e => .error e
  | .ok endpoint =>
    if maxPermits < max 1 s.embedderSettings.maxConcurrent then .error .tooManyPermits
    else .ok ⟨endpoint, s.embedderSettings, s.index.extraIgnore⟩

end Settings

end CodeIndex
