import CodeIndex.Embedding.Batch
import CodeIndex.Embedding.Schedule
import CodeIndex.Embedding.Settings

/-!
# Embedders

An embedder cuts texts into chunks, requests the chunks as one batch, and combines the answers.  How
a batch is requested is a parameter; `Embedder.ofProvider` requests it from a provider, under a
retry policy and with a limited number of requests at once.
-/

namespace CodeIndex

/-- What embeds texts. -/
structure Embedder (σ : Type) where
  /-- The name under which a snapshot remembers who embedded it. -/
  modelId : String
  tokenize : String → Tokens
  /-- The most tokens of one request. -/
  maxTokens : Nat
  /-- The answers to a batch of requests, in their order. -/
  request : Array String → σ → BatchRun σ

/-- The results of embedding, and what it took. -/
structure EmbedderRun (σ α : Type) where
  outcome : α
  /-- The texts that were to be embedded. -/
  asked : List String
  /-- The texts with which the provider was called, in the order of the calls. -/
  sent : List String
  elapsed : Duration
  provider : σ

/-- How often the provider was called. -/
def EmbedderRun.calls {σ α : Type} (run : EmbedderRun σ α) : Nat := run.sent.length

namespace Embedder

open EmbeddingBatch

variable {σ : Type}

/-- The embedder that asks a provider. -/
def ofProvider (provider : Provider σ) (tokenize : String → Tokens) (s : EmbedderSettings) :
    Embedder σ where
  modelId := provider.modelId
  tokenize := tokenize
  maxTokens := s.maxTokens
  request := Schedule.run s.retryPolicy provider s.maxConcurrent

variable (e : Embedder σ)

/-- Whether the answer to a request depends on its text alone. -/
def IsConstant : Prop :=
  ∃ answer : String → Except ProviderError Embedding,
    ∀ texts s, (e.request texts s).results = texts.toList.map answer

/-- The chunks of a text. -/
def jobOf (text : String) : Job := EmbeddingBatch.jobOf e.tokenize e.maxTokens text

/-- The answers to the requests of several jobs.  Without requests nobody is asked. -/
def requestAll (jobs : List Job) (state : σ) : BatchRun σ :=
  match requests jobs with
  | [] => ⟨[], [], ⟨0⟩, state⟩
  | texts => e.request texts.toArray state

/-- Embeds several texts at once. -/
def embedTexts (texts : List String) (state : σ) : EmbedderRun σ (List Result) :=
  let jobs := texts.map e.jobOf
  let run := e.requestAll jobs state
  ⟨resultsOf jobs run.results, texts, run.sent, run.elapsed, run.provider⟩

/-- Embeds one text. -/
def embedText (text : String) (state : σ) : EmbedderRun σ Result :=
  let run := e.embedTexts [text] state
  { run with outcome := run.outcome.headD (.error (.embedding (.combine .noVectors))) }

/-- Embeds every unit of every file. -/
def embedRecords (records : List FileRecord) (state : σ) : EmbedderRun σ EmbedOutcome :=
  let run := e.embedTexts (unitTexts records) state
  { run with outcome := settle records run.outcome }

end Embedder

end CodeIndex
