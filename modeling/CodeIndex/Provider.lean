import CodeIndex.Number.Single
import CodeIndex.Provider.Error

/-!
# Providers

A provider turns texts into vectors.  How it answers may depend on a state of its own, such as the
requests it has seen.
-/

namespace CodeIndex

/-- A source of embeddings with a state of type `σ`. -/
structure Provider (σ : Type) where
  name : String
  model : String
  /-- How long the provider takes for an answer. -/
  delay : Duration
  /-- The answer to one request, and the state after it. -/
  answer : String → σ → Except ProviderError Embedding × σ

namespace Provider

variable {σ : Type}

/-- The name under which a snapshot remembers who embedded it. -/
def modelId (p : Provider σ) : String := p.name ++ "/" ++ p.model

end Provider

end CodeIndex
