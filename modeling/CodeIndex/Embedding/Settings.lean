import CodeIndex.Provider.Retry

/-!
# Settings of the embedder

How texts are cut, how many requests run at once, and how requests are retried.
-/

namespace CodeIndex

/-- How the embedder works. -/
structure EmbedderSettings where
  /-- The most tokens of one request. -/
  maxTokens : Nat := 8191
  /-- The most requests at once. -/
  maxConcurrent : Nat := 100
  maxAttempts : Nat := 3
  /-- The first wait between attempts, in milliseconds. -/
  baseBackoffMillis : Nat := 500
  /-- The time limit of one attempt, in seconds. -/
  requestTimeoutSeconds : Nat := 30
  deriving DecidableEq, Inhabited, Repr

namespace EmbedderSettings

/-- The longest wait between attempts, in milliseconds. -/
def maxDelayMillis : Nat := 60000

/-- How requests are retried. -/
def retryPolicy (s : EmbedderSettings) : RetryPolicy where
  maxAttempts := s.maxAttempts
  baseBackoff := .ofMillis s.baseBackoffMillis
  requestTimeout := .ofSeconds s.requestTimeoutSeconds
  maxDelay := .ofMillis maxDelayMillis

end EmbedderSettings

end CodeIndex
