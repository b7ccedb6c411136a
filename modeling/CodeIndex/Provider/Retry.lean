import CodeIndex.Provider.Error

/-!
# Retrying

A request is attempted until it succeeds, fails for good, or the budget of attempts is spent.  Every
attempt is cut off at a time limit; between attempts there is a wait that doubles each time, or that
the provider asked for, but never more than the longest allowed.
-/

namespace CodeIndex

/-- A budget of attempts and the waits between them. -/
structure RetryPolicy where
  /-- All attempts, the first one included; zero counts as one. -/
  maxAttempts : Nat
  baseBackoff : Duration
  /-- The time limit of one attempt. -/
  requestTimeout : Duration
  /-- The longest wait. -/
  maxDelay : Duration
  deriving DecidableEq, Inhabited, Repr

/-- The largest factor of a wait. -/
def maxBackoffFactor : Nat := 0xFFFFFFFF

/-- The factor of the wait after `failed + 1` failures: a power of two while it fits 32 bits. -/
def backoffFactor (failed : Nat) : Nat := if failed < 32 then Nat.pow 2 failed else maxBackoffFactor

/-- The wait after `failed + 1` failures, before any limit on waits. -/
def backoffDelay (base : Duration) (failed : Nat) : Duration :=
  base.saturatingMul (backoffFactor failed)

/-- An attempt left to itself: how long it takes and what it yields. -/
structure Attempt (α : Type) where
  duration : Duration
  result : Except ProviderError α

/-- The attempt cut off at a time limit; one that is ready at the limit counts as ready. -/
def Attempt.within {α : Type} (a : Attempt α) (limit : Duration) : Attempt α :=
  if a.duration.nanos ≤ limit.nanos then a else ⟨limit, .error (.timeout limit)⟩

namespace RetryPolicy

/-- The number of attempts that a policy allows. -/
def budget (p : RetryPolicy) : Nat := max 1 p.maxAttempts

/-- The wait after an error, when `failed` attempts had failed before it. -/
def waitAfter (p : RetryPolicy) (failed : Nat) : ProviderError → Duration
  | .rateLimited (some hint) => hint.min p.maxDelay
  | _ => (backoffDelay p.baseBackoff failed).min p.maxDelay

/-- What follows an attempt. -/
inductive Verdict (α : Type) where
  | finish (result : Except ProviderError α)
  | again (wait : Duration)

/-- What follows an attempt with this result, when `failed` attempts had failed before it. -/
def verdict {α : Type} (p : RetryPolicy) (failed : Nat) (result : Except ProviderError α) :
    Verdict α :=
  match result with
  | .ok v => .finish (.ok v)
  | .error e =>
    if e.isTransient ∧ failed + 1 < p.budget then .again (p.waitAfter failed e)
    else .finish (.error e)

end RetryPolicy

/-- A request with its attempts: the last result, when each attempt started, and when the last one
was over. -/
structure RetryRun (α : Type) where
  result : Except ProviderError α
  starts : List Duration
  finished : Duration

/-- A finished request on a clock where nothing but attempts and waits takes time.  `attempts n` is
what the attempt after `n` failures would do. -/
def retryFrom {α : Type} (p : RetryPolicy) (attempts : Nat → Attempt α) (failed : Nat)
    (now : Duration) : RetryRun α :=
  let attempt := (attempts failed).within p.requestTimeout
  let finished : Duration := ⟨now.nanos + attempt.duration.nanos⟩
  match _h : p.verdict failed attempt.result with
  | .finish result => ⟨result, [now], finished⟩
  | .again wait =>
    let rest := retryFrom p attempts (failed + 1) ⟨finished.nanos + wait.nanos⟩
    ⟨rest.result, now :: rest.starts, rest.finished⟩
  termination_by p.budget - failed
  decreasing_by
    simp only [RetryPolicy.verdict] at _h
    split at _h
    · simp at _h
    · split at _h
      · omega
      · simp at _h

/-- A request from its first attempt on. -/
def retry {α : Type} (p : RetryPolicy) (attempts : Nat → Attempt α) : RetryRun α :=
  retryFrom p attempts 0 ⟨0⟩

end CodeIndex
