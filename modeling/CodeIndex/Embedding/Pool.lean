import CodeIndex.Provider.Retry

/-!
# The pool of permits

The requests of a batch share a pool of permits.  A request waits for a permit, keeps it over all
its attempts and the waits between them, and gives it back when it is over.  `Pool.step?` says what
can happen to one request; an execution of a batch is any sequence of such steps.
-/

namespace CodeIndex

/-- Where a request stands. -/
inductive Phase (α : Type) where
  /-- In line for a permit. -/
  | waiting
  /-- The provider has been called, after `failed` attempts. -/
  | calling (failed : Nat)
  /-- Between two attempts, the first `failed` of which have failed. -/
  | sleeping (failed : Nat)
  | done (result : Except ProviderError α)

namespace Phase

variable {α : Type}

/-- Whether a request in this phase has a permit. -/
def holdsPermit : Phase α → Bool
  | calling _ => true
  | sleeping _ => true
  | _ => false

/-- The result of a request that is over. -/
def result? : Phase α → Option (Except ProviderError α)
  | done result => some result
  | _ => none

end Phase

/-- What can happen to a request. -/
inductive PoolEvent (α : Type) where
  /-- It gets a permit and calls the provider. -/
  | acquire
  /-- The provider answers, or the time limit of the attempt does. -/
  | answer (result : Except ProviderError α)
  /-- The wait is over and the provider is called again. -/
  | wake

/-- The permits that are free, and the requests. -/
structure Pool (α : Type) where
  free : Nat
  phases : Array (Phase α)

namespace Pool

variable {α : Type}

/-- The number of permits of a pool; a limit of zero counts as one. -/
def capacity (maxConcurrent : Nat) : Nat := max 1 maxConcurrent

/-- A pool whose `n` requests all wait. -/
def start (maxConcurrent n : Nat) : Pool α := ⟨capacity maxConcurrent, Array.replicate n .waiting⟩

/-- The permits that requests have. -/
def held (pool : Pool α) : Nat := pool.phases.countP Phase.holdsPermit

/-- The pool with request `i` in a new phase. -/
def setPhase (pool : Pool α) (i : Nat) (phase : Phase α) : Pool α :=
  { pool with phases := pool.phases.setIfInBounds i phase }

/-- The pool after an event of request `i`; `none` if the event cannot happen. -/
def step? (p : RetryPolicy) (pool : Pool α) (i : Nat) (e : PoolEvent α) : Option (Pool α) :=
  match e, pool.phases[i]? with
  | .acquire, some .waiting =>
    match pool.free with
    | 0 => none
    | free + 1 => some (setPhase { pool with free := free } i (.calling 0))
  | .answer result, some (.calling failed) =>
    match p.verdict failed result with
    | .finish result => some (setPhase { pool with free := pool.free + 1 } i (.done result))
    | .again _ => some (pool.setPhase i (.sleeping (failed + 1)))
  | .wake, some (.sleeping failed) => some (pool.setPhase i (.calling failed))
  | _, _ => none

/-- The pools that can be reached from the start of a batch of `n` requests. -/
inductive Reachable (p : RetryPolicy) (maxConcurrent n : Nat) : Pool α → Prop where
  | start : Reachable p maxConcurrent n (start maxConcurrent n)
  | step {pool pool' : Pool α} {i : Nat} {e : PoolEvent α} :
      Reachable p maxConcurrent n pool → pool.step? p i e = some pool' →
      Reachable p maxConcurrent n pool'

end Pool

end CodeIndex
