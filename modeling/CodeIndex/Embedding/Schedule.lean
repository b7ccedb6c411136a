import CodeIndex.Embedding.Pool
import CodeIndex.Provider

/-!
# Execution of a batch

`Schedule.run` executes the requests of a batch on a clock that only answers and waits move.
Permits go to the requests in line, first come first served; at each moment every request goes as
far as it can, in order, until none can move, and then the clock goes on to the next moment at which
one can.
-/

namespace CodeIndex

/-- When the phase of a request is over. -/
structure Timer where
  due : Duration
  /-- The time limit of the attempt comes before the provider's answer. -/
  cutOff : Bool
  deriving DecidableEq, Inhabited, Repr

/-- A batch in the middle of its execution. -/
structure Schedule (σ : Type) where
  pool : Pool Embedding
  timers : Array Timer
  now : Duration
  /-- The requests that have called the provider, in the order of the calls. -/
  log : Array Nat
  /-- How many steps the requests have taken. -/
  moves : Nat
  provider : σ

/-- An executed batch: an answer per request, and what it took. -/
structure BatchRun (σ : Type) where
  results : List (Except ProviderError Embedding)
  /-- The texts with which the provider was called, in the order of the calls. -/
  sent : List String
  elapsed : Duration
  provider : σ

/-- How often the provider was called. -/
def BatchRun.calls {σ : Type} (run : BatchRun σ) : Nat := run.sent.length

namespace Schedule

variable {σ : Type} (policy : RetryPolicy) (provider : Provider σ) (texts : Array String)

/-- Nothing has happened yet. -/
def start (maxConcurrent : Nat) (texts : Array String) (state : σ) : Schedule σ where
  pool := .start maxConcurrent texts.size
  timers := Array.replicate texts.size ⟨⟨0⟩, false⟩
  now := ⟨0⟩
  log := #[]
  moves := 0
  provider := state

/-- The schedule after a step of request `i` to `pool`, with its next timer. -/
def moved (s : Schedule σ) (i : Nat) (timer : Timer) (pool : Pool Embedding) : Schedule σ :=
  { s with pool := pool, timers := s.timers.setIfInBounds i timer, moves := s.moves + 1 }

/-- The moment `d` after now. -/
def later (s : Schedule σ) (d : Duration) : Duration := ⟨s.now.nanos + d.nanos⟩

/-- The schedule after request `i` has called the provider. -/
def called (s : Schedule σ) (i : Nat) (pool : Pool Embedding) : Schedule σ :=
  let timer : Timer :=
    if provider.delay.nanos ≤ policy.requestTimeout.nanos then ⟨s.later provider.delay, false⟩
    else ⟨s.later policy.requestTimeout, true⟩
  let next := s.moved i timer pool
  { next with log := next.log.push i }

/-- What comes of the call of request `i`, and the provider's state after it. -/
def outcome (s : Schedule σ) (i : Nat) (timer : Timer) : Except ProviderError Embedding × σ :=
  if timer.cutOff then (.error (.timeout policy.requestTimeout), s.provider)
  else provider.answer (texts.getD i "") s.provider

/-- The timer of a request after `failed` failures and this result. -/
def timerAfter (s : Schedule σ) (failed : Nat) (result : Except ProviderError Embedding) : Timer :=
  match policy.verdict failed result with
  | .again wait => ⟨s.later wait, false⟩
  | .finish _ => ⟨s.now, false⟩

/-- The next step of request `i`, if it can take one now; `ahead` requests are in line before it. -/
def move? (s : Schedule σ) (ahead i : Nat) : Option (Schedule σ) :=
  let timer := s.timers.getD i ⟨⟨0⟩, false⟩
  let isDue := decide (timer.due.nanos ≤ s.now.nanos)
  match s.pool.phases[i]? with
  | some .waiting =>
    if ahead < s.pool.free then
      (s.pool.step? policy i .acquire).map (s.called policy provider i)
    else none
  | some (.calling failed) =>
    if isDue then
      let (result, state) := s.outcome policy provider texts i timer
      (s.pool.step? policy i (.answer result)).map fun pool =>
        { s.moved i (s.timerAfter policy failed result) pool with provider := state }
    else none
  | some (.sleeping _) =>
    if isDue then (s.pool.step? policy i .wake).map (s.called policy provider i) else none
  | _ => none

/-- Request `i` after as many steps as it can take now, at most `fuel`. -/
def advance (ahead i : Nat) : (fuel : Nat) → Schedule σ → Schedule σ
  | 0, s => s
  | fuel + 1, s =>
    match s.move? policy provider texts ahead i with
    | some s => advance ahead i fuel s
    | none => s

/-- More steps than a request can take. -/
def movesPerRequest : Nat := 2 * policy.budget + 2

/-- Whether request `i` is in line. -/
def isWaiting (s : Schedule σ) (i : Nat) : Bool :=
  match s.pool.phases[i]? with
  | some .waiting => true
  | _ => false

/-- Every request in order after as many steps as it can take now. -/
def pass (s : Schedule σ) : Schedule σ :=
  ((List.range texts.size).foldl (fun ((s, ahead) : Schedule σ × Nat) i =>
    let s := advance policy provider texts ahead i (movesPerRequest policy) s
    (s, if s.isWaiting i then ahead + 1 else ahead)) (s, 0)).1

/-- The next moment at which a request that has a permit can move. -/
def nextDue? (s : Schedule σ) : Option Duration :=
  (s.pool.phases.zip s.timers).foldl (fun best (phase, timer) =>
    if phase.holdsPermit then
      match best with
      | none => some timer.due
      | some d => some (d.min timer.due)
    else best) none

/-- Executes the batch until no request can move any more. -/
def execute : (fuel : Nat) → Schedule σ → Schedule σ
  | 0, s => s
  | fuel + 1, s =>
    let next := s.pass policy provider texts
    if s.moves < next.moves then execute fuel next
    else
      match next.nextDue? with
      | some due => execute fuel { next with now := due }
      | none => next

/-- What is said of a request that never came to an end. -/
def abandoned : ProviderError := .other "request limiter closed"

/-- Executes a batch of requests for these texts. -/
def run (maxConcurrent : Nat) (texts : Array String) (state : σ) : BatchRun σ :=
  let fuel := 2 * (texts.size * movesPerRequest policy) + 2
  let s := execute policy provider texts fuel (start maxConcurrent texts state)
  { results := s.pool.phases.toList.map fun phase => phase.result?.getD (.error abandoned)
    sent := s.log.toList.map fun i => texts.getD i ""
    elapsed := s.now
    provider := s.provider }

end Schedule

end CodeIndex
