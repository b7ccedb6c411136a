import CodeIndex.Embedding.Embedder
import CodeIndex.Proofs.Provider.Retry
import Mathlib.Algebra.BigOperators.Group.List.Basic
import Mathlib.Algebra.GroupWithZero.Nat

/-!
# Permits

The load of a provider is what a pool of permits has out: requests in the middle of a call and
requests between two attempts.  `Pool.Step` says once what can happen to a request; permits are
neither made nor lost on the way, so however the requests of a batch take turns, the load never
exceeds the number of permits: `Embedder.load_le_capacity`.
-/

namespace CodeIndex

/-! ## §1 Phases -/

namespace Phase

variable {α : Type}

/-- Whether the provider is at work on the request. -/
def isCalling : Phase α → Bool
  | calling _ => true
  | _ => false

/-- Whether the request waits between two attempts. -/
def isSleeping : Phase α → Bool
  | sleeping _ => true
  | _ => false

/-- The attempts that have failed, of a request with a permit. -/
def failed? : Phase α → Option Nat
  | calling failed => some failed
  | sleeping failed => some failed
  | _ => none

/-- The most steps that are left of a request when `budget` attempts are allowed. -/
def stepsLeft (budget : Nat) : Phase α → Nat
  | waiting => 2 * budget
  | calling failed => 2 * (budget - failed) - 1
  | sleeping failed => 2 * (budget - failed)
  | done _ => 0

private theorem toNat_holdsPermit (phase : Phase α) :
    phase.holdsPermit.toNat = phase.isCalling.toNat + phase.isSleeping.toNat := by
  cases phase
  all_goals rfl

end Phase

namespace Pool

variable {α : Type} {p : RetryPolicy} {pool pool' : Pool α} {i : Nat} {e : PoolEvent α}

/-! ## §2 Steps -/

/-- Calls of the provider that it has not answered. -/
def inFlight (pool : Pool α) : Nat := pool.phases.countP Phase.isCalling

/-- Requests that wait between two attempts. -/
def asleep (pool : Pool α) : Nat := pool.phases.countP Phase.isSleeping

/-- What can happen to request `i` of a pool. -/
inductive Step (p : RetryPolicy) (pool : Pool α) (i : Nat) : PoolEvent α → Pool α → Prop
  | acquire {free : Nat} (hphase : pool.phases[i]? = some .waiting) (hfree : pool.free = free + 1) :
      Step p pool i .acquire (setPhase { pool with free := free } i (.calling 0))
  | finish {failed : Nat} {result final : Except ProviderError α}
      (hphase : pool.phases[i]? = some (.calling failed))
      (hverdict : p.verdict failed result = .finish final) :
      Step p pool i (.answer result) (setPhase { pool with free := pool.free + 1 } i (.done final))
  | again {failed : Nat} {result : Except ProviderError α} {wait : Duration}
      (hphase : pool.phases[i]? = some (.calling failed))
      (hverdict : p.verdict failed result = .again wait) :
      Step p pool i (.answer result) (pool.setPhase i (.sleeping (failed + 1)))
  | wake {failed : Nat} (hphase : pool.phases[i]? = some (.sleeping failed)) :
      Step p pool i .wake (pool.setPhase i (.calling failed))

/-- The steps that the pool takes are those that it may take. -/
theorem step?_eq_some_iff : pool.step? p i e = some pool' ↔ Step p pool i e pool' := by
  constructor
  · -- one case for each phase, and for the verdict on an answer
    intro h
    unfold step? at h
    split at h
    · next hphase =>
      split at h
      · cases h
      · next free hfree =>
        rw [← Option.some.inj h]
        exact .acquire hphase hfree
    · next result failed hphase =>
      split at h
      · next final hverdict =>
        rw [← Option.some.inj h]
        exact .finish hphase hverdict
      · next wait hverdict =>
        rw [← Option.some.inj h]
        exact .again hphase hverdict
    · next failed hphase =>
      rw [← Option.some.inj h]
      exact .wake hphase
    · cases h
  · intro h
    unfold step?
    cases h with
    | acquire hphase hfree => simp only [hphase, hfree]
    | finish hphase hverdict => simp only [hphase, hverdict]
    | again hphase hverdict => simp only [hphase, hverdict]
    | wake hphase => simp only [hphase]

/-- Who calls can be given any answer. -/
theorem exists_step_answer {failed : Nat} (hphase : pool.phases[i]? = some (.calling failed))
    (result : Except ProviderError α) : ∃ pool', Step p pool i (.answer result) pool' := by
  cases hverdict : p.verdict failed result with
  | finish final => exact ⟨_, .finish hphase hverdict⟩
  | again wait => exact ⟨_, .again hphase hverdict⟩

private theorem getElem?_setPhase (pool : Pool α) (i j : Nat) (phase : Phase α) :
    (pool.setPhase i phase).phases[j]? =
      if i = j then (if i < pool.phases.size then some phase else none) else pool.phases[j]? :=
  Array.getElem?_setIfInBounds

/-- A step is one request's: the others stay in their phases. -/
theorem Step.phase_of_ne (h : Step p pool i e pool') {j : Nat} (hij : i ≠ j) :
    pool'.phases[j]? = pool.phases[j]? := by
  cases h
  all_goals rw [getElem?_setPhase, if_neg hij]

/-- No step adds a request or takes one away. -/
theorem Step.size_eq (h : Step p pool i e pool') : pool'.phases.size = pool.phases.size := by
  cases h
  all_goals exact Array.size_setIfInBounds

/-- Only requests of the pool have phases. -/
theorem lt_size_of_phase {phase : Phase α} (h : pool.phases[i]? = some phase) :
    i < pool.phases.size :=
  (Array.getElem?_eq_some_iff.1 h).1

/-- A request is in the phase that it was put in. -/
theorem getElem?_setPhase_self {phase : Phase α} (h : pool.phases[i]? = some phase) (free : Nat)
    (next : Phase α) : (setPhase { pool with free := free } i next).phases[i]? = some next := by
  rw [getElem?_setPhase, if_pos rfl]
  exact if_pos (lt_size_of_phase h)

/-- A request that is over was so before, or is over now with the answer that it got. -/
theorem Step.done_cases (h : Step p pool i e pool') {j : Nat} {result : Except ProviderError α}
    (hj : pool'.phases[j]? = some (.done result)) :
    pool.phases[j]? = some (.done result) ∨ j = i ∧ e = .answer result := by
  by_cases hij : i = j
  · subst hij
    -- of the steps only one ends a request
    cases h with
    | acquire hphase _ => rw [getElem?_setPhase_self hphase] at hj; cases hj
    | again hphase _ => rw [getElem?_setPhase_self hphase] at hj; cases hj
    | wake hphase => rw [getElem?_setPhase_self hphase] at hj; cases hj
    | finish hphase hverdict =>
      rw [getElem?_setPhase_self hphase] at hj
      cases hj
      exact .inr ⟨rfl, by rw [RetryPolicy.eq_of_verdict_finish hverdict]⟩
  · rw [h.phase_of_ne hij] at hj
    exact .inl hj

/-- Who is answered does not call any more. -/
theorem Step.not_calling_of_answer {result : Except ProviderError α}
    (h : Step p pool i (.answer result) pool') (failed : Nat) :
    pool'.phases[i]? ≠ some (.calling failed) := by
  cases h with
  | finish hphase _ =>
    rw [getElem?_setPhase_self hphase]
    exact nofun
  | again hphase _ =>
    rw [getElem?_setPhase_self hphase]
    exact nofun

/-! ## §3 Totals -/

/-- The sum of a quantity over all requests. -/
def total (f : Phase α → Nat) (pool : Pool α) : Nat := (pool.phases.toList.map f).sum

private theorem countP_eq_total (q : Phase α → Bool) (pool : Pool α) :
    pool.phases.countP q = pool.total fun phase => (q phase).toNat := by
  rw [← Array.countP_toList]
  unfold total
  induction pool.phases.toList with
  | nil => rfl
  | cons phase rest ih =>
    rw [List.countP_cons, List.map_cons, List.sum_cons, ih, Nat.add_comm]
    cases q phase
    all_goals rfl

private theorem total_add (f g : Phase α → Nat) (pool : Pool α) :
    pool.total (fun phase => f phase + g phase) = pool.total f + pool.total g :=
  List.sum_map_add

private theorem sum_map_set {β : Type} (f : β → Nat) {xs : List β} {i : Nat} {x : β}
    (h : xs[i]? = some x) (y : β) :
    ((xs.set i y).map f).sum + f x = (xs.map f).sum + f y := by
  -- the element that changes is the first one, or one of the rest
  induction xs generalizing i with
  | nil => cases h
  | cons first rest ih =>
    cases i with
    | zero =>
      obtain rfl := Option.some.inj h
      simp only [List.set_cons_zero, List.map_cons, List.sum_cons]
      omega
    | succ i =>
      have hrest := @ih i h
      simp only [List.set_cons_succ, List.map_cons, List.sum_cons]
      omega

/-- When one request changes its phase, a total changes by what it counts of that request. -/
theorem total_setPhase (f : Phase α → Nat) {phase : Phase α}
    (hphase : pool.phases[i]? = some phase) (next : Phase α) :
    (pool.setPhase i next).total f + f phase = pool.total f + f next := by
  unfold total setPhase
  rw [Array.toList_setIfInBounds]
  exact sum_map_set f (Array.getElem?_toList.trans hphase) next

/-- Permits are held by those who call and by those who sleep before they call again. -/
theorem held_eq (pool : Pool α) : pool.held = pool.inFlight + pool.asleep := by
  unfold held inFlight asleep
  rw [countP_eq_total, countP_eq_total, countP_eq_total, ← total_add]
  simp only [Phase.toNat_holdsPermit]

private theorem held_setPhase {phase : Phase α} (hphase : pool.phases[i]? = some phase)
    (next : Phase α) : (pool.setPhase i next).held + phase.holdsPermit.toNat =
      pool.held + next.holdsPermit.toNat := by
  unfold held
  rw [countP_eq_total, countP_eq_total]
  exact total_setPhase _ hphase next

/-! ## §4 What steps preserve -/

/-- The permits that are free together with those that requests have. -/
def permits (pool : Pool α) : Nat := pool.free + pool.held

/-- Permits are neither made nor lost. -/
theorem Step.permits_eq (h : Step p pool i e pool') : pool'.permits = pool.permits := by
  unfold permits
  cases h with
  -- one permit changes hands
  | @acquire free hphase hfree =>
    have hheld : (pool.setPhase i (.calling 0)).held + 0 = pool.held + 1 := held_setPhase hphase _
    show free + (pool.setPhase i (.calling 0)).held = _
    omega
  | @finish failed _ final hphase _ =>
    have hheld : (pool.setPhase i (.done final)).held + 1 = pool.held + 0 := held_setPhase hphase _
    show pool.free + 1 + (pool.setPhase i (.done final)).held = _
    omega
  -- the permit is kept over the wait, from its beginning to its end
  | again hphase _ =>
    exact congrArg (pool.free + ·) (Nat.add_right_cancel (held_setPhase hphase _))
  | wake hphase =>
    exact congrArg (pool.free + ·) (Nat.add_right_cancel (held_setPhase hphase _))

/-- What holds of every pool that `n` requests can reach with so many permits. -/
structure Sound (p : RetryPolicy) (capacity n : Nat) (pool : Pool α) : Prop where
  size : pool.phases.size = n
  permits : pool.permits = capacity
  attempts : ∀ (i : Nat) (phase : Phase α) (failed : Nat),
    pool.phases[i]? = some phase → phase.failed? = some failed → failed < p.budget

/-- At the start all requests wait. -/
theorem eq_waiting_of_start {maxConcurrent n : Nat} {phase : Phase α}
    (h : (start maxConcurrent n : Pool α).phases[i]? = some phase) : phase = .waiting := by
  change (Array.replicate n Phase.waiting)[i]? = some phase at h
  rw [Array.getElem?_replicate] at h
  split at h
  · exact (Option.some.inj h).symm
  · cases h

/-- At the start no permit is taken. -/
theorem Sound.start (p : RetryPolicy) (maxConcurrent n : Nat) :
    (start maxConcurrent n : Pool α).Sound p (capacity maxConcurrent) n := by
  refine ⟨Array.size_replicate, ?_, fun i phase failed hphase hfailed => ?_⟩
  · have hheld : (Pool.start maxConcurrent n : Pool α).held = 0 := by
      simp [held, Pool.start, Phase.holdsPermit]
    rw [Pool.permits, hheld]
    rfl
  · obtain rfl := eq_waiting_of_start hphase
    cases hfailed

/-- No step loses a permit or makes one. -/
theorem Sound.step {capacity n : Nat} (h : pool.Sound p capacity n)
    (hstep : Step p pool i e pool') : pool'.Sound p capacity n := by
  refine ⟨hstep.size_eq.trans h.size, hstep.permits_eq.trans h.permits, ?_⟩
  intro j phase failed hj hfailed
  by_cases hij : i = j
  · -- a request has failed attempts after a retry, and then the budget is not spent
    subst hij
    cases hstep with
    | acquire hphase _ =>
      rw [getElem?_setPhase_self hphase] at hj
      cases hj
      obtain rfl := Option.some.inj hfailed
      exact p.budget_pos
    | finish hphase _ =>
      rw [getElem?_setPhase_self hphase] at hj
      cases hj
      cases hfailed
    | again hphase hverdict =>
      rw [getElem?_setPhase_self hphase] at hj
      cases hj
      obtain rfl := Option.some.inj hfailed
      exact RetryPolicy.lt_budget_of_verdict_again hverdict
    | wake hphase =>
      rw [getElem?_setPhase_self hphase] at hj
      cases hj
      exact h.attempts i _ _ hphase hfailed
  · rw [hstep.phase_of_ne hij] at hj
    exact h.attempts j phase failed hj hfailed

/-- In every pool that can be reached the permits are in order. -/
theorem Reachable.sound {maxConcurrent n : Nat} (h : Reachable p maxConcurrent n pool) :
    pool.Sound p (capacity maxConcurrent) n := by
  induction h with
  | start => exact .start ..
  | step _ hstep ih => exact ih.step (step?_eq_some_iff.1 hstep)

/-- Every step brings the batch closer to its end. -/
theorem Step.total_stepsLeft_lt {capacity n : Nat} (h : pool.Sound p capacity n)
    (hstep : Step p pool i e pool') :
    pool'.total (Phase.stepsLeft p.budget) < pool.total (Phase.stepsLeft p.budget) := by
  have hbudget := p.budget_pos
  -- a call and the wait after it are the two steps of an attempt; failures stay below the budget
  cases hstep with
  | acquire hphase _ =>
    have htotal := total_setPhase (Phase.stepsLeft p.budget) hphase (.calling 0)
    simp only [Phase.stepsLeft] at htotal
    show (pool.setPhase i _).total _ < _
    omega
  | @finish failed _ final hphase _ =>
    have hfailed := h.attempts i _ failed hphase rfl
    have htotal := total_setPhase (Phase.stepsLeft p.budget) hphase (.done final)
    simp only [Phase.stepsLeft] at htotal
    show (pool.setPhase i _).total _ < _
    omega
  | @again failed _ _ hphase hverdict =>
    have hfailed := RetryPolicy.lt_budget_of_verdict_again hverdict
    have htotal := total_setPhase (Phase.stepsLeft p.budget) hphase (.sleeping (failed + 1))
    simp only [Phase.stepsLeft] at htotal
    omega
  | @wake failed hphase =>
    have hfailed := h.attempts i _ failed hphase rfl
    have htotal := total_setPhase (Phase.stepsLeft p.budget) hphase (.calling failed)
    simp only [Phase.stepsLeft] at htotal
    omega

end Pool

end CodeIndex
