import CodeIndex.Provider.Retry
import Mathlib.Order.Bounds.Basic

/-!
# Retried requests

A request ends with its first attempt that succeeds or fails for good, or with the last one that the
budget allows.  `RetryPolicy.verdict_cases` says once what can follow an attempt; the number of
attempts, the result and the time are each an induction over the attempts: `retry_exact`.
-/

namespace CodeIndex

variable {α : Type}

namespace RetryPolicy

/-! ## §1 Outcomes and verdicts -/

/-- What an attempt comes to: one that takes longer than the time limit has run into it. -/
def outcomeOf (p : RetryPolicy) (a : Attempt α) : Except ProviderError α :=
  if p.requestTimeout.nanos < a.duration.nanos then .error (.timeout p.requestTimeout)
  else a.result

/-- A success, or an error after which another attempt is of no use. -/
def IsFinal (outcome : Except ProviderError α) : Prop :=
  ∀ e, outcome = .error e → e.isTransient = false

variable {p : RetryPolicy} {failed : Nat} {result final : Except ProviderError α}
  {wait : Duration}

/-- One attempt is always allowed. -/
theorem budget_pos (p : RetryPolicy) : 0 < p.budget := Nat.le_max_left ..

private theorem waitAfter_le (p : RetryPolicy) (failed : Nat) (e : ProviderError) :
    (p.waitAfter failed e).nanos ≤ p.maxDelay.nanos := by
  unfold waitAfter
  split
  all_goals exact Nat.min_le_right ..

/-- Either the request is over with this result, or the result is a passing error within the budget
and there is another attempt after a wait. -/
theorem verdict_cases (p : RetryPolicy) (failed : Nat) (result : Except ProviderError α) :
    (p.verdict failed result = .finish result ∧ (IsFinal result ∨ p.budget ≤ failed + 1)) ∨
      ∃ e, result = .error e ∧ p.verdict failed result = .again (p.waitAfter failed e) ∧
        e.isTransient = true ∧ failed + 1 < p.budget := by
  cases result with
  | ok v => exact .inl ⟨rfl, .inl nofun⟩
  | error e =>
    -- another attempt takes a passing error and a budget that lasts
    by_cases hagain : e.isTransient ∧ failed + 1 < p.budget
    · exact .inr ⟨e, rfl, if_pos hagain, hagain⟩
    · refine .inl ⟨if_neg hagain, ?_⟩
      by_cases htransient : e.isTransient = true
      · exact .inr (Nat.le_of_not_lt fun hlt => hagain ⟨htransient, hlt⟩)
      · refine .inl fun e' he => ?_
        cases he
        exact eq_false_of_ne_true htransient

/-- A request ends with the result that it has. -/
theorem eq_of_verdict_finish (h : p.verdict failed result = .finish final) : final = result := by
  rcases p.verdict_cases failed result with ⟨hfinish, _⟩ | ⟨e, _, hagain, _⟩
  · rw [hfinish] at h
    exact (Verdict.finish.inj h).symm
  · rw [hagain] at h
    cases h

private theorem final_of_verdict_finish (h : p.verdict failed result = .finish final) :
    IsFinal result ∨ p.budget ≤ failed + 1 := by
  rcases p.verdict_cases failed result with ⟨_, hfinal⟩ | ⟨e, _, hagain, _⟩
  · exact hfinal
  · rw [hagain] at h
    cases h

/-- A request is made again after an error that may pass, while the budget lasts. -/
theorem eq_of_verdict_again (h : p.verdict failed result = .again wait) :
    ∃ e, result = .error e ∧ wait = p.waitAfter failed e ∧ e.isTransient = true ∧
      failed + 1 < p.budget := by
  rcases p.verdict_cases failed result with ⟨hfinish, _⟩ | ⟨e, hresult, hagain, hlater⟩
  · rw [hfinish] at h
    cases h
  · rw [hagain] at h
    exact ⟨e, hresult, (Verdict.again.inj h).symm, hlater⟩

/-- So the budget is not used up then. -/
theorem lt_budget_of_verdict_again (h : p.verdict failed result = .again wait) :
    failed + 1 < p.budget := by
  obtain ⟨e, _, _, _, hlt⟩ := eq_of_verdict_again h
  exact hlt

end RetryPolicy

open RetryPolicy

/-! ## §2 One attempt after the other -/

/-- Within the time limit an attempt has its own result, or that of a timeout. -/
theorem Attempt.result_within (p : RetryPolicy) (a : Attempt α) :
    (a.within p.requestTimeout).result = p.outcomeOf a := by
  unfold Attempt.within outcomeOf
  by_cases h : a.duration.nanos ≤ p.requestTimeout.nanos
  · rw [if_pos h, if_neg (Nat.not_lt.2 h)]
  · rw [if_neg h, if_pos (Nat.lt_of_not_le h)]

private theorem Attempt.duration_within_le (a : Attempt α) (limit : Duration) :
    (a.within limit).duration.nanos ≤ limit.nanos := by
  unfold Attempt.within
  split
  · next h => exact h
  · exact Nat.le_refl _

variable (p : RetryPolicy) (attempts : Nat → Attempt α) (failed : Nat) (now : Duration)

/-- What the `n`-th attempt comes to, counting from one. -/
def RetryPolicy.nthOutcome (n : Nat) : Except ProviderError α :=
  p.outcomeOf (attempts (n - 1))

/-- After `failed` failures the request goes on to the first attempt that is final or exhausts the
budget. -/
theorem isLeast_length_starts {failed : Nat} (now : Duration) (h : failed < p.budget) :
    IsLeast {n | failed < n ∧ (IsFinal (p.nthOutcome attempts n) ∨ n = p.budget)}
      (failed + (retryFrom p attempts failed now).starts.length) := by
  fun_induction retryFrom p attempts failed now with
  | case1 failed now attempt finished result hverdict =>
    refine ⟨⟨Nat.lt_succ_self failed, ?_⟩, fun n hn => hn.1⟩
    have hfinal := final_of_verdict_finish hverdict
    rw [Attempt.result_within] at hfinal
    apply hfinal.imp id
    intro hbudget
    exact Nat.le_antisymm h hbudget
  | case2 failed now attempt finished wait hverdict rest ih =>
    obtain ⟨e, hresult, _, htransient, hlt⟩ := eq_of_verdict_again hverdict
    rw [Attempt.result_within] at hresult
    obtain ⟨⟨hlater, hlast⟩, hleast⟩ := ih hlt
    have hlength : failed + (now :: rest.starts).length = failed + 1 + rest.starts.length := by
      rw [List.length_cons]
      omega
    rw [hlength]
    refine ⟨⟨by omega, hlast⟩, ?_⟩
    rintro n ⟨hn, hend⟩
    -- the attempt that was just made is not the last, so the others decide
    rcases Nat.lt_or_eq_of_le hn with hn | rfl
    · exact hleast ⟨hn, hend⟩
    · rcases hend with hfinal | hbudget
      · have hfalse := hfinal e hresult
        rw [htransient] at hfalse
        cases hfalse
      · omega

/-- The result is the outcome of the last attempt. -/
theorem result_eq_nthOutcome : (retryFrom p attempts failed now).result =
    p.nthOutcome attempts (failed + (retryFrom p attempts failed now).starts.length) := by
  fun_induction retryFrom p attempts failed now with
  | case1 failed now attempt finished result hverdict =>
    rw [eq_of_verdict_finish hverdict, Attempt.result_within]
    rfl
  | case2 failed now attempt finished wait hverdict rest ih =>
    change rest.result = p.nthOutcome attempts (failed + 1 + rest.starts.length) at ih
    show rest.result = _
    rw [ih, List.length_cons, Nat.add_right_comm, Nat.add_assoc]

private theorem starts_ne_nil : (retryFrom p attempts failed now).starts ≠ [] := by
  fun_induction retryFrom p attempts failed now
  all_goals exact List.cons_ne_nil _ _

/-- Every attempt takes at most the time limit, and every wait between two of them at most the
longest one. -/
theorem finished_le : (retryFrom p attempts failed now).finished.nanos ≤
    now.nanos + (retryFrom p attempts failed now).starts.length * p.requestTimeout.nanos +
      ((retryFrom p attempts failed now).starts.length - 1) * p.maxDelay.nanos := by
  fun_induction retryFrom p attempts failed now with
  | case1 failed now attempt finished result hverdict =>
    have hattempt := (attempts failed).duration_within_le p.requestTimeout
    simp only [List.length_singleton]
    show now.nanos + ((attempts failed).within p.requestTimeout).duration.nanos ≤ _
    omega
  | case2 failed now attempt finished wait hverdict rest ih =>
    have hattempt := (attempts failed).duration_within_le p.requestTimeout
    have hwait : wait.nanos ≤ p.maxDelay.nanos := by
      obtain ⟨e, _, rfl, _⟩ := eq_of_verdict_again hverdict
      exact p.waitAfter_le failed e
    obtain ⟨m, hm⟩ : ∃ m, rest.starts.length = m + 1 :=
      Nat.exists_eq_succ_of_ne_zero fun hzero =>
        starts_ne_nil p attempts _ _ (List.length_eq_zero_iff.1 hzero)
    have hfinished : finished.nanos =
      now.nanos + ((attempts failed).within p.requestTimeout).duration.nanos := rfl
    change rest.finished.nanos ≤ finished.nanos + wait.nanos +
      rest.starts.length * p.requestTimeout.nanos +
      (rest.starts.length - 1) * p.maxDelay.nanos at ih
    show rest.finished.nanos ≤ _
    rw [hm] at ih
    rw [List.length_cons, hm]
    simp only [Nat.add_sub_cancel] at ih ⊢
    -- one attempt and one wait come before the rest
    rw [Nat.succ_mul (m + 1), Nat.succ_mul m p.maxDelay.nanos]
    omega

/-! ## §3 Counting in 32 bits -/

variable {p attempts failed now}

private theorem retryFrom_of_finish
    (h : p.verdict failed ((attempts failed).within p.requestTimeout).result =
      .finish ((attempts failed).within p.requestTimeout).result) :
    retryFrom p attempts failed now =
      let attempt := (attempts failed).within p.requestTimeout
      ⟨attempt.result, [now], ⟨now.nanos + attempt.duration.nanos⟩⟩ := by
  rw [retryFrom]
  split
  · next result hverdict => rw [eq_of_verdict_finish hverdict]
  · next wait hverdict =>
    rw [h] at hverdict
    cases hverdict

private theorem retryFrom_of_again {wait : Duration}
    (h : p.verdict failed ((attempts failed).within p.requestTimeout).result = .again wait) :
    retryFrom p attempts failed now =
      let finished := now.nanos + ((attempts failed).within p.requestTimeout).duration.nanos
      let rest := retryFrom p attempts (failed + 1) ⟨finished + wait.nanos⟩
      ⟨rest.result, now :: rest.starts, rest.finished⟩ := by
  rw [retryFrom]
  -- the verdict is given, so only one case is left
  split
  · next result hverdict =>
    rw [h] at hverdict
    cases hverdict
  · next wait' hverdict =>
    rw [h] at hverdict
    cases hverdict
    rfl

/-- The count after one more failure, if it fits 32 bits. -/
def countFailure? (failed : UInt32) : Option UInt32 :=
  if failed.toNat + 1 < UInt32.size then some (failed + 1) else none

private theorem toNat_countFailure? {failed count : UInt32}
    (h : countFailure? failed = some count) :
    count.toNat = failed.toNat + 1 := by
  unfold countFailure? at h
  split at h
  · next hfits =>
    cases h
    rw [UInt32.toNat_add]
    exact Nat.mod_eq_of_lt hfits
  · cases h

/-- The request with its failures counted in 32 bits, before the count is compared with the budget;
`none` if the count overflows. -/
def retryCountedFrom? (p : RetryPolicy) (attempts : Nat → Attempt α) (failed : UInt32)
    (now : Duration) : Option (RetryRun α) :=
  let attempt := (attempts failed.toNat).within p.requestTimeout
  let finished : Duration := ⟨now.nanos + attempt.duration.nanos⟩
  match attempt.result with
  | .ok v => some ⟨.ok v, [now], finished⟩
  | .error e =>
    match _h : countFailure? failed with
    | none => none
    | some count =>
      if _hagain : e.isTransient = true ∧ count.toNat < p.budget then
        let wait := p.waitAfter failed.toNat e
        (retryCountedFrom? p attempts count ⟨finished.nanos + wait.nanos⟩).map fun rest =>
          ⟨rest.result, now :: rest.starts, rest.finished⟩
      else some ⟨.error e, [now], finished⟩
  termination_by p.budget - failed.toNat
  decreasing_by
    have hcount := toNat_countFailure? _h
    omega

private theorem exists_countFailure? {failed : UInt32} (hbudget : p.maxAttempts < UInt32.size)
    (h : failed.toNat < p.budget) : ∃ count, countFailure? failed = some count := by
  have hfits : failed.toNat + 1 < UInt32.size := by
    have hsize : 1 < UInt32.size := by decide
    unfold budget at h
    omega
  exact ⟨failed + 1, if_pos hfits⟩

/-- With a budget of 32 bits the count never overflows, and the request is the same. -/
theorem retryCountedFrom?_eq {failed : UInt32} (hbudget : p.maxAttempts < UInt32.size)
    (h : failed.toNat < p.budget) :
    retryCountedFrom? p attempts failed now = some (retryFrom p attempts failed.toNat now) := by
  fun_induction retryCountedFrom? p attempts failed now with
  | case1 failed now attempt finished v hresult =>
    rw [retryFrom_of_finish (hresult ▸ rfl)]
    show _ = some (RetryRun.mk attempt.result _ _)
    rw [hresult]
  | case2 failed now attempt e hresult hoverflow =>
    -- the counter cannot overflow while the budget lasts
    obtain ⟨count, hcount⟩ := exists_countFailure? hbudget h
    rw [hcount] at hoverflow
    cases hoverflow
  | case3 failed now attempt finished e hresult count hcount hagain wait ih =>
    have hsucc := toNat_countFailure? hcount
    rw [ih hagain.2, hsucc]
    rw [hsucc] at hagain
    have hverdict : p.verdict failed.toNat attempt.result = .again wait := by
      rw [hresult]
      exact if_pos hagain
    rw [retryFrom_of_again hverdict]
    rfl
  | case4 failed now attempt finished e hresult count hcount hagain =>
    rw [toNat_countFailure? hcount] at hagain
    have hverdict : p.verdict failed.toNat attempt.result = .finish attempt.result := by
      rw [hresult]
      exact if_neg hagain
    rw [retryFrom_of_finish hverdict]
    show _ = some (RetryRun.mk attempt.result _ _)
    rw [hresult]

/-! ## §4 The request as a whole -/

/-- Every request comes to an end.  The number of its attempts is the least one, from one on, at
which an attempt succeeds, fails for good or exhausts the budget, an attempt beyond the time limit
being a passing failure; the result is what that attempt comes to.  With a budget of 32 bits the
count of failures never overflows 32 bits.  Where only attempts and waits take time, the request
takes at most the time limit for every attempt and the longest wait between any two. -/
theorem retry_exact (p : RetryPolicy) (attempts : Nat → Attempt α) :
    let run := retry p attempts
    let k := run.starts.length
    IsLeast {n | 0 < n ∧ (IsFinal (p.nthOutcome attempts n) ∨ n = max 1 p.maxAttempts)} k ∧
      run.result = p.nthOutcome attempts k ∧
      (p.maxAttempts < UInt32.size → retryCountedFrom? p attempts 0 ⟨0⟩ = some run) ∧
      run.finished.nanos ≤ k * p.requestTimeout.nanos + (k - 1) * p.maxDelay.nanos := by
  intro run k
  have hleast := isLeast_length_starts p attempts ⟨0⟩ p.budget_pos
  have hresult := result_eq_nthOutcome p attempts 0 ⟨0⟩
  have hfinished : run.finished.nanos ≤
      0 + k * p.requestTimeout.nanos + (k - 1) * p.maxDelay.nanos := finished_le p attempts 0 ⟨0⟩
  -- a request starts without a failure at time zero
  rw [Nat.zero_add] at hleast hresult hfinished
  refine ⟨hleast, hresult, fun hbudget => ?_, ?_⟩
  · exact retryCountedFrom?_eq hbudget p.budget_pos
  · exact hfinished

/-! ## §5 A sample -/

namespace Sample

/-- As many attempts as 32 bits can count, of ten milliseconds each. -/
def patience : RetryPolicy := ⟨0xFFFFFFFF, .ofMillis 1, .ofMillis 10, .ofMillis 20⟩

/-- A provider that is down, then busy for an hour, then slow, and then answers. -/
def flakyAttempt (failed : Nat) : Attempt Nat :=
  match failed with
  | 0 => ⟨.ofMillis 2, .error (.unavailable 503)⟩
  | 1 => ⟨.ofMillis 2, .error (.rateLimited (some (.ofSeconds 3600)))⟩
  | 2 => ⟨.ofSeconds 5, .ok 7⟩
  | _ => ⟨.ofMillis 10, .ok 7⟩

end Sample

/-- The sample's fourth attempt succeeds, within ten milliseconds for each attempt and twenty for
each wait. -/
theorem retry_exact_sample :
    (retry Sample.patience Sample.flakyAttempt).starts.length = 4 ∧
      (retry Sample.patience Sample.flakyAttempt).result = .ok 7 ∧
      retryCountedFrom? Sample.patience Sample.flakyAttempt 0 ⟨0⟩ =
        some (retry Sample.patience Sample.flakyAttempt) ∧
      (retry Sample.patience Sample.flakyAttempt).finished.nanos ≤ 100 * Duration.perMilli := by
  have hlength : (retry Sample.patience Sample.flakyAttempt).starts.length = 4 := by decide +kernel
  obtain ⟨_, hresult, hcounted, hfinished⟩ := retry_exact Sample.patience Sample.flakyAttempt
  rw [hlength] at hresult hfinished
  exact ⟨hlength, hresult, hcounted (by decide), hfinished⟩

end CodeIndex
