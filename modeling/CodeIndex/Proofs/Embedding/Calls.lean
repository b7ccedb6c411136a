import CodeIndex.Proofs.Embedding.Completion
import Mathlib.Data.List.Nodup
import Mathlib.Data.List.Perm.Subperm

/-!
# Calls of the provider

The provider is called for the requests of a batch and for nothing else: at least once for each of
them, and at most as often as the budget allows attempts.  `Schedule.Logged` keeps the log of the
calls in step with the phases of the requests, and `Embedder.sent_bounds` says what it comes to for
texts.
-/

namespace CodeIndex

/-- A request in this phase has called the provider so many times. -/
def Phase.HasCalled {α : Type} (budget : Nat) : Phase α → Nat → Prop
  | waiting, n => n = 0
  | calling failed, n => n = failed + 1
  | sleeping failed, n => n = failed
  | done _, n => 1 ≤ n ∧ n ≤ budget

namespace Schedule

variable {σ : Type} {policy : RetryPolicy} {provider : Provider σ} {texts : Array String}
  {s s' : Schedule σ} {ahead i : Nat}

/-! ## §1 The log -/

/-- The log has the calls of each request, and no others. -/
structure Logged (policy : RetryPolicy) (s : Schedule σ) : Prop where
  counts : ∀ (i : Nat) (phase : Phase Embedding), s.pool.phases[i]? = some phase →
    phase.HasCalled policy.budget (s.log.toList.count i)
  requests : ∀ i ∈ s.log.toList, i < s.pool.phases.size

private theorem start_logged (policy : RetryPolicy) (maxConcurrent : Nat) (texts : Array String)
    (state : σ) :
    (start maxConcurrent texts state).Logged policy where
  counts i phase hphase := by
    obtain rfl := Pool.eq_waiting_of_start hphase
    rfl
  requests _ hi := by cases hi

/-- A call of request `i` is one more call of `i`, and none of the others. -/
private theorem count_log_called (s : Schedule σ) (i j : Nat) (pool : Pool Embedding) :
    (s.called policy provider i pool).log.toList.count j =
      s.log.toList.count j + if i = j then 1 else 0 := by
  show (s.log.push i).toList.count j = _
  rw [Array.toList_push, List.count_append, List.count_singleton]
  simp only [beq_iff_eq]

/-- A call is entered in the log, and nothing else is. -/
theorem Logged.called (h : s.Logged policy) {pool : Pool Embedding} {e : PoolEvent Embedding}
    (hstep : Pool.Step policy s.pool i e pool) {phase : Phase Embedding}
    (hphase : s.pool.phases[i]? = some phase) (next : Phase Embedding)
    (hnext : pool.phases[i]? = some next)
    (hcalled : ∀ n, phase.HasCalled policy.budget n → next.HasCalled policy.budget (n + 1)) :
    (s.called policy provider i pool).Logged policy where
  -- the log grows by this request, and only its own count changes
  counts j phase' hj := by
    rw [count_log_called]
    split
    · next hij =>
      subst hij
      obtain rfl := Option.some.inj (hnext.symm.trans hj)
      exact hcalled _ (h.counts i phase hphase)
    · next hij => exact h.counts j phase' ((hstep.phase_of_ne hij).symm.trans hj)
  requests j hj := by
    change j ∈ (s.log.push i).toList at hj
    rw [Array.toList_push, List.mem_append, List.mem_singleton] at hj
    show j < pool.phases.size
    rw [hstep.size_eq]
    rcases hj with hj | rfl
    · exact h.requests j hj
    · exact Pool.lt_size_of_phase hphase

/-- Whatever a request does, the log stays in step with it. -/
theorem Move.logged {capacity n : Nat} (hsound : s.Sound policy capacity n) (h : s.Logged policy)
    (hmove : Move policy provider texts s ahead i s') : s'.Logged policy := by
  cases hmove with
  | acquire hphase _ hstep =>
    refine h.called hstep hphase (.calling 0) ?_ fun n hn => congrArg (· + 1) hn
    cases hstep with
    | acquire hphase' _ => exact Pool.getElem?_setPhase_self hphase' ..
  | @wake failed _ hphase _ hstep =>
    refine h.called hstep hphase (.calling failed) ?_ fun n hn => congrArg (· + 1) hn
    cases hstep with
    | wake hphase' =>
      obtain rfl := Phase.sleeping.inj (Option.some.inj (hphase'.symm.trans hphase))
      exact Pool.getElem?_setPhase_self hphase' ..
  | @answer failed pool hphase _ hstep =>
    have hcount : s.log.toList.count i = failed + 1 := h.counts i _ hphase
    have hbudget : failed < policy.budget := hsound.pool.attempts i _ failed hphase rfl
    refine ⟨fun j phase hj => ?_, fun j hj => ?_⟩
    · -- an answer is no call, and after it the request sleeps or is over
      show phase.HasCalled policy.budget (s.log.toList.count j)
      by_cases hij : i = j
      · subst hij
        rw [hcount]
        cases hstep with
        | finish hphase' _ =>
          obtain rfl := Option.some.inj ((Pool.getElem?_setPhase_self hphase' ..).symm.trans hj)
          exact ⟨Nat.le_add_left .., hbudget⟩
        | again hphase' _ =>
          obtain rfl := Option.some.inj ((Pool.getElem?_setPhase_self hphase' ..).symm.trans hj)
          obtain rfl := Phase.calling.inj (Option.some.inj (hphase'.symm.trans hphase))
          rfl
      · exact h.counts j phase ((hstep.phase_of_ne hij).symm.trans hj)
    · show j < pool.phases.size
      rw [hstep.size_eq]
      exact h.requests j hj

/-! ## §2 The calls of a batch -/

private theorem count_flatMap_replicate (n x : Nat) (xs : List Nat) :
    (xs.flatMap (List.replicate n)).count x = n * xs.count x := by
  induction xs with
  | nil => simp
  | cons y ys ih =>
    rw [List.flatMap_cons, List.count_append, ih, List.count_replicate, List.count_cons,
      Nat.mul_add, Nat.add_comm]
    split
    · rw [Nat.mul_one]
    · rfl

/-- Where every request is over, each has called at least once, and none more often than allowed. -/
theorem Logged.bounds_of_over {n capacity : Nat} (h : s.Logged policy)
    (hsound : s.Sound policy capacity n) (hover : s.pool.Over) :
    (List.range n).Subperm s.log.toList ∧
      s.log.toList.Subperm ((List.range n).flatMap (List.replicate policy.budget)) := by
  -- whatever is over was called once at least, and as often as the budget allows at most
  have hcount : ∀ i < n, 1 ≤ s.log.toList.count i ∧ s.log.toList.count i ≤ policy.budget := by
    intro i hi
    obtain ⟨phase, hphase⟩ : ∃ phase, s.pool.phases[i]? = some phase :=
      ⟨_, Array.getElem?_eq_getElem (hsound.pool.size.symm ▸ hi)⟩
    obtain ⟨result, hdone⟩ := hover i _ hphase
    have hcalled := h.counts i _ hphase
    rw [hdone] at hcalled
    exact hcalled
  have hone : ∀ i < n, (List.range n).count i = 1 := fun i hi =>
    List.count_eq_one_of_mem List.nodup_range (List.mem_range.2 hi)
  constructor
  · refine List.subperm_ext_iff.2 fun i hi => ?_
    rw [hone i (List.mem_range.1 hi)]
    exact (hcount i (List.mem_range.1 hi)).1
  · refine List.subperm_ext_iff.2 fun i hi => ?_
    have hi : i < n := hsound.pool.size ▸ h.requests i hi
    rw [count_flatMap_replicate, hone i hi, Nat.mul_one]
    exact (hcount i hi).2

/-- The requests of a batch are sent at least once each, and at most as often as the budget allows.
-/
theorem run_sent_bounds (policy : RetryPolicy) (provider : Provider σ) (maxConcurrent : Nat)
    (texts : Array String) (state : σ) :
    texts.toList.Subperm (run policy provider maxConcurrent texts state).sent ∧
      (run policy provider maxConcurrent texts state).sent.Subperm
        (texts.toList.flatMap (List.replicate policy.budget)) := by
  obtain ⟨hsound, hlogged⟩ := sound_execute_induction (P := Logged policy)
    (fun s s' ahead i hsound h (hmove : Move policy provider texts s ahead i s') =>
      hmove.logged hsound h) (fun _ _ h => ⟨h.counts, h.requests⟩)
    (2 * (texts.size * movesPerRequest policy) + 2) (start_sound policy maxConcurrent texts state)
    (start_logged policy maxConcurrent texts state)
  obtain ⟨hlower, hupper⟩ :=
    hlogged.bounds_of_over hsound (run_over policy provider maxConcurrent texts state)
  have htexts : (List.range texts.size).map (fun i => texts.getD i "") = texts.toList := by
    refine List.ext_getElem (by simp) fun i hi _ => ?_
    simp at hi
    simp [hi]
  have hrepeated : texts.toList.flatMap (List.replicate policy.budget) =
      ((List.range texts.size).flatMap (List.replicate policy.budget)).map fun i =>
        texts.getD i "" := by
    conv => lhs; rw [← htexts]
    rw [List.flatMap_map, List.map_flatMap]
    simp only [List.map_replicate]
  -- what holds of the requests holds of their texts
  constructor
  · obtain ⟨l, hperm, hsublist⟩ := hlower
    exact ⟨_, (hperm.map _).trans (.of_eq htexts), hsublist.map _⟩
  · obtain ⟨l, hperm, hsublist⟩ := hupper
    rw [hrepeated]
    exact ⟨_, hperm.map _, hsublist.map _⟩

end Schedule

namespace Embedder

open EmbeddingBatch

variable {σ : Type} (provider : Provider σ) (tokenize : String → Tokens) (s : EmbedderSettings)

private theorem requestAll_sent_bounds (jobs : List Job) (state : σ) :
    (requests jobs).Subperm ((ofProvider provider tokenize s).requestAll jobs state).sent ∧
      ((ofProvider provider tokenize s).requestAll jobs state).sent.Subperm
        ((requests jobs).flatMap (List.replicate (max 1 s.maxAttempts))) := by
  unfold requestAll
  split
  · next hnone =>
    rw [hnone]
    exact ⟨.refl _, List.nil_subperm⟩
  · exact Schedule.run_sent_bounds s.retryPolicy provider s.maxConcurrent _ state

/-- To embed texts each of their chunks is sent, at least once and at most as often as attempts are
allowed, and nothing else is. -/
theorem sent_bounds (texts : List String) (state : σ) :
    (requests (texts.map (ofProvider provider tokenize s).jobOf)).Subperm
        ((ofProvider provider tokenize s).embedTexts texts state).sent ∧
      ((ofProvider provider tokenize s).embedTexts texts state).sent.Subperm
        ((requests (texts.map (ofProvider provider tokenize s).jobOf)).flatMap
          (List.replicate (max 1 s.maxAttempts))) :=
  requestAll_sent_bounds provider tokenize s _ state

end Embedder

end CodeIndex
