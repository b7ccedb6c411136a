import CodeIndex.Proofs.Embedding.Schedule

/-!
# Executions come to an end

As long as a request is not over, it can take a step, now or when its phase is over, and each step
leaves less to do.  So the fuel of `Schedule.run` always suffices, and no request is abandoned:
`Schedule.run_over`.
-/

namespace CodeIndex

/-- Every request is over. -/
def Pool.Over {α : Type} (pool : Pool α) : Prop :=
  ∀ (i : Nat) (phase : Phase α), pool.phases[i]? = some phase → ∃ result, phase = .done result

namespace Schedule

variable {σ : Type} {policy : RetryPolicy} {provider : Provider σ} {texts : Array String}
  {s s' : Schedule σ} {ahead i : Nat}

/-! ## §1 Schedules of a batch -/

/-- A schedule of `n` requests with so many permits. -/
structure Sound (policy : RetryPolicy) (capacity n : Nat) (s : Schedule σ) : Prop where
  pool : s.pool.Sound policy capacity n
  timers : s.timers.size = n

/-- The most steps that are left of a batch. -/
def stepsLeft (policy : RetryPolicy) (s : Schedule σ) : Nat :=
  s.pool.total (Phase.stepsLeft policy.budget)

private theorem Move.timers_size (h : Move policy provider texts s ahead i s') :
    s'.timers.size = s.timers.size := by
  cases h
  all_goals exact Array.size_setIfInBounds

/-- A move keeps permits and timers in order. -/
theorem Move.sound {capacity n : Nat} (h : Move policy provider texts s ahead i s')
    (hsound : s.Sound policy capacity n) : s'.Sound policy capacity n := by
  obtain ⟨e, hstep⟩ := h.step
  exact ⟨hsound.pool.step hstep, h.timers_size.trans hsound.timers⟩

private theorem Move.stepsLeft_lt {capacity n : Nat} (h : Move policy provider texts s ahead i s')
    (hsound : s.Sound policy capacity n) : s'.stepsLeft policy < s.stepsLeft policy := by
  obtain ⟨e, hstep⟩ := h.step
  exact hstep.total_stepsLeft_lt hsound.pool

/-- What the moves of sound schedules preserve, and what does not depend on the clock, holds of an
execution if it holds at its start. -/
theorem sound_execute_induction {P : Schedule σ → Prop} {capacity n : Nat}
    (hmove : ∀ s s' ahead i, s.Sound policy capacity n → P s →
      Move policy provider texts s ahead i s' → P s')
    (hclock : ∀ s now, P s → P { s with now := now }) (fuel : Nat)
    (hsound : s.Sound policy capacity n) (h : P s) :
    (execute policy provider texts fuel s).Sound policy capacity n ∧
      P (execute policy provider texts fuel s) := by
  refine execute_induction (P := fun s => s.Sound policy capacity n ∧ P s) ?_ ?_ fuel ⟨hsound, h⟩
  · intro s s' ahead i h hstep
    exact ⟨hstep.sound h.1, hmove s s' ahead i h.1 h.2 hstep⟩
  · intro s now h
    exact ⟨⟨h.1.pool, h.1.timers⟩, hclock s now h.2⟩

/-- A pass takes at least as many steps off what is left as it counts. -/
theorem pass_stepsLeft (provider : Provider σ) (texts : Array String) {capacity n : Nat}
    (hsound : s.Sound policy capacity n) :
    (s.pass policy provider texts).Sound policy capacity n ∧
      (s.pass policy provider texts).stepsLeft policy + (s.pass policy provider texts).moves ≤
        s.stepsLeft policy + s.moves := by
  refine pass_induction (P := fun t => t.Sound policy capacity n ∧
    t.stepsLeft policy + t.moves ≤ s.stepsLeft policy + s.moves) ?_ ⟨hsound, Nat.le_refl _⟩
  rintro t t' ahead i ⟨ht, hle⟩ hmove
  have hlt := hmove.stepsLeft_lt ht
  have hmoves := hmove.moves_eq
  exact ⟨hmove.sound ht, by omega⟩

/-! ## §2 A pass in which nothing moves -/

private theorem moves_le_advance (ahead i fuel : Nat) (s : Schedule σ) :
    s.moves ≤ (advance policy provider texts ahead i fuel s).moves := by
  refine advance_induction (P := fun t => s.moves ≤ t.moves) ?_ fuel (Nat.le_refl _)
  intro t t' _ _ hle hmove
  rw [hmove.moves_eq]
  exact Nat.le_succ_of_le hle

private theorem moves_le_passOver (requests : List Nat) (s : Schedule σ) (ahead : Nat) :
    s.moves ≤ (passOver policy provider texts requests s ahead).1.moves := by
  refine passOver_induction (P := fun t => s.moves ≤ t.moves) ?_ requests (Nat.le_refl _)
  intro t t' _ _ hle hmove
  rw [hmove.moves_eq]
  exact Nat.le_succ_of_le hle

private theorem advance_still {fuel : Nat}
    (h : (advance policy provider texts ahead i (fuel + 1) s).moves ≤ s.moves) :
    s.move? policy provider texts ahead i = none ∧
      advance policy provider texts ahead i (fuel + 1) s = s := by
  unfold advance at h ⊢
  cases hmove : s.move? policy provider texts ahead i with
  | none => exact ⟨rfl, rfl⟩
  | some s' =>
    rw [hmove] at h
    -- a move would have been counted
    have hcount := (move?_eq_some_iff.1 hmove).moves_eq
    have hle : s'.moves ≤ (advance policy provider texts ahead i fuel s').moves :=
      moves_le_advance ahead i fuel s'
    simp only at h
    omega

/-- If no request takes a step, then none can, with all those in line that come before it. -/
theorem passOver_still {requests : List Nat}
    (h : (passOver policy provider texts requests s ahead).1.moves ≤ s.moves) :
    (passOver policy provider texts requests s ahead).1 = s ∧
      ∀ before i after, requests = before ++ i :: after →
        s.move? policy provider texts (ahead + before.countP s.isWaiting) i = none := by
  induction requests generalizing ahead with
  | nil =>
    refine ⟨rfl, fun before i after hsplit => ?_⟩
    cases before with
    | nil => cases hsplit
    | cons j before => cases hsplit
  | cons i rest ih =>
    rw [passOver_cons] at h ⊢
    have hstill : s.move? policy provider texts ahead i = none ∧
        advance policy provider texts ahead i (movesPerRequest policy) s = s :=
      advance_still (Nat.le_trans (moves_le_passOver rest _ _) h)
    rw [hstill.2] at h ⊢
    -- as the first request has not moved, the others are looked at in the same schedule
    obtain ⟨hsame, hrest⟩ := ih h
    refine ⟨hsame, fun before j after hsplit => ?_⟩
    -- the request is the first of the list, or it is among the others and the first is before it
    cases before with
    | nil =>
      obtain ⟨rfl, rfl⟩ := List.cons_eq_cons.1 hsplit
      exact hstill.1
    | cons j' before =>
      obtain ⟨rfl, htail⟩ := List.cons_eq_cons.1 hsplit
      have hnone := hrest before j after htail
      rw [List.countP_cons]
      split at hnone
      · next hwaiting =>
        rw [if_pos hwaiting, Nat.add_comm _ 1, ← Nat.add_assoc]
        exact hnone
      · next hwaiting =>
        rw [if_neg hwaiting]
        exact hnone

/-- No request can take a step now. -/
structure Stuck (s : Schedule σ) : Prop where
  notDue : ∀ (i : Nat) (phase : Phase Embedding), s.pool.phases[i]? = some phase →
    phase.holdsPermit = true → ¬ s.IsDue i
  noPermit : ∀ i : Nat, s.pool.phases[i]? = some .waiting → s.pool.free = 0

private theorem isWaiting_iff : s.isWaiting i = true ↔ s.pool.phases[i]? = some .waiting := by
  unfold isWaiting
  split
  · next h => simp [h]
  · next h => simpa using h

private theorem pass_still {capacity : Nat} (hsound : s.Sound policy capacity texts.size)
    (h : (s.pass policy provider texts).moves ≤ s.moves) :
    s.pass policy provider texts = s ∧ s.Stuck := by
  rw [pass_eq_passOver] at h ⊢
  obtain ⟨hsame, hnone⟩ := passOver_still h
  have hrange : ∀ i phase, s.pool.phases[i]? = some phase → i ∈ List.range texts.size := by
    intro i phase hphase
    rw [List.mem_range, ← hsound.pool.size]
    exact Pool.lt_size_of_phase hphase
  refine ⟨hsame, ?_, ?_⟩
  · intro i phase hphase hholds hdue
    obtain ⟨before, after, hsplit⟩ := List.append_of_mem (hrange i phase hphase)
    exact not_isDue_of_move?_eq_none (hnone before i after hsplit) hphase hholds hdue
  · intro i hphase
    -- the first request in line has nobody before it, so there can be no permit for it
    have hwaiting : ((List.range texts.size).find? s.isWaiting).isSome = true :=
      List.find?_isSome.2 ⟨i, hrange i _ hphase, isWaiting_iff.2 hphase⟩
    obtain ⟨first, hfirst⟩ := Option.isSome_iff_exists.1 hwaiting
    obtain ⟨hfirst, before, after, hsplit, hbefore⟩ := List.find?_eq_some_iff_append.1 hfirst
    have hcount : before.countP s.isWaiting = 0 :=
      List.countP_eq_zero.2 fun j hj => by simpa using hbefore j hj
    have hfree := free_le_of_move?_eq_none (hnone before first after hsplit)
      (isWaiting_iff.1 hfirst)
    rw [hcount] at hfree
    exact Nat.le_zero.1 hfree

/-! ## §3 The next moment -/

/-- The earlier one of a moment and the end of a phase, if the request has a permit. -/
def earlier (best : Option Duration) (x : Phase Embedding × Timer) : Option Duration :=
  if x.1.holdsPermit then
    match best with
    | none => some x.2.due
    | some d => some (d.min x.2.due)
  else best

private theorem nextDue?_eq (s : Schedule σ) :
    s.nextDue? = (s.pool.phases.toList.zip s.timers.toList).foldl earlier none := by
  unfold nextDue?
  rw [← Array.foldl_toList, Array.toList_zip]
  rfl

private theorem foldl_earlier_eq_none {xs : List (Phase Embedding × Timer)} {best : Option Duration}
    (h : xs.foldl earlier best = none) :
    best = none ∧ ∀ x ∈ xs, x.1.holdsPermit = false := by
  induction xs generalizing best with
  | nil => exact ⟨h, fun _ hx => absurd hx List.not_mem_nil⟩
  | cons x xs ih =>
    obtain ⟨hnone, hrest⟩ := ih h
    unfold earlier at hnone
    split at hnone
    · -- a request with a permit would leave a moment behind
      split at hnone
      · cases hnone
      · cases hnone
    · next hholds =>
      refine ⟨hnone, fun y hy => ?_⟩
      rcases List.mem_cons.1 hy with rfl | hy
      · exact Bool.eq_false_iff.2 hholds
      · exact hrest y hy

private theorem foldl_earlier_eq_some {xs : List (Phase Embedding × Timer)} {best : Option Duration}
    {due : Duration} (h : xs.foldl earlier best = some due) :
    best = some due ∨ ∃ x ∈ xs, x.1.holdsPermit = true ∧ x.2.due = due := by
  induction xs generalizing best with
  | nil => exact .inl h
  | cons x xs ih =>
    rcases ih h with hbest | ⟨y, hy, hdue⟩
    · unfold earlier at hbest
      split at hbest
      · next hholds =>
        split at hbest
        · exact .inr ⟨x, List.mem_cons_self, hholds, Option.some.inj hbest⟩
        · next d =>
          -- the earlier of two moments is one of them
          have hmin : d.min x.2.due = d ∨ d.min x.2.due = x.2.due := by
            unfold Duration.min
            rcases Nat.le_total d.nanos x.2.due.nanos with hle | hle
            · exact .inl (congrArg Duration.mk (Nat.min_eq_left hle))
            · exact .inr (congrArg Duration.mk (Nat.min_eq_right hle))
          rw [← Option.some.inj hbest]
          rcases hmin with hmin | hmin
          · exact .inl (by rw [hmin])
          · exact .inr ⟨x, List.mem_cons_self, hholds, hmin.symm⟩
      · exact .inl hbest
    · exact .inr ⟨y, List.mem_cons_of_mem x hy, hdue⟩

private theorem holdsPermit_of_nextDue? {capacity n : Nat} (hsound : s.Sound policy capacity n)
    (h : s.nextDue? = none) {phase : Phase Embedding} (hphase : s.pool.phases[i]? = some phase) :
    phase.holdsPermit = false := by
  rw [nextDue?_eq] at h
  have hi : i < s.timers.size := by
    rw [hsound.timers, ← hsound.pool.size]
    exact Pool.lt_size_of_phase hphase
  have hmem : (phase, s.timers[i]) ∈ s.pool.phases.toList.zip s.timers.toList := by
    refine List.mem_of_getElem? (i := i) (List.getElem?_zip_eq_some.2 ⟨?_, ?_⟩)
    · exact Array.getElem?_toList.trans hphase
    · exact Array.getElem?_toList.trans (Array.getElem?_eq_getElem hi)
  exact (foldl_earlier_eq_none h).2 _ hmem

private theorem exists_due_of_nextDue? {due : Duration} (h : s.nextDue? = some due) :
    ∃ i phase, s.pool.phases[i]? = some phase ∧ phase.holdsPermit = true ∧
      (s.timerOf i).due = due := by
  rw [nextDue?_eq] at h
  rcases foldl_earlier_eq_some h with hnone | ⟨⟨phase, timer⟩, hmem, hholds, hdue⟩
  · cases hnone
  · obtain ⟨i, hi⟩ := List.mem_iff_getElem?.1 hmem
    obtain ⟨hphase, htimer⟩ := List.getElem?_zip_eq_some.1 hi
    rw [Array.getElem?_toList] at hphase htimer
    refine ⟨i, phase, hphase, hholds, ?_⟩
    rw [timerOf, Array.getD_eq_getD_getElem?, htimer]
    exact hdue

/-! ## §4 The end -/

/-- Where nobody can move, now or later, everybody is done. -/
theorem over_of_stuck {maxConcurrent n : Nat}
    (hsound : s.Sound policy (Pool.capacity maxConcurrent) n) (hstuck : s.Stuck)
    (h : s.nextDue? = none) : s.pool.Over := by
  -- nobody has a permit, so all of them are free, and there is at least one
  have hheld : s.pool.held = 0 := by
    refine Array.countP_eq_zero.2 fun phase hmem => ?_
    obtain ⟨i, hi⟩ := Array.mem_iff_getElem?.1 hmem
    rw [holdsPermit_of_nextDue? hsound h hi]
    exact Bool.false_ne_true
  have hfree : s.pool.free = Pool.capacity maxConcurrent := by
    have hpermits := hsound.pool.permits
    rw [Pool.permits, hheld] at hpermits
    exact hpermits
  have hpositive : 0 < Pool.capacity maxConcurrent := Nat.le_max_left ..
  intro i phase hphase
  have hholds := holdsPermit_of_nextDue? hsound h hphase
  cases phase with
  | done result => exact ⟨result, rfl⟩
  | calling failed => cases hholds
  | sleeping failed => cases hholds
  | waiting =>
    have hnone := hstuck.noPermit i hphase
    omega

/-- Fuel for twice the steps that are left is enough.  Where the clock has just gone on to the end
of a phase, one unit less will do, since the next pass takes a step. -/
theorem execute_over {maxConcurrent fuel : Nat}
    (hsound : s.Sound policy (Pool.capacity maxConcurrent) texts.size)
    (hfuel : 2 * s.stepsLeft policy + 2 ≤ fuel ∨ 2 * s.stepsLeft policy + 1 ≤ fuel ∧ ¬ s.Stuck) :
    (execute policy provider texts fuel s).pool.Over := by
  -- a pass that moves a request takes a step off, which pays for two units of fuel
  induction fuel generalizing s with
  | zero => omega
  | succ fuel ih =>
    obtain ⟨hpass, hleft⟩ := pass_stepsLeft provider texts hsound
    unfold execute
    simp only
    split
    · next hmoved => exact ih hpass (.inl (by omega))
    · next hmoved =>
      obtain ⟨hsame, hstuck⟩ := pass_still hsound (Nat.le_of_not_lt hmoved)
      have hfuel' : 2 * s.stepsLeft policy + 2 ≤ fuel + 1 :=
        hfuel.resolve_right fun h => h.2 hstuck
      rw [hsame]
      split
      · next due hdue =>
        obtain ⟨i, phase, hphase, hholds, htimer⟩ := exists_due_of_nextDue? hdue
        refine ih ⟨hsound.pool, hsound.timers⟩ (.inr ⟨Nat.le_of_succ_le_succ hfuel', ?_⟩)
        -- at the moment to which the clock goes, the phase of that request is over
        intro hstuck'
        refine hstuck'.notDue i phase hphase hholds ?_
        show (s.timerOf i).due.nanos ≤ due.nanos
        exact Nat.le_of_eq (congrArg Duration.nanos htimer)
      · next hnone => exact over_of_stuck hsound hstuck hnone

/-- At the start every request waits, and all permits are there. -/
theorem start_sound (policy : RetryPolicy) (maxConcurrent : Nat) (texts : Array String)
    (state : σ) : (start maxConcurrent texts state).Sound policy (Pool.capacity maxConcurrent)
      texts.size :=
  ⟨.start policy maxConcurrent texts.size, Array.size_replicate⟩

private theorem start_stepsLeft (policy : RetryPolicy) (maxConcurrent : Nat) (texts : Array String)
    (state : σ) : (start maxConcurrent texts state).stepsLeft policy =
      texts.size * (2 * policy.budget) := by
  show ((Array.replicate texts.size Phase.waiting).toList.map _).sum = _
  rw [Array.toList_replicate, List.map_replicate, List.sum_replicate]
  rfl

/-- A batch is executed to its end. -/
theorem run_over (policy : RetryPolicy) (provider : Provider σ) (maxConcurrent : Nat)
    (texts : Array String) (state : σ) :
    (execute policy provider texts (2 * (texts.size * movesPerRequest policy) + 2)
      (start maxConcurrent texts state)).pool.Over := by
  refine execute_over (start_sound policy maxConcurrent texts state) (.inl ?_)
  rw [start_stepsLeft]
  have hmoves : texts.size * (2 * policy.budget) ≤ texts.size * movesPerRequest policy :=
    Nat.mul_le_mul_left _ (Nat.le_add_right ..)
  omega

end Schedule

end CodeIndex
