import CodeIndex.Proofs.Embedding.Pool

/-!
# Executions of batches

An execution takes one move after another, and between moves only the clock goes on:
`Schedule.Move` says once what a move can do, and `Schedule.execute_induction` is the induction over
all of them.  Every pool on the way is one that the requests can reach by themselves.
-/

namespace CodeIndex

namespace Schedule

variable {σ : Type} {policy : RetryPolicy} {provider : Provider σ} {texts : Array String}
  {s s' : Schedule σ} {ahead i : Nat}

/-! ## §1 Moves -/

/-- The timer of request `i`. -/
def timerOf (s : Schedule σ) (i : Nat) : Timer := s.timers.getD i ⟨⟨0⟩, false⟩

/-- The phase of request `i` is over. -/
def IsDue (s : Schedule σ) (i : Nat) : Prop := (s.timerOf i).due.nanos ≤ s.now.nanos

instance (s : Schedule σ) (i : Nat) : Decidable (s.IsDue i) := Nat.decLe ..

/-- What request `i` can do now, with so many requests in line before it. -/
inductive Move (policy : RetryPolicy) (provider : Provider σ) (texts : Array String)
    (s : Schedule σ) (ahead i : Nat) : Schedule σ → Prop
  | acquire {pool : Pool Embedding} (hphase : s.pool.phases[i]? = some .waiting)
      (hline : ahead < s.pool.free) (hstep : Pool.Step policy s.pool i .acquire pool) :
      Move policy provider texts s ahead i (s.called policy provider i pool)
  | answer {failed : Nat} {pool : Pool Embedding}
      (hphase : s.pool.phases[i]? = some (.calling failed)) (hdue : s.IsDue i)
      (hstep : Pool.Step policy s.pool i
        (.answer (s.outcome policy provider texts i (s.timerOf i)).1) pool) :
      Move policy provider texts s ahead i
        { s.moved i (s.timerAfter policy failed
            (s.outcome policy provider texts i (s.timerOf i)).1) pool with
          provider := (s.outcome policy provider texts i (s.timerOf i)).2 }
  | wake {failed : Nat} {pool : Pool Embedding}
      (hphase : s.pool.phases[i]? = some (.sleeping failed)) (hdue : s.IsDue i)
      (hstep : Pool.Step policy s.pool i .wake pool) :
      Move policy provider texts s ahead i (s.called policy provider i pool)

/-- The moves that a schedule makes are those that it may make. -/
theorem move?_eq_some_iff : s.move? policy provider texts ahead i = some s' ↔
    Move policy provider texts s ahead i s' := by
  constructor
  · intro h
    unfold move? at h
    simp only at h
    -- one case for each phase in which a request can be moved
    split at h
    · next hphase =>
      split at h
      · next hline =>
        obtain ⟨pool, hstep, rfl⟩ := Option.map_eq_some_iff.1 h
        exact .acquire hphase hline (Pool.step?_eq_some_iff.1 hstep)
      · cases h
    · next failed hphase =>
      split at h
      · next hdue =>
        obtain ⟨pool, hstep, rfl⟩ := Option.map_eq_some_iff.1 h
        exact .answer hphase (of_decide_eq_true hdue) (Pool.step?_eq_some_iff.1 hstep)
      · cases h
    · next failed hphase =>
      split at h
      · next hdue =>
        obtain ⟨pool, hstep, rfl⟩ := Option.map_eq_some_iff.1 h
        exact .wake hphase (of_decide_eq_true hdue) (Pool.step?_eq_some_iff.1 hstep)
      · cases h
    · cases h
  · intro h
    unfold move?
    cases h with
    | acquire hphase hline hstep =>
      simp only [hphase, if_pos hline, Pool.step?_eq_some_iff.2 hstep, Option.map_some]
    | answer hphase hdue hstep =>
      have hstep' := Pool.step?_eq_some_iff.2 hstep
      unfold IsDue timerOf at hdue
      unfold timerOf at hstep'
      simp only [hphase, decide_eq_true hdue, if_true, hstep', Option.map_some]
      rfl
    | wake hphase hdue hstep =>
      unfold IsDue timerOf at hdue
      simp only [hphase, decide_eq_true hdue, if_true, Pool.step?_eq_some_iff.2 hstep,
        Option.map_some]

/-- A move is a step of the pool. -/
theorem Move.step (h : Move policy provider texts s ahead i s') :
    ∃ e, Pool.Step policy s.pool i e s'.pool := by
  cases h with
  | acquire _ _ hstep => exact ⟨_, hstep⟩
  | answer _ _ hstep => exact ⟨_, hstep⟩
  | wake _ _ hstep => exact ⟨_, hstep⟩

/-- Every move is counted. -/
theorem Move.moves_eq (h : Move policy provider texts s ahead i s') :
    s'.moves = s.moves + 1 := by
  cases h
  all_goals rfl

/-- A request in line only stays there for want of a permit. -/
theorem free_le_of_move?_eq_none (h : s.move? policy provider texts ahead i = none)
    (hphase : s.pool.phases[i]? = some .waiting) : s.pool.free ≤ ahead := by
  by_contra hline
  obtain ⟨free, hfree⟩ := Nat.exists_eq_succ_of_ne_zero (Nat.ne_zero_of_lt (Nat.lt_of_not_le hline))
  have hmove : ∃ s', Move policy provider texts s ahead i s' :=
    ⟨_, .acquire hphase (Nat.lt_of_not_le hline) (.acquire hphase hfree)⟩
  obtain ⟨s', hmove⟩ := hmove
  rw [move?_eq_some_iff.2 hmove] at h
  cases h

/-- A request with a permit only stays where it is until its phase is over. -/
theorem not_isDue_of_move?_eq_none (h : s.move? policy provider texts ahead i = none)
    {phase : Phase Embedding} (hphase : s.pool.phases[i]? = some phase)
    (hholds : phase.holdsPermit = true) : ¬ s.IsDue i := by
  intro hdue
  -- an answer is always taken, and so is the end of a wait
  have hmove : ∃ s', Move policy provider texts s ahead i s' := by
    cases phase with
    | waiting => cases hholds
    | done result => cases hholds
    | sleeping failed => exact ⟨_, .wake hphase hdue (.wake hphase)⟩
    | calling failed =>
      obtain ⟨pool, hstep⟩ := Pool.exists_step_answer (p := policy) hphase
        (s.outcome policy provider texts i (s.timerOf i)).1
      exact ⟨_, .answer hphase hdue hstep⟩
  obtain ⟨s', hmove⟩ := hmove
  rw [move?_eq_some_iff.2 hmove] at h
  cases h

/-! ## §2 Induction over an execution -/

/-- A pass over these requests only, with so many others in line before them. -/
def passOver (policy : RetryPolicy) (provider : Provider σ) (texts : Array String)
    (requests : List Nat) (s : Schedule σ) (ahead : Nat) : Schedule σ × Nat :=
  requests.foldl (fun ((s, ahead) : Schedule σ × Nat) i =>
    let s := advance policy provider texts ahead i (movesPerRequest policy) s
    (s, if s.isWaiting i then ahead + 1 else ahead)) (s, ahead)

/-- A pass goes over all requests, from the first on. -/
theorem pass_eq_passOver (s : Schedule σ) : s.pass policy provider texts =
    (passOver policy provider texts (List.range texts.size) s 0).1 := rfl

/-- A pass advances one request as far as it goes and then turns to the rest. -/
theorem passOver_cons (i : Nat) (rest : List Nat) (s : Schedule σ) (ahead : Nat) :
    passOver policy provider texts (i :: rest) s ahead =
      let s := advance policy provider texts ahead i (movesPerRequest policy) s
      passOver policy provider texts rest s (if s.isWaiting i then ahead + 1 else ahead) := rfl

section Induction

variable {P : Schedule σ → Prop}
  (hmove : ∀ s s' ahead i, P s → Move policy provider texts s ahead i s' → P s')

include hmove

/-- What every move keeps is kept when one request is advanced. -/
theorem advance_induction (fuel : Nat) (h : P s) :
    P (advance policy provider texts ahead i fuel s) := by
  induction fuel generalizing s with
  | zero => exact h
  | succ fuel ih =>
    unfold advance
    split
    · next s' hsome => exact ih (hmove s s' ahead i h (move?_eq_some_iff.1 hsome))
    · exact h

/-- What every move keeps is kept when some requests are. -/
theorem passOver_induction (requests : List Nat) (h : P s) :
    P (passOver policy provider texts requests s ahead).1 := by
  induction requests generalizing s ahead with
  | nil => exact h
  | cons i rest ih =>
    rw [passOver_cons]
    exact ih (advance_induction hmove _ h)

/-- What every move keeps is kept by a pass. -/
theorem pass_induction (h : P s) : P (s.pass policy provider texts) :=
  passOver_induction hmove _ h

/-- What every move preserves, and what does not depend on the clock, holds of an execution if it
holds at its start. -/
theorem execute_induction (hclock : ∀ s now, P s → P { s with now := now }) (fuel : Nat) (h : P s) :
    P (execute policy provider texts fuel s) := by
  -- each round is a pass, and after a pass in which nothing moved the clock goes on
  induction fuel generalizing s with
  | zero => exact h
  | succ fuel ih =>
    have hpass := pass_induction hmove h
    unfold execute
    simp only
    split
    · exact ih hpass
    · split
      · exact ih (hclock _ _ hpass)
      · exact hpass

end Induction

/-- Whatever the provider answers, the requests of an execution only take steps of their pool. -/
theorem reachable_execute (policy : RetryPolicy) (provider : Provider σ) (maxConcurrent : Nat)
    (texts : Array String) (state : σ) (fuel : Nat) :
    (execute policy provider texts fuel (start maxConcurrent texts state)).pool.Reachable policy
      maxConcurrent texts.size := by
  refine execute_induction (P := fun s => s.pool.Reachable policy maxConcurrent texts.size) ?_
    (fun _ _ h => h) fuel .start
  intro s s' ahead i h hmove
  obtain ⟨e, hstep⟩ := hmove.step
  exact h.step (Pool.step?_eq_some_iff.2 hstep)

end Schedule

/-! ## §3 Answers -/

namespace Pool

/-- The answers of a pool, in the order of its requests. -/
def answers (pool : Pool Embedding) : List (Except ProviderError Embedding) :=
  pool.phases.toList.map fun phase => phase.result?.getD (.error Schedule.abandoned)

/-- Whichever request was over first, each answer stands at the place of its request. -/
theorem answers_eq_map {β : Type} {requests : List β} {pool : Pool Embedding}
    {outcome : β → Except ProviderError Embedding} (hsize : pool.phases.size = requests.length)
    (h : ∀ (n : Nat) q, requests[n]? = some q → pool.phases[n]? = some (.done (outcome q))) :
    pool.answers = requests.map outcome := by
  apply List.ext_getElem?
  intro n
  rw [answers, List.getElem?_map, List.getElem?_map, Array.getElem?_toList]
  -- a place beyond the requests is beyond the phases
  cases hq : requests[n]? with
  | some q => rw [h n q hq, Option.map_some, Option.map_some, Phase.result?, Option.getD_some]
  | none =>
    have hn : pool.phases.size ≤ n := by
      rw [hsize]
      exact List.getElem?_eq_none_iff.1 hq
    rw [Array.getElem?_eq_none hn, Option.map_none, Option.map_none]

end Pool

/-! ## §4 The load of a batch -/

namespace Embedder

open EmbeddingBatch

/-- The texts that the requests of a batch of files are about: one for each chunk of each unit of
each file. -/
def chunkTexts (tokenize : String → Tokens) (s : EmbedderSettings) (records : List FileRecord) :
    List String :=
  requests ((unitTexts records).map (EmbeddingBatch.jobOf tokenize s.maxTokens))

/-- However the requests of a batch take turns, and whatever the provider answers them, its load
never exceeds the limit: at most so many requests are in a call or between two attempts.  The
permits that are free and those that requests have always make up the whole pool.  The execution of
the batch is one of these ways to take turns. -/
theorem load_le_capacity (tokenize : String → Tokens) (s : EmbedderSettings)
    (records : List FileRecord) :
    (∀ pool : Pool Embedding,
      pool.Reachable s.retryPolicy s.maxConcurrent (chunkTexts tokenize s records).length →
        pool.inFlight + pool.asleep ≤ max 1 s.maxConcurrent ∧
          pool.free + pool.held = max 1 s.maxConcurrent ∧
          pool.phases.size = (chunkTexts tokenize s records).length) ∧
      ∀ {σ : Type} (provider : Provider σ) (state : σ) (fuel : Nat),
        (Schedule.execute s.retryPolicy provider (chunkTexts tokenize s records).toArray fuel
          (.start s.maxConcurrent (chunkTexts tokenize s records).toArray state)).pool.Reachable
            s.retryPolicy s.maxConcurrent (chunkTexts tokenize s records).length := by
  constructor
  · intro pool hreachable
    have hsound := hreachable.sound
    have hpermits : pool.free + pool.held = max 1 s.maxConcurrent := hsound.permits
    refine ⟨?_, hpermits, hsound.size⟩
    -- what is held is at most all permits
    rw [← pool.held_eq, ← hpermits]
    exact Nat.le_add_left ..
  · intro σ provider state fuel
    exact Schedule.reachable_execute s.retryPolicy provider s.maxConcurrent _ state fuel

end Embedder

namespace Sample

/-- A file of two units. -/
def twoUnits : FileRecord := ⟨"a.py", "1", [.ofGlobalCode "x", .ofGlobalCode "y"]⟩

/-- Settings under which requests go one by one. -/
def oneByOne : EmbedderSettings := { maxConcurrent := 1 }

/-- The first of two requests waits for its second attempt, and the other one is in line. -/
def retrying : Pool Embedding := ⟨0, #[.sleeping 1, .waiting]⟩

/-- The sample comes about by steps of the pool. -/
theorem retrying_reachable : retrying.Reachable oneByOne.retryPolicy oneByOne.maxConcurrent 2 := by
  have hcalled : Pool.Reachable oneByOne.retryPolicy oneByOne.maxConcurrent 2
      (⟨0, #[.calling 0, .waiting]⟩ : Pool Embedding) :=
    Pool.Reachable.start.step (i := 0) (e := .acquire) rfl
  exact hcalled.step (i := 0) (e := .answer (.error (.unavailable 503))) rfl

end Sample

/-- A request keeps its permit while it waits for another attempt. -/
theorem Embedder.load_le_capacity_sample :
    Sample.retrying.inFlight + Sample.retrying.asleep = 1 ∧
      Sample.retrying.inFlight + Sample.retrying.asleep ≤ max 1 Sample.oneByOne.maxConcurrent ∧
      Sample.retrying.free + Sample.retrying.held = max 1 Sample.oneByOne.maxConcurrent := by
  have hlength : (chunkTexts (fun text => [text.toUTF8]) Sample.oneByOne
      [Sample.twoUnits]).length = 2 := by decide
  obtain ⟨hpools, _⟩ :=
    load_le_capacity (fun text => [text.toUTF8]) Sample.oneByOne [Sample.twoUnits]
  obtain ⟨hload, hpermits, _⟩ := hpools Sample.retrying (hlength ▸ Sample.retrying_reachable)
  exact ⟨rfl, hload, hpermits⟩

end CodeIndex
