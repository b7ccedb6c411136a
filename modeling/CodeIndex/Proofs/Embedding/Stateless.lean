import CodeIndex.Embedding.Embedder

/-!
# Providers without memory

How a provider answers may depend on what it was asked before.  Where it does not, its state can be
forgotten: a schedule takes the same steps whatever state the provider is in, and so a batch has the
same answers.
-/

namespace CodeIndex

/-- The answer to a text does not depend on the provider's state. -/
def Provider.Stateless {σ : Type} (p : Provider σ) : Prop :=
  ∀ text state state', (p.answer text state).1 = (p.answer text state').1

/-- The answers to a batch, after all retries, do not depend on the provider's state. -/
def Embedder.Stateless {σ : Type} (e : Embedder σ) : Prop :=
  ∀ texts state state', (e.request texts state).results = (e.request texts state').results

/-- The provider that always answers as this one does in one state. -/
def Provider.frozenAt {σ : Type} (p : Provider σ) (state : σ) : Provider Unit where
  name := p.name
  model := p.model
  delay := p.delay
  answer := fun text _ => ((p.answer text state).1, ())

/-! ## §1 Schedules -/

namespace Schedule

variable {σ : Type}

/-- The schedule without the provider's state. -/
def forget (s : Schedule σ) : Schedule Unit := ⟨s.pool, s.timers, s.now, s.log, s.moves, ()⟩

section Fields

variable (s : Schedule σ)

@[simp] theorem forget_pool : s.forget.pool = s.pool := rfl

@[simp] theorem forget_timers : s.forget.timers = s.timers := rfl

@[simp] theorem forget_now : s.forget.now = s.now := rfl

@[simp] theorem forget_log : s.forget.log = s.log := rfl

@[simp] theorem forget_moves : s.forget.moves = s.moves := rfl

@[simp] theorem forget_nextDue? : s.forget.nextDue? = s.nextDue? := rfl

end Fields

variable {policy : RetryPolicy} {provider : Provider σ} {texts : Array String} {state : σ}

private theorem outcome_forget (h : provider.Stateless) (s : Schedule σ) (i : Nat) (timer : Timer) :
    (s.forget.outcome policy (provider.frozenAt state) texts i timer).1 =
      (s.outcome policy provider texts i timer).1 := by
  unfold outcome
  cases timer.cutOff with
  | true => rfl
  | false => exact h (texts.getD i "") state s.provider

/-- A request takes the same step, if it can take one. -/
theorem move?_forget (h : provider.Stateless) (s : Schedule σ) (ahead i : Nat) :
    s.forget.move? policy (provider.frozenAt state) texts ahead i =
      (s.move? policy provider texts ahead i).map forget := by
  unfold move?
  simp only [forget_pool, forget_timers, forget_now]
  cases s.pool.phases[i]? with
  | none => rfl
  | some phase =>
    cases phase with
    | done result => rfl
    | waiting =>
      simp only [apply_ite (Option.map forget), Option.map_map, Option.map_none]
      rfl
    | sleeping failed =>
      simp only [apply_ite (Option.map forget), Option.map_map, Option.map_none]
      rfl
    | calling failed =>
      -- only here is the provider asked, and what it says is the same
      simp only [outcome_forget h, apply_ite (Option.map forget), Option.map_map, Option.map_none]
      rfl

/-- A request takes the same steps. -/
theorem advance_forget (h : provider.Stateless) (ahead i fuel : Nat) (s : Schedule σ) :
    advance policy (provider.frozenAt state) texts ahead i fuel s.forget =
      (advance policy provider texts ahead i fuel s).forget := by
  induction fuel generalizing s with
  | zero => rfl
  | succ fuel ih =>
    unfold advance
    rw [move?_forget h]
    cases s.move? policy provider texts ahead i with
    | none => rfl
    | some s' => exact ih s'

private theorem pass_forget (h : provider.Stateless) (s : Schedule σ) :
    s.forget.pass policy (provider.frozenAt state) texts =
      (s.pass policy provider texts).forget := by
  unfold pass
  -- who is in line does not depend on the provider, so the fold carries the same number
  generalize (0 : Nat) = ahead
  induction List.range texts.size generalizing s ahead with
  | nil => rfl
  | cons i rest ih =>
    rw [List.foldl_cons, List.foldl_cons]
    simp only
    rw [advance_forget h]
    exact ih _ _

private theorem execute_forget (h : provider.Stateless) (fuel : Nat) (s : Schedule σ) :
    execute policy (provider.frozenAt state) texts fuel s.forget =
      (execute policy provider texts fuel s).forget := by
  induction fuel generalizing s with
  | zero => rfl
  | succ fuel ih =>
    unfold execute
    simp only [pass_forget h, forget_moves, forget_nextDue?]
    -- whether something moved and when it goes on are read off the pool and the clock
    split
    · exact ih _
    · cases (s.pass policy provider texts).nextDue? with
      | none => rfl
      | some due => exact ih { s.pass policy provider texts with now := due }

/-- A batch has the same answers, makes the same calls and lasts as long. -/
theorem run_frozenAt (h : provider.Stateless) (policy : RetryPolicy) (maxConcurrent : Nat)
    (texts : Array String) (state state' : σ) :
    let frozen := run policy (provider.frozenAt state) maxConcurrent texts ()
    let run := run policy provider maxConcurrent texts state'
    frozen.results = run.results ∧ frozen.sent = run.sent ∧ frozen.elapsed = run.elapsed := by
  unfold run
  have hstart : start maxConcurrent texts () = (start maxConcurrent texts state').forget := rfl
  simp only [hstart, execute_forget h, forget_pool, forget_log, forget_now, and_self]

end Schedule

/-! ## §2 Embedders -/

namespace Embedder

variable {σ : Type}

/-- Retries and limits do not bring in a state of their own. -/
theorem stateless_ofProvider {p : Provider σ} (h : p.Stateless) (tokenize : String → Tokens)
    (s : EmbedderSettings) : (ofProvider p tokenize s).Stateless := by
  intro texts state state'
  -- both batches go as with a provider that is frozen in the first state
  have hfirst := (Schedule.run_frozenAt h s.retryPolicy s.maxConcurrent texts state state).1
  have hsecond := (Schedule.run_frozenAt h s.retryPolicy s.maxConcurrent texts state state').1
  exact hfirst.symm.trans hsecond

variable {e : Embedder σ}

/-- What becomes of texts does not depend on the provider's state. -/
theorem Stateless.embedTexts_outcome (h : e.Stateless) (texts : List String) (state state' : σ) :
    (e.embedTexts texts state).outcome = (e.embedTexts texts state').outcome := by
  have hresults : ∀ jobs,
      (e.requestAll jobs state).results = (e.requestAll jobs state').results := by
    intro jobs
    unfold requestAll
    split
    · rfl
    · exact h _ state state'
  unfold embedTexts
  simp only [hresults]

/-- What becomes of files does not depend on the state either. -/
theorem Stateless.embedRecords_outcome (h : e.Stateless) (records : List FileRecord)
    (state state' : σ) :
    (e.embedRecords records state).outcome = (e.embedRecords records state').outcome := by
  unfold embedRecords
  simp only [h.embedTexts_outcome _ state state']

end Embedder

end CodeIndex
