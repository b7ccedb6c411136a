import CodeIndex.Proofs.Embedding.Stateless
import CodeIndex.Proofs.Index.Models
import CodeIndex.Proofs.Store.Reopening

/-!
# Restarts

A session that is closed loses its copy of the snapshot and nothing else.  The file has the same
snapshot after every run, so the next session goes on as the old one would have:
`restarts_invisible`.  Only a provider that remembers could tell the two apart.
-/

namespace CodeIndex

open StoreSession

/-! ## §1 One run -/

namespace Indexer

variable {σ : Type} {ix : Indexer σ}

/-- Beyond the embedder's answers nothing depends on the provider's state. -/
theorem conclude_of_stateless (h : ix.embedder.Stateless) (c : Circumstances)
    (scan : List FileRecord) (w : Workload) (results : List Decomposed) (session : StoreSession)
    (state state' : σ) :
    (ix.conclude c scan w results session state).session =
        (ix.conclude c scan w results session state').session ∧
      (ix.conclude c scan w results session state).result =
        (ix.conclude c scan w results session state').result := by
  unfold conclude
  by_cases hembedding : c.cancelledAt = some .embedding
  · rw [if_pos hembedding, if_pos hembedding]
    exact ⟨rfl, rfl⟩
  rw [if_neg hembedding, if_neg hembedding]
  simp only
  rw [h.embedRecords_outcome _ state state']
  by_cases hcommitting : c.cancelledAt = some .committing
  · rw [if_pos hcommitting, if_pos hcommitting]
    exact ⟨rfl, rfl⟩
  rw [if_neg hcommitting, if_neg hcommitting]
  -- the two runs settle the same snapshot
  cases ix.settle c _ session with
  | mk session' settled =>
    cases settled with
    | ok written => exact ⟨rfl, rfl⟩
    | error e => exact ⟨rfl, rfl⟩

private theorem run_of_stateless (h : ix.embedder.Stateless) (c : Circumstances) (top : FileTree)
    (root : RawPath) (session : StoreSession) (state state' : σ) :
    (ix.run c top root session state).session = (ix.run c top root session state').session ∧
      (ix.run c top root session state).result = (ix.run c top root session state').result := by
  unfold run
  cases ix.scan top root with
  | error e => exact ⟨rfl, rfl⟩
  | ok files =>
    simp only
    unfold runOn
    -- a run that stops before embedding never sees the state
    by_cases hdecomposing : c.cancelledAt = some .decomposing
    · simp only [if_pos hdecomposing, and_self]
    by_cases hworker : c.workerFails = true
    · simp only [if_neg hdecomposing, if_pos hworker, and_self]
    simp only [if_neg hdecomposing, if_neg hworker]
    exact conclude_of_stateless h ..

end Indexer

namespace ProjectRun

variable {r r' : ProjectRun} {session : StoreSession}

/-- What a caller sees of a run does not depend on the provider's state, if its answers do not. -/
theorem SameCall.step_eq (hcall : r.SameCall r') (h : r.indexer.embedder.Stateless)
    (session : StoreSession) : r'.step session = r.step session := by
  obtain ⟨state, rfl⟩ := hcall
  obtain ⟨hsession, hresult⟩ := Indexer.run_of_stateless h r.circumstances r.top r.root session
    state r.state
  show SessionStep.mk _ _ = SessionStep.mk _ _
  exact congr (congrArg SessionStep.mk hsession) hresult

/-- After a run the file holds what is in memory, if it did so before. -/
theorem durable_step (r : ProjectRun) (h : session.Durable) : (r.step session).session.Durable := by
  rcases r.failed_or_finished session with hfailed | hfinished
  · exact h.of_eq hfailed.memory hfailed.target
  · show (r.outcome session).session.Durable
    rcases hfinished.session with hcommitted | ⟨hsame, _⟩
    · rw [hcommitted]
      exact ⟨r.readSnapshot_proposed session.memory, rfl⟩
    · rw [hsame]
      exact h

end ProjectRun

/-! ## §2 Runs that follow each other -/

namespace StoreSession

variable {session : StoreSession} {runs restarted : List ProjectRun}

private theorem durable_of_mem_inOneSession (h : session.Durable) {step : SessionStep}
    (hstep : step ∈ session.inOneSession runs) : step.session.Durable := by
  induction runs generalizing session with
  | nil => cases hstep
  | cons r rest ih =>
    have hnext := r.durable_step h
    rcases List.mem_cons.1 hstep with rfl | hstep
    · exact hnext
    · exact ih hnext hstep

/-- A new session for each run sees what one session sees, from any session that agrees with its
file. -/
theorem inNewSessions_eq (h : session.Durable)
    (hcalls : List.Forall₂ ProjectRun.SameCall runs restarted)
    (hanswers : ∀ r ∈ runs, r.indexer.embedder.Stateless) :
    inNewSessions session.disk restarted = .ok (session.inOneSession runs) := by
  induction hcalls generalizing session with
  | nil => rfl
  | @cons r r' runs restarted hcall _ ih =>
    have hstep := hcall.step_eq (hanswers r List.mem_cons_self) session
    have hrest := ih (r.durable_step h) fun r hr => hanswers r (List.mem_cons_of_mem _ hr)
    -- the new session is the old one, so its run is the same, and so are all runs after it
    unfold inNewSessions inOneSession
    rw [h.open_eq]
    show (inNewSessions (r'.step session).session.disk restarted >>= fun steps =>
      Except.ok (r'.step session :: steps)) = _
    rw [hstep, hrest]
    rfl

end StoreSession

/-- Restarts are invisible.  Runs begin without a snapshot file, and nothing else touches it; their
providers may remember what they like, as long as their answers do not depend on it, which is so for
every provider that only looks at the text (`Embedder.stateless_ofProvider`).  Then each run has the
same result and leaves the same snapshot, in memory and in the file, whether all of them share a
session or each opens the file in a session of its own; and after every run the file is read as what
is in memory. -/
theorem restarts_invisible (runs restarted : List ProjectRun)
    (hcalls : List.Forall₂ ProjectRun.SameCall runs restarted)
    (hanswers : ∀ r ∈ runs, r.indexer.embedder.Stateless) :
    inNewSessions fresh.disk restarted = .ok (fresh.inOneSession runs) ∧
      ∀ step ∈ fresh.inOneSession runs, step.session.reload = (step.session, .ok ()) :=
  ⟨inNewSessions_eq durable_fresh hcalls hanswers,
    fun _ hstep => (durable_of_mem_inOneSession durable_fresh hstep).reload_eq⟩

namespace Sample

/-- A provider with one vector for all texts that counts the texts. -/
def counting : Provider Nat where
  name := "mock"
  model := "unit"
  delay := ⟨0⟩
  answer := fun _ count => (.ok [Single.one], count + 1)

/-- The sample's run with a provider that has been asked before. -/
def counted (count : Nat) : ProjectRun :=
  ⟨{ indexer with embedder := .ofProvider counting (fun text => [text.toUTF8]) {} }, .calm, top,
    root, count⟩

/-- Two such runs differ in the state of the provider only. -/
theorem sameCall_counted (count count' : Nat) : (counted count).SameCall (counted count') :=
  ⟨count', rfl⟩

theorem stateless_run : run.indexer.embedder.Stateless :=
  Embedder.stateless_ofProvider (p := provider) (fun _ _ _ => rfl) _ _

theorem stateless_counted (count : Nat) : (counted count).indexer.embedder.Stateless :=
  Embedder.stateless_ofProvider (p := counting) (fun _ _ _ => rfl) _ _

end Sample

/-- A second run in a new session, whose provider has been asked before, says and leaves the same.
-/
theorem restarts_invisible_sample :
    inNewSessions fresh.disk [Sample.run, Sample.counted 0] =
        .ok (fresh.inOneSession [Sample.run, Sample.counted 1]) ∧
      Sample.row ∈ (Sample.run.step fresh).session.memory.rows ∧
      (Sample.run.step fresh).session.reload = ((Sample.run.step fresh).session, .ok ()) := by
  have hcalls : List.Forall₂ ProjectRun.SameCall [Sample.run, Sample.counted 1]
      [Sample.run, Sample.counted 0] :=
    .cons ⟨(), rfl⟩ (.cons (Sample.sameCall_counted 1 0) .nil)
  have hanswers : ∀ r ∈ [Sample.run, Sample.counted 1], r.indexer.embedder.Stateless := by
    intro r hr
    rcases List.mem_cons.1 hr with rfl | hr
    · exact Sample.stateless_run
    · obtain rfl := List.mem_singleton.1 hr
      exact Sample.stateless_counted 1
  obtain ⟨hsessions, hreload⟩ := restarts_invisible _ _ hcalls hanswers
  exact ⟨hsessions, Sample.memory_rows, hreload _ List.mem_cons_self⟩

end CodeIndex
