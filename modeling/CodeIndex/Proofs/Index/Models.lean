import CodeIndex.Proofs.Index.Flat

/-!
# One model per snapshot

Vectors of different models cannot be compared, so a snapshot must not hold both.  Rows are carried
forward and units are taken over only where the snapshot says that the model of the run embedded it,
and it says so of all rows at once.
-/

namespace CodeIndex

open EmbeddingBatch Snapshot StoreSession

/-! ## §1 Provenance of vectors -/

/-- The vector of a unit was the embedder's answer to its text in a run with this model. -/
def VectorFrom (events : List SessionEvent) (model : String) (u : CodeUnit) : Prop :=
  ∃ v, u.embedding = some v ∧ ∃ before r rest, events = before ++ .run r :: rest ∧
    r.modelId = model ∧ (u.sourceText, .ok v) ∈ r.answers (after before)

/-- A longer history has the same run in it. -/
theorem VectorFrom.later {events : List SessionEvent} {model : String} {u : CodeUnit}
    (h : VectorFrom events model u) (event : SessionEvent) :
    VectorFrom (events ++ [event]) model u := by
  obtain ⟨v, hv, before, r, rest, rfl, hmodel, hanswer⟩ := h
  exact ⟨v, hv, before, r, rest ++ [event], by simp, hmodel, hanswer⟩

/-! ## §2 The invariant -/

/-- The snapshot names one model, and all its vectors come from runs with that model. -/
def OneModel (events : List SessionEvent) (s : Snapshot) : Prop :=
  s.rows ≠ [] → ∃ model, s.model = some model ∧ ∀ row ∈ s.rows, VectorFrom events model row.unit

/-- What a run proposes has one model if what it started from had. -/
theorem OneModel.proposed {events : List SessionEvent} {r : ProjectRun}
    (hfinished : r.Finished (after events)) (h : OneModel events (after events).memory) :
    OneModel (events ++ [.run r]) (r.proposed (after events).memory) := by
  intro hrows
  refine ⟨r.modelId, ?_, ?_⟩
  · rw [r.proposed_model, if_neg hrows]
  · apply Workload.forall_unit_nextSnapshot
    · -- rows are only used again if their model is that of the run
      intro hreuse row hrow
      have hne := List.ne_nil_of_mem hrow
      obtain ⟨model, hmodel, hunits⟩ := h hne
      have hsame : model = r.modelId := by
        simpa [embeddedBy, List.isEmpty_iff, hne, hmodel] using hreuse
      rw [← hsame]
      exact (hunits row hrow).later _
    · -- and new vectors are from this very run
      intro g hg u hu
      obtain ⟨v, hv, hreply⟩ := r.mem_replies_of_embedded _ hg hu
      refine ⟨v, hv, events, r, [], rfl, rfl, ?_⟩
      rw [r.answers_of_finished hfinished]
      exact hreply

/-- Throughout every history a snapshot names one model for all its vectors. -/
theorem oneModel_of_mem_snapshots {events : List SessionEvent} {s : Snapshot}
    (hs : s ∈ (after events).snapshots) : OneModel events s := by
  have hholds : Holds (OneModel events) (after events) := by
    apply after_induction
    · intro hempty
      exact absurd rfl hempty
    · intro events event s h hrows
      obtain ⟨model, hmodel, hunits⟩ := h hrows
      exact ⟨model, hmodel, fun row hrow => (hunits row hrow).later event⟩
    · intro events r hfinished h
      exact h.proposed hfinished
  exact hholds.of_mem_snapshots hs

/-- Every row is embedded. -/
theorem embedding_isSome_of_mem_snapshots {events : List SessionEvent} {s : Snapshot}
    (hs : s ∈ (after events).snapshots) {row : SnapshotRow} (hrow : row ∈ s.rows) :
    row.unit.embedding.isSome = true := by
  obtain ⟨_, _, hunits⟩ := oneModel_of_mem_snapshots hs (List.ne_nil_of_mem hrow)
  obtain ⟨v, hv, _⟩ := hunits row hrow
  rw [hv]
  rfl

/-- Vectors of different models never mix: whatever happened before, a snapshot with rows names a
model, and each of its rows has a vector that the embedder gave for its text in a run with that
model. -/
theorem vectors_of_one_model (events : List SessionEvent) (s : Snapshot)
    (hs : s ∈ (after events).snapshots) (hrows : s.rows ≠ []) :
    ∃ model, s.model = some model ∧ ∀ row ∈ s.rows, VectorFrom events model row.unit :=
  oneModel_of_mem_snapshots hs hrows

/-- The sample's row has a vector of the sample's model. -/
theorem vectors_of_one_model_sample : Sample.row ∈ (after [.run Sample.run]).memory.rows ∧
    ∃ model, (after [.run Sample.run]).memory.model = some model ∧
      ∀ row ∈ (after [.run Sample.run]).memory.rows,
        VectorFrom [.run Sample.run] model row.unit :=
  ⟨Sample.memory_rows, vectors_of_one_model [.run Sample.run] _ List.mem_cons_self
    (List.ne_nil_of_mem Sample.memory_rows)⟩

end CodeIndex
