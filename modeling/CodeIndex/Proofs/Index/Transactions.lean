import CodeIndex.Proofs.Index.Models

/-!
# Runs as transactions

A run has many ways to fail, between the ignore rules and the renaming of the temporary file, and
only one place where it changes anything.  So either all of a run happens or nothing of it:
`ProjectRun.all_or_nothing`, and `ProjectRun.fails_iff` lists what can go wrong.
-/

namespace CodeIndex

open StoreSession

/-! ## §1 When a run fails -/

/-- A snapshot is not settled where nobody can tell whether it has to be written, and where it has
to be written and something keeps it from being so. -/
theorem Indexer.settle_fails_iff {σ : Type} (ix : Indexer σ) (c : Circumstances) (next : Snapshot)
    (st : StoreSession) : (∃ e, (ix.settle c next st).2 = .error e) ↔
      (∃ e, Indexer.mustWrite c next st = .error e) ∨
        Indexer.mustWrite c next st = .ok true ∧ ¬ st.disk.Writable c.writeFails next := by
  unfold Indexer.settle
  cases Indexer.mustWrite c next st with
  | error e => simp
  | ok write =>
    cases write with
    | false => simp
    | true =>
      -- from here on settling is committing
      rw [← st.commit_fails_iff c.writeFails ix.snapshotPath next]
      cases st.commit c.writeFails ix.snapshotPath next with
      | mk st' result => cases result <;> simp

namespace ProjectRun

variable (r : ProjectRun) (session : StoreSession)

/-- A run fails if it cannot scan the folder, is cancelled, loses a worker, cannot tell whether the
snapshot is there, or has a snapshot to write and cannot write it; nothing else can happen to it. -/
theorem fails_iff : (∃ e, (r.outcome session).result = .error e) ↔
    (∃ e, r.indexer.scan r.top r.root = .error e) ∨ r.circumstances.cancelledAt ≠ none ∨
      r.circumstances.workerFails = true ∨
      (∃ e, Indexer.mustWrite r.circumstances (r.proposed session.memory) session = .error e) ∨
      Indexer.mustWrite r.circumstances (r.proposed session.memory) session = .ok true ∧
        ¬ session.disk.Writable r.circumstances.writeFails (r.proposed session.memory) := by
  cases hscan : r.indexer.scan r.top r.root with
  | error e => exact ⟨fun _ => .inl ⟨e, rfl⟩, fun _ => (r.stopped_of_scan session hscan).error⟩
  | ok files =>
    obtain rfl := r.files_of_scan hscan
    by_cases hcut : r.circumstances.cancelledAt ≠ none ∨ r.circumstances.workerFails = true
    · constructor
      · intro _
        rcases hcut with hcancelled | hworker
        · exact .inr (.inl hcancelled)
        · exact .inr (.inr (.inl hworker))
      · intro _
        exact (r.stopped_of_cutShort session hcut).error
    · -- a run that is not cut short answers as the settling of its proposal does
      obtain ⟨hcancelled, hworkers⟩ := not_or.1 hcut
      have hout := r.outcome_eq_settled session hscan (Classical.not_not.1 hcancelled)
        (Bool.eq_false_iff.2 hworkers)
      simp only [reduceCtorEq, exists_false, false_or, hcancelled, hworkers]
      rw [← r.indexer.settle_fails_iff, hout]
      cases r.indexer.settle r.circumstances (r.proposed session.memory) session with
      | mk session' settled => cases settled <;> simp

end ProjectRun

/-! ## §2 What a run changes -/

/-- Where something was found that was not a folder, it was a file. -/
theorem FileTree.Occupant.eq_file_of_exists? {o : FileTree.Occupant}
    (h : o.exists? = .ok true) (hfolder : o ≠ .folder) : ∃ content, o = .file content := by
  cases o with
  | nothing => cases h
  | folder => exact absurd rfl hfolder
  | file content => exact ⟨content, rfl⟩
  | blocked e => cases h

namespace ProjectRun

variable (r : ProjectRun) (session : StoreSession)

/-- No run leaves a temporary file behind. -/
theorem temporary_of_outcome {content : FileContent}
    (h : (r.outcome session).session.disk.temporary = some content) :
    session.disk.temporary = some content := by
  -- no ending leaves a temporary file that was not there before
  cases r.ending session with
  | stopped hstopped =>
    rw [hstopped.session] at h
    exact h
  | undone _ hsession =>
    rw [hsession] at h
    cases h
  | finished hfinished _ =>
    rcases hfinished.session with hcommitted | ⟨hsame, _⟩
    · rw [hcommitted] at h
      cases h
    · rw [hsame] at h
      exact h

/-- The rows of the units that the run has to add, file by file. -/
def addedRows (memory : Snapshot) : List SnapshotRow :=
  ((r.embedded memory).records ++ (r.workload memory).relocated).flatMap fun f =>
    f.units.map fun u => ⟨f.filepath, f.checksum, u⟩

/-- The rows are those of `memory` that are carried forward together with the added ones: in the
order of their paths, and under each path first the carried rows and then the added ones, each in
theirs. -/
structure Merges (memory : Snapshot) (rows : List SnapshotRow) : Prop where
  sorted : rows.Pairwise fun a b => a.filepath ≤ b.filepath
  rowsAt : ∀ p, Snapshot.rowsAt rows p =
    (Snapshot.rowsAt memory.rows p).filter (fun row =>
      decide (row.key ∈ (r.workload memory).plan.carried)) ++
        Snapshot.rowsAt (r.addedRows memory) p

/-- There is only one way to merge. -/
theorem Merges.unique {memory : Snapshot} {rows rows' : List SnapshotRow} (h : r.Merges memory rows)
    (h' : r.Merges memory rows') : rows = rows' :=
  Snapshot.eq_of_rowsAt_eq h.sorted h'.sorted fun p => (h.rowsAt p).trans (h'.rowsAt p).symm

private theorem proposed_merges (memory : Snapshot) : r.Merges memory (r.proposed memory).rows where
  sorted := Snapshot.sorted_merge ..
  rowsAt p := by
    have hmerged :=
      Snapshot.rowsAt_merge memory (r.workload memory).plan.carried (r.addedRows memory) p
    simp only [List.contains_eq_mem] at hmerged
    exact hmerged

/-- All of a run happens or nothing of it.  When it fails, memory and the file are as they were.
When it ends well, the rows in memory are those carried forward merged with the added ones, the
model is that of the run unless there are no rows, the incomplete files are those that lost a unit
in this run, and the file is there.  Memory is only left as it was where its rows say the same
already, vectors compared as numbers.  In neither case is there a temporary file that was not there
before. -/
theorem all_or_nothing :
    (∀ e, (r.outcome session).result = .error e →
      (r.outcome session).session.memory = session.memory ∧
        (r.outcome session).session.disk.target = session.disk.target) ∧
    (∀ report, (r.outcome session).result = .ok report →
      let memory := (r.outcome session).session.memory
      (∃ rows, r.Merges session.memory rows ∧ (memory.rows = rows ∨
          memory = session.memory ∧
            List.Forall₂ (fun row row' => row.sameContent row' = true) rows memory.rows)) ∧
        memory.model = (if memory.rows = [] then none else some r.modelId) ∧
        (∀ key, key ∈ memory.incomplete ↔
          ∃ failure ∈ (r.embedded session.memory).failures, failure.key = key) ∧
        (r.outcome session).session.disk.target.exists? = .ok true ∧
        (session.disk.target ≠ .folder →
          ∃ content, (r.outcome session).session.disk.target = .file content)) ∧
    ∀ content, (r.outcome session).session.disk.temporary = some content →
      session.disk.temporary = some content := by
  refine ⟨fun e herror => ?_, fun report hok => ?_, fun content => r.temporary_of_outcome session⟩
  · have hfailed := r.failed_of_error session herror
    exact ⟨hfailed.memory, hfailed.target⟩
  · obtain ⟨hfinished, hexists⟩ := r.finished_of_ok session hok
    have hmerges := r.proposed_merges session.memory
    refine ⟨⟨_, hmerges, ?_⟩, hfinished.model_eq, hfinished.mem_incomplete_iff, hexists,
      fun hfolder => ?_⟩
    · rcases hfinished.session with hcommitted | ⟨hsame, hcontent⟩
      · exact .inl (by rw [hcommitted])
      · rw [hsame]
        exact .inr ⟨rfl, Snapshot.forall₂_of_sameContent hcontent⟩
    · -- a folder is never put there by the run itself
      apply FileTree.Occupant.eq_file_of_exists? hexists
      rcases hfinished.session with hcommitted | ⟨hsame, _⟩
      · rw [hcommitted]
        exact nofun
      · rw [hsame]
        exact hfolder

end ProjectRun

namespace Sample

/-- The sample's run, cancelled before it starts. -/
def cancelled : ProjectRun := { run with circumstances := .cancelled }

/-- A cancelled run does nothing, from whatever session. -/
theorem cancelled_stopped (session : StoreSession) : cancelled.Stopped session :=
  cancelled.stopped_of_cutShort session (.inl nofun)

end Sample

/-- A run that is cancelled leaves the row of the run before it alone, which had the model of that
run and was marked nowhere. -/
theorem ProjectRun.all_or_nothing_sample :
    (∃ e, (Sample.cancelled.outcome (after [.run Sample.run])).result = .error e) ∧
      Sample.row ∈ (Sample.cancelled.outcome (after [.run Sample.run])).session.memory.rows ∧
      (∃ report, (Sample.run.outcome fresh).result = .ok report) ∧
      (Sample.run.outcome fresh).session.memory.model = some Sample.run.modelId ∧
      Sample.row.key ∉ (Sample.run.outcome fresh).session.memory.incomplete ∧
      ∃ content, (Sample.run.outcome fresh).session.disk.target = .file content := by
  obtain ⟨e, herror⟩ := (Sample.cancelled_stopped (after [.run Sample.run])).error
  have hfailed := (ProjectRun.all_or_nothing Sample.cancelled _).1 e herror
  obtain ⟨_, hmodel, hincomplete, _, hfile⟩ :=
    (ProjectRun.all_or_nothing Sample.run fresh).2.1 _ Sample.finished.result
  -- the run has a row, so it is tagged with its model
  have hrows : (Sample.run.outcome fresh).session.memory.rows ≠ [] :=
    List.ne_nil_of_mem Sample.memory_rows
  refine ⟨⟨e, herror⟩, ?_, ⟨_, Sample.finished.result⟩, hmodel.trans (if_neg hrows), ?_,
    hfile nofun⟩
  · rw [hfailed.1]
    exact Sample.memory_rows
  · rw [hincomplete]
    rintro ⟨failure, hfailure, _⟩
    rw [show fresh.memory = .empty from rfl, Sample.embedded_eq] at hfailure
    cases hfailure

end CodeIndex
