import CodeIndex.Index.History
import CodeIndex.Proofs.Store.Connecting
import CodeIndex.Proofs.Store.Write
import Mathlib.Data.List.Induction

/-!
# What histories preserve

A run that comes to its end has a snapshot to propose, a function of what is in memory.  The session
holds that snapshot afterwards, in memory and in the file, unless it says nothing new or cannot be
written; then the session is as it was.  So a property that the empty snapshot has and that every
proposal has again holds throughout every history: `StoreSession.after_induction`.
-/

namespace CodeIndex

/-! ## §1 What a run proposes -/

namespace ProjectRun

variable (r : ProjectRun) (memory : Snapshot)

/-- The work that the run finds to be done. -/
def workload : Workload := Workload.make r.files memory r.modelId

/-- The pending files as the workers return them. -/
def results : List Decomposed :=
  r.circumstances.arrange ((r.workload memory).decompose (r.indexer.decomposeFile r.top r.root))

/-- What is embedded of them. -/
def embedded : EmbedOutcome :=
  (r.indexer.embedder.embedRecords (Workload.parsed (r.results memory)) r.state).outcome

/-- The snapshot that the run wants to commit. -/
def proposed : Snapshot := (r.workload memory).nextSnapshot memory r.modelId (r.embedded memory)

/-- What the run reports when it is over. -/
def report : RunReport :=
  (r.workload memory).report r.files memory (r.results memory) (r.embedded memory)

/-- The texts that the run wants embedded. -/
def requested : List String := EmbeddingBatch.unitTexts (Workload.parsed (r.results memory))

end ProjectRun

/-! ## §2 How a run ends -/

/-- The run failed: nothing that a session is asked for has changed. -/
structure ProjectRun.Failed (r : ProjectRun) (session : StoreSession) : Prop where
  error : ∃ e, (r.outcome session).result = .error e
  memory : (r.outcome session).session.memory = session.memory
  target : (r.outcome session).session.disk.target = session.disk.target

/-- The run came to its end. -/
structure ProjectRun.Finished (r : ProjectRun) (session : StoreSession) : Prop where
  scan : r.indexer.scan r.top r.root = .ok r.files
  result : (r.outcome session).result = .ok (r.report session.memory)
  asked : (r.outcome session).asked = r.requested session.memory
  session :
    (r.outcome session).session =
        ⟨r.proposed session.memory,
          ⟨.file (.database (r.proposed session.memory).toDatabase), none⟩⟩ ∨
      (r.outcome session).session = session ∧
        (r.proposed session.memory).sameContent session.memory = true

/-- The run failed before it wrote anything. -/
structure ProjectRun.Stopped (r : ProjectRun) (session : StoreSession) : Prop where
  error : ∃ e, (r.outcome session).result = .error e
  session : (r.outcome session).session = session

/-- How a run can end. -/
inductive ProjectRun.Ending (r : ProjectRun) (session : StoreSession) : Prop
  /-- It fails before it writes anything. -/
  | stopped (stopped : r.Stopped session)
  /-- It fails to write, and what it wrote is removed. -/
  | undone (error : ∃ e, (r.outcome session).result = .error e)
      (session_eq : (r.outcome session).session = ⟨session.memory, ⟨session.disk.target, none⟩⟩)
  /-- It comes to its end, and something is at the path of the snapshot. -/
  | finished (finished : r.Finished session)
      (exists_eq : (r.outcome session).session.disk.target.exists? = .ok true)

namespace Indexer

variable {σ : Type} (ix : Indexer σ)

/-- Nothing is written where the snapshot says nothing new and something is at its path. -/
theorem mustWrite_eq_ok_false {c : Circumstances} {next : Snapshot} {st : StoreSession}
    (h : mustWrite c next st = .ok false) :
    next.sameContent st.memory = true ∧ st.disk.target.exists? = .ok true := by
  unfold mustWrite at h
  split at h
  · next hsame =>
    refine ⟨hsame, ?_⟩
    split at h
    · cases h
    · cases hexists : st.disk.target.exists? with
      | error e => rw [hexists] at h; cases h
      | ok found =>
        rw [hexists] at h
        -- the lookup found something, since otherwise it would have to be written
        cases found with
        | true => rfl
        | false => cases h
  · cases h

/-- A snapshot that is settled is in place, or says nothing new, or is not there at all. -/
theorem settle_cases (c : Circumstances) (next : Snapshot) (st : StoreSession) :
    (∃ e, ix.settle c next st = (st, .error e)) ∨
      (∃ e, ix.settle c next st = (⟨st.memory, ⟨st.disk.target, none⟩⟩, .error e)) ∨
      ix.settle c next st = (⟨next, ⟨.file (.database next.toDatabase), none⟩⟩, .ok true) ∨
      ix.settle c next st = (st, .ok false) ∧ next.sameContent st.memory = true ∧
        st.disk.target.exists? = .ok true := by
  unfold settle
  split
  · exact .inl ⟨_, rfl⟩
  · next hwrite => exact .inr (.inr (.inr ⟨rfl, mustWrite_eq_ok_false hwrite⟩))
  · -- a commit replaces both, or leaves both and drops the temporary file
    rcases st.commit_cases c.writeFails ix.snapshotPath next with h | ⟨e, h⟩
    · exact .inr (.inr (.inl (by rw [h])))
    · exact .inr (.inl ⟨e, by rw [h]⟩)

/-- Where nothing interferes, a snapshot is settled. -/
theorem settle_of_undisturbed {c : Circumstances} (hlookup : c.lookupFails = false)
    (hwrites : c.writeFails = fun _ => false) {st : StoreSession}
    (htarget : st.disk.target = .nothing ∨ ∃ content, st.disk.target = .file content)
    (next : Snapshot) :
    ∃ st' written, ix.settle c next st = (st', .ok written) ∧ (st'.memory = next ∨ st' = st) := by
  have hcommit : st.commit c.writeFails ix.snapshotPath next =
      (⟨next, ⟨.file (.database next.toDatabase), none⟩⟩, .ok ()) := by
    rw [StoreSession.commit, hwrites, Disk.write_eq_ok_iff.2 ⟨⟨fun _ _ => rfl, htarget⟩, rfl⟩]
  -- what is there only decides whether there is anything to write
  have hmust : ∃ written, mustWrite c next st = .ok written := by
    unfold mustWrite
    split
    · rw [hlookup]
      rcases htarget with h | ⟨content, h⟩
      · exact ⟨true, by rw [h]; rfl⟩
      · exact ⟨false, by rw [h]; rfl⟩
    · exact ⟨true, rfl⟩
  obtain ⟨written, hwritten⟩ := hmust
  unfold settle
  rw [hwritten]
  cases written with
  | false => exact ⟨st, false, rfl, .inr rfl⟩
  | true =>
    simp only [hcommit]
    exact ⟨_, true, rfl, .inl rfl⟩

end Indexer

namespace ProjectRun

variable (r : ProjectRun) (session : StoreSession)

/-- The files of a run are those that the scan finds. -/
theorem files_of_scan {files : List FileRecord} (h : r.indexer.scan r.top r.root = .ok files) :
    r.files = files := by
  unfold ProjectRun.files
  rw [h]

/-- Where the scan fails the run does, and has done nothing. -/
theorem outcome_of_scan_error {e : IndexError} (h : r.indexer.scan r.top r.root = .error e) :
    r.outcome session = ⟨session, .error e, [], [], false, r.state⟩ := by
  unfold outcome Indexer.run
  rw [h]

/-- Where it succeeds the run goes on with the files that it found. -/
theorem outcome_of_scan_ok {files : List FileRecord}
    (h : r.indexer.scan r.top r.root = .ok files) :
    r.outcome session = r.indexer.runOn r.circumstances files
      (r.indexer.decomposeFile r.top r.root) session r.state := by
  unfold outcome Indexer.run
  rw [h]

/-- A run that leaves the session as it was, whatever else it did. -/
private theorem stopped_of_eq {e : IndexError} {asked sent : List String} {state : r.σ}
    (h : r.outcome session = ⟨session, .error e, asked, sent, false, state⟩) : r.Stopped session :=
  ⟨⟨e, by rw [h]⟩, by rw [h]⟩

/-- A run whose scan fails is stopped. -/
theorem stopped_of_scan {e : IndexError} (h : r.indexer.scan r.top r.root = .error e) :
    r.Stopped session :=
  r.stopped_of_eq session (r.outcome_of_scan_error session h)

/-- A run is cut short where it is cancelled and where a worker breaks down. -/
theorem stopped_of_cutShort
    (h : r.circumstances.cancelledAt ≠ none ∨ r.circumstances.workerFails = true) :
    r.Stopped session := by
  cases hscan : r.indexer.scan r.top r.root with
  | error e => exact r.stopped_of_scan session hscan
  | ok files =>
    have hout := r.outcome_of_scan_ok session hscan
    -- stage by stage, in the order in which the run asks for a cancellation
    unfold Indexer.runOn at hout
    by_cases hdecomposing : r.circumstances.cancelledAt = some .decomposing
    · rw [if_pos hdecomposing] at hout
      exact r.stopped_of_eq session hout
    rw [if_neg hdecomposing] at hout
    by_cases hworker : r.circumstances.workerFails = true
    · rw [if_pos hworker] at hout
      exact r.stopped_of_eq session hout
    rw [if_neg hworker] at hout
    unfold Indexer.conclude at hout
    by_cases hembedding : r.circumstances.cancelledAt = some .embedding
    · rw [if_pos hembedding] at hout
      exact r.stopped_of_eq session hout
    rw [if_neg hembedding] at hout
    by_cases hcommitting : r.circumstances.cancelledAt = some .committing
    · rw [if_pos hcommitting] at hout
      exact r.stopped_of_eq session hout
    -- there is no other stage to be cancelled at
    exfalso
    rcases h with h | h
    · cases hstage : r.circumstances.cancelledAt with
      | none => exact h hstage
      | some stage => cases stage <;> contradiction
    · exact hworker h

/-- A run that is not cut short settles what it proposes. -/
theorem outcome_eq_settled (hscan : r.indexer.scan r.top r.root = .ok r.files)
    (hcancelled : r.circumstances.cancelledAt = none)
    (hworkers : r.circumstances.workerFails = false) :
    r.outcome session =
      let embedder := r.indexer.embedder.embedTexts (r.requested session.memory) r.state
      match r.indexer.settle r.circumstances (r.proposed session.memory) session with
      | (session', .ok written) =>
        ⟨session', .ok (r.report session.memory), r.requested session.memory, embedder.sent,
          written, embedder.provider⟩
      | (session', .error e) =>
        ⟨session', .error e, r.requested session.memory, embedder.sent, false,
          embedder.provider⟩ := by
  conv => lhs; unfold outcome Indexer.run
  rw [hscan]
  simp only [Indexer.runOn, Indexer.conclude, hcancelled, hworkers, reduceCtorEq, if_false,
    Bool.false_eq_true]
  rfl

/-- A run that is not cut short ends well if its snapshot can be settled. -/
theorem outcome_of_settle_ok (hscan : r.indexer.scan r.top r.root = .ok r.files)
    (hcancelled : r.circumstances.cancelledAt = none)
    (hworkers : r.circumstances.workerFails = false) {session' : StoreSession} {written : Bool}
    (hsettle : r.indexer.settle r.circumstances (r.proposed session.memory) session =
      (session', .ok written)) :
    r.outcome session =
      let embedder := r.indexer.embedder.embedTexts (r.requested session.memory) r.state
      ⟨session', .ok (r.report session.memory), r.requested session.memory, embedder.sent, written,
        embedder.provider⟩ := by
  rw [r.outcome_eq_settled session hscan hcancelled hworkers, hsettle]

/-- A run ends in one of three ways. -/
theorem ending : r.Ending session := by
  by_cases hcut : r.circumstances.cancelledAt ≠ none ∨ r.circumstances.workerFails = true
  · exact .stopped (r.stopped_of_cutShort session hcut)
  obtain ⟨hcancelled, hworkers⟩ := not_or.1 hcut
  cases hscan : r.indexer.scan r.top r.root with
  | error e => exact .stopped (r.stopped_of_scan session hscan)
  | ok files =>
    obtain rfl := r.files_of_scan hscan
    have hout := r.outcome_eq_settled session hscan (Classical.not_not.1 hcancelled)
      (Bool.eq_false_iff.2 hworkers)
    -- the lookup fails, the write fails, the snapshot is in place, or there was nothing to write
    rcases r.indexer.settle_cases r.circumstances (r.proposed session.memory) session with
      ⟨e, h⟩ | ⟨e, h⟩ | h | ⟨h, hsame, hexists⟩
    · rw [h] at hout
      exact .stopped (r.stopped_of_eq session hout)
    · rw [h] at hout
      exact .undone ⟨e, by rw [hout]⟩ (by rw [hout])
    · rw [h] at hout
      refine .finished ⟨hscan, by rw [hout], by rw [hout], .inl (by rw [hout])⟩ ?_
      rw [hout]
      rfl
    · rw [h] at hout
      refine .finished ⟨hscan, by rw [hout], by rw [hout], .inr ⟨by rw [hout], hsame⟩⟩ ?_
      rw [hout]
      exact hexists

/-- Every run fails or comes to its end. -/
theorem failed_or_finished : r.Failed session ∨ r.Finished session := by
  cases r.ending session with
  | stopped hstopped =>
    exact .inl ⟨hstopped.error, by rw [hstopped.session], by rw [hstopped.session]⟩
  | undone herror hsession => exact .inl ⟨herror, by rw [hsession], by rw [hsession]⟩
  | finished hfinished _ => exact .inr hfinished

/-- A run with an error has failed, in one of the ways there are. -/
theorem failed_of_error {e : IndexError} (h : (r.outcome session).result = .error e) :
    r.Failed session := by
  rcases r.failed_or_finished session with hfailed | hfinished
  · exact hfailed
  · rw [hfinished.result] at h
    cases h

/-- A run that says that it ended well did, and left something at the path of the snapshot. -/
theorem finished_of_ok {report : RunReport} (h : (r.outcome session).result = .ok report) :
    r.Finished session ∧ (r.outcome session).session.disk.target.exists? = .ok true := by
  -- an ending with an error has no report
  cases r.ending session with
  | stopped hstopped =>
    obtain ⟨e, herror⟩ := hstopped.error
    rw [h] at herror
    cases herror
  | undone herror _ =>
    obtain ⟨e, herror⟩ := herror
    rw [h] at herror
    cases herror
  | finished hfinished hexists => exact ⟨hfinished, hexists⟩

end ProjectRun

/-- A run that nothing interferes with comes to its end, if it can scan its folder and no folder
lies at the path of the snapshot. -/
theorem ProjectRun.Undisturbed.finished {r : ProjectRun} {session : StoreSession}
    (h : r.Undisturbed) (hscan : r.indexer.scan r.top r.root = .ok r.files)
    (htarget : session.disk.target = .nothing ∨ ∃ content, session.disk.target = .file content) :
    r.Finished session := by
  obtain ⟨st', written, hsettle, _⟩ := r.indexer.settle_of_undisturbed h.lookupFails h.writeFails
    htarget (r.proposed session.memory)
  have hout := r.outcome_of_settle_ok session hscan h.cancelledAt h.workerFails hsettle
  have hok : (r.outcome session).result = .ok (r.report session.memory) := by rw [hout]
  exact (r.finished_of_ok session hok).1

/-! ## §3 Histories -/

/-- The next snapshot survives being written and read. -/
theorem Workload.readSnapshot_nextSnapshot (w : Workload) (previous : Snapshot) (model : String)
    (embedded : EmbedOutcome) :
    (w.nextSnapshot previous model embedded).toDatabase.readSnapshot =
      .ok (w.nextSnapshot previous model embedded) := by
  apply Snapshot.readSnapshot_toDatabase
  · intro hrows
    unfold nextSnapshot Snapshot.withIncomplete Snapshot.withModel at hrows ⊢
    simp only at hrows ⊢
    rw [hrows]
    rfl
  · exact nodup_eraseDups _

/-- A proposal survives being written and read. -/
theorem ProjectRun.readSnapshot_proposed (r : ProjectRun) (memory : Snapshot) :
    (r.proposed memory).toDatabase.readSnapshot = .ok (r.proposed memory) :=
  Workload.readSnapshot_nextSnapshot ..

namespace StoreSession

/-- A property of the snapshot in memory and of the one in the file. -/
structure Holds (P : Snapshot → Prop) (st : StoreSession) : Prop where
  memory : P st.memory
  file : ∀ s, st.disk.target.readSnapshot = .ok s → P s

/-- What holds of a session holds of each of its snapshots. -/
theorem Holds.of_mem_snapshots {P : Snapshot → Prop} {st : StoreSession} (h : Holds P st)
    {s : Snapshot} (hs : s ∈ st.snapshots) : P s := by
  rcases List.mem_cons.1 hs with rfl | hs
  · exact h.memory
  · apply h.file s
    cases hread : st.disk.target.readSnapshot with
    | error e => simp [hread, Except.toOption] at hs
    | ok s' => simpa [hread, Except.toOption, eq_comm] using hs

/-- A longer history takes one event more. -/
theorem after_concat (events : List SessionEvent) (event : SessionEvent) :
    after (events ++ [event]) = (after events).next event := by
  simp [after]

/-- Whoever reads the file connects to it and takes what it holds, if that can be read. -/
theorem next_reading (st : StoreSession) {event : SessionEvent}
    (h : event = .reload ∨ event = .reopen) : st.next event =
      ⟨st.disk.target.readSnapshot.toOption.getD st.memory, st.disk.connected⟩ := by
  rcases h with rfl | rfl
  · exact congrArg Prod.fst st.reload_eq
  · unfold next
    rw [open_eq]
    cases st.disk.target.readSnapshot <;> rfl

/-- The snapshot's path never holds anything but a file. -/
theorem after_target (events : List SessionEvent) :
    (after events).disk.target = .nothing ∨
      ∃ content, (after events).disk.target = .file content := by
  induction events using List.reverseRecOn with
  | nil => exact .inl rfl
  | append_singleton events event ih =>
    rw [after_concat]
    -- what is at the path changes only to a file
    cases event with
    | run r =>
      show (r.outcome _).session.disk.target = _ ∨ ∃ _, (r.outcome _).session.disk.target = _
      rcases r.failed_or_finished (after events) with hfailed | hfinished
      · rw [hfailed.target]
        exact ih
      · rcases hfinished.session with hcommitted | ⟨hsame, _⟩
        · rw [hcommitted]
          exact .inr ⟨_, rfl⟩
        · rw [hsame]
          exact ih
    | reload =>
      rw [next_reading _ (.inl rfl)]
      exact FileTree.Occupant.inRollbackMode_file ih
    | reopen =>
      rw [next_reading _ (.inr rfl)]
      exact FileTree.Occupant.inRollbackMode_file ih

/-- Reading the file brings its snapshot into memory, and a connection does not change what it
holds. -/
theorem Holds.reading {P : Snapshot → Prop} {st : StoreSession} (h : Holds P st) :
    Holds P ⟨st.disk.target.readSnapshot.toOption.getD st.memory, st.disk.connected⟩ := by
  refine ⟨?_, fun s hs => h.file s ?_⟩
  · cases hread : st.disk.target.readSnapshot with
    | ok s => exact h.file s hread
    | error e => exact h.memory
  · rw [← hs]
    exact (FileTree.Occupant.readSnapshot_inRollbackMode _).symm

/-- Only a run can bring in a snapshot that was not there before. -/
theorem Holds.next {P : Snapshot → Prop} {st : StoreSession} (h : Holds P st)
    (event : SessionEvent)
    (hrun : ∀ r, event = .run r → r.Finished st → P (r.proposed st.memory)) :
    Holds P (st.next event) := by
  cases event with
  | run r =>
    show Holds P (r.outcome st).session
    rcases r.failed_or_finished st with hfailed | hfinished
    · refine ⟨?_, ?_⟩
      · rw [hfailed.memory]
        exact h.memory
      · rw [hfailed.target]
        exact h.file
    · rcases hfinished.session with hcommitted | ⟨hsame, _⟩
      · -- what was committed is in memory, and it is what the file is read as
        have hproposed := hrun r rfl hfinished
        rw [hcommitted]
        refine ⟨hproposed, fun s hs => ?_⟩
        rw [FileTree.Occupant.readSnapshot_database, r.readSnapshot_proposed] at hs
        exact Except.ok.inj hs ▸ hproposed
      · rw [hsame]
        exact h
  | reload =>
    rw [next_reading st (.inl rfl)]
    exact h.reading
  | reopen =>
    rw [next_reading st (.inr rfl)]
    exact h.reading

/-- What holds of no snapshot at all, and of every proposal of a run that started from a snapshot of
which it held, holds of all snapshots there ever are.  The property may speak of the history so far,
as long as it stays true when the history goes on. -/
theorem after_induction {P : List SessionEvent → Snapshot → Prop} (hempty : P [] .empty)
    (hlater : ∀ events event s, P events s → P (events ++ [event]) s)
    (hproposed : ∀ events r, r.Finished (after events) → P events (after events).memory →
      P (events ++ [.run r]) (r.proposed (after events).memory)) (events : List SessionEvent) :
    Holds (P events) (after events) := by
  induction events using List.reverseRecOn with
  | nil =>
    refine ⟨hempty, fun s hs => ?_⟩
    exact Except.ok.inj hs ▸ hempty
  | append_singleton events event ih =>
    -- the history grows by the event even where the session stays as it is
    have hkept : Holds (P (events ++ [event])) (after events) :=
      ⟨hlater _ _ _ ih.memory, fun s hs => hlater _ _ _ (ih.file s hs)⟩
    rw [after_concat]
    apply hkept.next event
    rintro r rfl hfinished
    exact hproposed events r hfinished ih.memory

end StoreSession

end CodeIndex
