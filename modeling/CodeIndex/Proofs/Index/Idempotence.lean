import CodeIndex.Proofs.Index.Models

/-!
# Running twice

A run that follows a clean run of the same project finds most of its files in memory and carries
them forward.  The others left no rows: they are empty, cannot be decomposed, or have no units.  The
second run tries these again, and then it matters whether some other file has the same content: its
units are taken over under the new path.  `second_run_idle_iff` says that nothing else can happen.
-/

namespace CodeIndex

open EmbeddingBatch Snapshot StoreSession

namespace ProjectRun

/-- The line of a report for a file that the run cannot decompose. -/
def failureLine? (r : ProjectRun) (f : FileRecord) : Option String :=
  Decomposed.failure? ⟨f.filepath, r.indexer.decomposeFile r.top r.root f⟩

/-- The workers report the failures of the pending files, in any order. -/
theorem Orderly.failures_perm {r : ProjectRun} (h : r.Orderly) (memory : Snapshot) :
    ((r.results memory).filterMap Decomposed.failure?).Perm
      ((r.workload memory).pending.filterMap r.failureLine?) := by
  have hperm := (h.arranges ((r.workload memory).decompose
    (r.indexer.decomposeFile r.top r.root))).filterMap Decomposed.failure?
  conv at hperm => rhs; rw [Workload.decompose, List.filterMap_map]
  exact hperm

end ProjectRun

/-- A clean run after a history, and a run of the same project right after it. -/
structure Rerun (events : List SessionEvent) (first second : ProjectRun) : Prop where
  orderly : first.Orderly
  clean : first.Clean (after events)
  project : second.SameProject first
  orderlySecond : second.Orderly
  undisturbed : second.Undisturbed

namespace Rerun

variable {events : List SessionEvent} {first second : ProjectRun} {f : FileRecord}

/-- The snapshot that the first run leaves. -/
def left (events : List SessionEvent) (first : ProjectRun) : Snapshot :=
  (first.outcome (after events)).session.memory

variable (h : Rerun events first second)

include h

/-! ## §1 What the first run leaves -/

/-- Every row that is left is of a file that was found. -/
theorem exists_file {row : SnapshotRow} (hrow : row ∈ (left events first).rows) :
    ∃ f ∈ first.files, row.key = f.key := by
  obtain ⟨row', hrow', hkey⟩ := (h.clean.finished.exists_row_iff).1 ⟨row, hrow, rfl⟩
  obtain ⟨f, hf, hfkey, _⟩ := h.orderly.exists_file hrow'
  exact ⟨f, hf, hkey.symm.trans hfkey⟩

private theorem key_eq (hf : f ∈ first.files) {row : SnapshotRow}
    (hrow : row ∈ (left events first).rows) (hpath : row.filepath = f.filepath) :
    row.key = f.key := by
  obtain ⟨g, hg, hkey⟩ := h.exists_file hrow
  obtain rfl := h.orderly.eq_of_filepath_eq hf hg (hpath.symm.trans (Prod.mk.inj hkey).1)
  exact hkey

/-- The snapshot that is left is one of the run's model. -/
theorem embeddedBy : (left events first).embeddedBy first.modelId = true := by
  have hmodel := h.clean.finished.model_eq
  unfold Snapshot.embeddedBy
  by_cases hrows : (left events first).rows = []
  · rw [hrows]
    rfl
  · change (left events first).model = if (left events first).rows = [] then none else _ at hmodel
    rw [hmodel, if_neg hrows]
    simp

/-! ## §2 What the second run finds to be done -/

/-- A file is carried if it has left rows. -/
theorem fateOf_eq_carry_iff (hf : f ∈ first.files) :
    UpdatePlan.fateOf (left events first) first.modelId f = .carry ↔
      ∃ row ∈ (left events first).rows, row.filepath = f.filepath := by
  rw [UpdatePlan.fateOf_eq_carry_iff]
  constructor
  · rintro ⟨_, hchecksum, _⟩
    obtain ⟨row, hrow, hkey⟩ := exists_row_of_checksumOf? hchecksum
    exact ⟨row, hrow, (Prod.mk.inj hkey).1⟩
  · -- the rows of its path are of its own version, since the first run left no others
    rintro ⟨row, hrow, hpath⟩
    have hkey := h.key_eq hf hrow hpath
    have hknown := checksumOf?_eq_some hrow fun row' hrow' hpath' =>
      ((Prod.mk.inj (h.key_eq hf hrow' (hpath'.trans hpath))).2).trans (Prod.mk.inj hkey).2.symm
    rw [hpath, (Prod.mk.inj hkey).2] at hknown
    refine ⟨h.embeddedBy, hknown, ?_⟩
    unfold left
    rw [h.clean.incomplete_eq_nil]
    exact nofun

/-- A file is processed again if it has content and left no rows. -/
theorem fateOf_eq_process_iff (hf : f ∈ first.files) :
    UpdatePlan.fateOf (left events first) first.modelId f = .process ↔
      f.checksum ≠ Checksum.empty ∧
        ∀ row ∈ (left events first).rows, row.filepath ≠ f.filepath := by
  rw [UpdatePlan.fateOf_eq_process_iff, ne_eq, h.fateOf_eq_carry_iff hf]
  constructor
  · rintro ⟨hnone, hcontent⟩
    exact ⟨hcontent, fun row hrow hpath => hnone ⟨row, hrow, hpath⟩⟩
  · rintro ⟨hcontent, hnone⟩
    exact ⟨fun ⟨row, hrow, hpath⟩ => hnone row hrow hpath, hcontent⟩

/-- A file is taken over as soon as some row has its content. -/
theorem relocate?_eq_none_iff :
    Workload.relocate? (UpdatePlan.make first.files (left events first) first.modelId)
        (left events first) f = none ↔
      ∀ row ∈ (left events first).rows, row.checksum ≠ f.checksum := by
  rw [Option.eq_none_iff_forall_ne_some]
  constructor
  · intro hnone row hrow hchecksum
    -- the first run was clean, so any row with the checksum would have been copied
    have hcomplete : row.key ∉ (left events first).incomplete := by
      unfold left
      rw [h.clean.incomplete_eq_nil]
      exact nofun
    have hrelocate : ∃ g, Workload.relocate? (UpdatePlan.make first.files (left events first)
        first.modelId) (left events first) f = some g :=
      Workload.exists_relocate? h.embeddedBy hrow hchecksum hcomplete fun _ hrow' =>
        embedding_isSome_of_mem_snapshots (outcome_memory_mem_snapshots events first) hrow'
    obtain ⟨g, hg⟩ := hrelocate
    exact hnone g hg
  · intro hnone g hg
    obtain ⟨_, units, hunits, _⟩ := Workload.relocate?_eq_some_iff.1 hg
    obtain ⟨row, hrow, hchecksum, _⟩ := exists_row_of_embeddedUnits? hunits
    exact hnone row hrow hchecksum

/-- A file that has content but left no rows was pending in the first run, and has no units. -/
theorem pending_of_no_rows (hf : f ∈ first.files) (hcontent : f.checksum ≠ Checksum.empty)
    (hnone : ∀ row ∈ (left events first).rows, row.filepath ≠ f.filepath) :
    f ∈ (first.workload (after events).memory).pending ∧
      ∀ units, first.indexer.decomposeFile first.top first.root f = .ok { f with units := units } →
        units = [] := by
  have hnil : rowsAt (first.proposed (after events).memory).rows f.filepath = [] := by
    refine rowsAt_eq_nil_iff.2 fun row hrow hpath => ?_
    obtain ⟨row', hrow', hkey⟩ := (h.clean.finished.exists_row_iff).2 ⟨row, hrow, rfl⟩
    exact hnone row' hrow' ((Prod.mk.inj hkey).1.trans hpath)
  have hsource := h.orderly.fileSource hf (after events).memory
  rw [hnil, h.clean.isIncomplete_eq_false] at hsource
  -- every source that makes rows is ruled out
  generalize hrows : ([] : List SnapshotRow) = rows at hsource
  generalize hlost : false = lost at hsource
  cases hsource with
  | carried hcarry =>
    obtain ⟨row, hrow, hkey⟩ :=
      exists_row_of_checksumOf? (UpdatePlan.fateOf_eq_carry_iff.1 hcarry).2.1
    have hmem : row ∈ rowsOf (after events).memory.rows f.key := mem_rowsOf.2 ⟨hrow, hkey⟩
    rw [← hrows] at hmem
    cases hmem
  | skipped _ hempty => exact absurd hempty hcontent
  | relocated _ _ hunits =>
    exact absurd (rowsOfRecord_eq_nil_iff.1 hrows.symm) (embeddedUnits?_ne_nil hunits)
  | unreadable hpending herror =>
    refine ⟨hpending, fun units hok => ?_⟩
    rw [herror] at hok
    cases hok
  | @embedded units replies hpending hunits hlength _ =>
    refine ⟨hpending, fun units' hok => ?_⟩
    -- it has as many rows as units, because none failed
    have hfailures : failuresOf { f with units := units } replies = [] := by
      simpa using hlost
    have hcount := settledRecord_length (r := { f with units := units }) hlength
    rw [hfailures, rowsOfRecord_eq_nil_iff.1 hrows.symm] at hcount
    have hsame : units = units' := by simpa [hunits] using hok
    rw [← hsame]
    exact List.eq_nil_of_length_eq_zero hcount.symm

/-- The second run has the work that the first would have if it were made again. -/
theorem workload_eq : second.workload (left events first) =
    Workload.make first.files (left events first) first.modelId := by
  unfold ProjectRun.workload
  rw [h.project.files, h.project.modelId]

/-- Pending are the files with content that left no rows, under no path. -/
theorem mem_pending : f ∈ (second.workload (left events first)).pending ↔
    f ∈ first.files ∧ f.checksum ≠ Checksum.empty ∧
      (∀ row ∈ (left events first).rows, row.filepath ≠ f.filepath) ∧
      ∀ row ∈ (left events first).rows, row.checksum ≠ f.checksum := by
  rw [h.workload_eq, Workload.mem_pending, h.relocate?_eq_none_iff, and_congr_right_iff]
  intro hf
  rw [h.fateOf_eq_process_iff hf, and_assoc]

private theorem relocated_eq_nil_iff : (second.workload (left events first)).relocated = [] ↔
    ∀ f ∈ first.files, f.checksum ≠ Checksum.empty →
      (∃ row ∈ (left events first).rows, row.checksum = f.checksum) →
      ∃ row ∈ (left events first).rows, row.filepath = f.filepath := by
  rw [h.workload_eq, List.eq_nil_iff_forall_not_mem]
  constructor
  · rintro hnil f hf hcontent ⟨row, hrow, hchecksum⟩
    apply Classical.byContradiction
    intro hnone
    have hprocess := (h.fateOf_eq_process_iff hf).2
      ⟨hcontent, fun row hrow hpath => hnone ⟨row, hrow, hpath⟩⟩
    cases hrelocate : Workload.relocate?
        (UpdatePlan.make first.files (left events first) first.modelId) (left events first) f with
    | none => exact h.relocate?_eq_none_iff.1 hrelocate row hrow hchecksum
    | some g => exact hnil g (Workload.mem_relocated.2 ⟨f, hf, hprocess, hrelocate⟩)
  · intro hall g hg
    obtain ⟨f, hf, hprocess, hrelocate⟩ := Workload.mem_relocated.1 hg
    obtain ⟨hcontent, hnone⟩ := (h.fateOf_eq_process_iff hf).1 hprocess
    have hsome : ¬ ∀ row ∈ (left events first).rows, row.checksum ≠ f.checksum := by
      rw [← h.relocate?_eq_none_iff, hrelocate]
      exact nofun
    -- something was found under its checksum, so by hypothesis it has rows and is carried
    obtain ⟨row, hrow, hpath⟩ := hall f hf hcontent (by
      apply Classical.byContradiction
      exact fun hno => hsome fun row hrow hchecksum => hno ⟨row, hrow, hchecksum⟩)
    exact hnone row hrow hpath

/-- Relocated files come with units. -/
theorem relocated_units_ne_nil {g : FileRecord}
    (hg : g ∈ (second.workload (left events first)).relocated) : g.units ≠ [] := by
  rw [h.workload_eq] at hg
  obtain ⟨f, _, _, hrelocate⟩ := Workload.mem_relocated.1 hg
  obtain ⟨_, units, hunits, rfl⟩ := Workload.relocate?_eq_some_iff.1 hrelocate
  exact embeddedUnits?_ne_nil hunits

/-! ## §3 What the second run does -/

/-- The files that it decomposes have no units. -/
theorem units_eq_nil_of_mem_parsed {g : FileRecord}
    (hg : g ∈ Workload.parsed (second.results (left events first))) : g.units = [] := by
  obtain ⟨f, hpending, _, hok⟩ := h.orderlySecond.exists_pending hg
  obtain ⟨hf, hcontent, hnone, _⟩ := h.mem_pending.1 hpending
  rw [h.project.decomposeFile] at hok
  obtain ⟨units, rfl⟩ := ProjectRun.eq_of_decomposeFile_eq_ok hok
  exact (h.pending_of_no_rows hf hcontent hnone).2 units hok

/-- It asks for no vector. -/
theorem requested_eq_nil : second.requested (left events first) = [] := by
  unfold ProjectRun.requested unitTexts
  refine List.flatMap_eq_nil_iff.2 fun g hg => ?_
  rw [h.units_eq_nil_of_mem_parsed hg]
  rfl

private theorem embedded_units_eq_nil {g : FileRecord}
    (hg : g ∈ (second.embedded (left events first)).records) : g.units = [] := by
  obtain ⟨f, rs, hshare, rfl⟩ := (second.mem_embedded_records _).1 hg
  unfold settledRecord
  rw [h.units_eq_nil_of_mem_parsed (mem_of_mem_shares hshare)]
  rfl

/-- Whatever is pending has no units, so no unit is lost. -/
theorem failures_eq_nil : (second.embedded (left events first)).failures = [] := by
  rw [ProjectRun.embedded_eq_settle, settle_failures]
  refine List.flatMap_eq_nil_iff.2 fun ⟨g, rs⟩ hshare => ?_
  show failuresOf g rs = []
  unfold failuresOf
  rw [h.units_eq_nil_of_mem_parsed (mem_of_mem_shares hshare)]
  rfl

/-- Its new rows are those of the files that it takes over. -/
theorem newRows_eq :
    (second.workload (left events first)).newRows (second.embedded (left events first)) =
      rowsOfRecords (second.workload (left events first)).relocated := by
  have hnone : rowsOfRecords (second.embedded (left events first)).records = [] := by
    refine List.flatMap_eq_nil_iff.2 fun g hg => ?_
    rw [rowsOfRecord_eq_nil_iff]
    exact h.embedded_units_eq_nil hg
  unfold Workload.newRows
  rw [rowsOfRecords_append, hnone, List.nil_append]

/-- It carries all rows forward. -/
theorem carried_rows_eq : (left events first).rows.filter
      (fun row => (second.workload (left events first)).plan.carried.contains row.key) =
    (left events first).rows := by
  refine List.filter_eq_self.2 fun row hrow => ?_
  obtain ⟨f, hf, hkey⟩ := h.exists_file hrow
  rw [h.workload_eq, List.contains_iff_mem]
  apply UpdatePlan.mem_carried.2
  exact ⟨f, hf, (h.fateOf_eq_carry_iff hf).2 ⟨row, hrow, (Prod.mk.inj hkey).1⟩, hkey.symm⟩

/-- Unless it takes files over, it proposes what is there. -/
theorem proposed_eq (hrelocated : (second.workload (left events first)).relocated = []) :
    second.proposed (left events first) = left events first := by
  -- nothing is new and nothing is left out, and the rows were in order before
  have hrows : (second.proposed (left events first)).rows = (left events first).rows := by
    show sortRows (_ ++ (second.workload (left events first)).newRows _) = _
    rw [h.newRows_eq, hrelocated, h.carried_rows_eq]
    exact (congrArg sortRows (List.append_nil _)).trans
      (sortRows_eq_self (sorted_of_mem_snapshots (outcome_memory_mem_snapshots events first)))
  have hmodel : (second.proposed (left events first)).model = (left events first).model := by
    rw [second.proposed_model, hrows, h.project.modelId]
    exact h.clean.finished.model_eq.symm
  have hincomplete :
      (second.proposed (left events first)).incomplete = (left events first).incomplete := by
    show ((second.embedded (left events first)).failures.map EmbeddingFailure.key).eraseDups = _
    rw [h.failures_eq_nil]
    exact h.clean.incomplete_eq_nil.symm
  exact Snapshot.ext_fields hrows hmodel hincomplete

/-- A file that cannot be decomposed is pending in both runs or in neither. -/
theorem mem_pending_iff_of_error (hrelocated : (second.workload (left events first)).relocated = [])
    (hf : f ∈ first.files) {e : IndexError}
    (herror : first.indexer.decomposeFile first.top first.root f = .error e) :
    f ∈ (second.workload (left events first)).pending ↔
      f ∈ (first.workload (after events).memory).pending := by
  rw [h.mem_pending]
  constructor
  · rintro ⟨_, hcontent, hnone, _⟩
    exact (h.pending_of_no_rows hf hcontent hnone).1
  · intro hpending
    have hcontent := (UpdatePlan.fateOf_eq_process_iff.1 (Workload.mem_pending.1 hpending).2.1).2
    -- a file that could not be decomposed left no rows, so it is tried again
    have hnone : ∀ row ∈ (left events first).rows, row.filepath ≠ f.filepath := by
      intro row hrow hpath
      obtain ⟨row', hrow', hkey⟩ := (h.clean.finished.exists_row_iff).1 ⟨row, hrow, rfl⟩
      refine rowsAt_eq_nil_iff.1 (h.orderly.rows_of_unreadable hpending herror).1 row' hrow' ?_
      exact (Prod.mk.inj hkey).1.trans hpath
    refine ⟨hf, hcontent, hnone, fun row hrow hchecksum => ?_⟩
    obtain ⟨row', hrow', hpath⟩ :=
      h.relocated_eq_nil_iff.1 hrelocated f hf hcontent ⟨row, hrow, hchecksum⟩
    exact hnone row' hrow' hpath

/-- Both runs fail to decompose the same files, unless the second takes files over. -/
theorem parseFailures_eq (hrelocated : (second.workload (left events first)).relocated = []) :
    (second.report (left events first)).parseFailures =
      (first.report (after events).memory).parseFailures := by
  have hsame : (second.workload (left events first)).pending.filterMap first.failureLine? =
      (first.workload (after events).memory).pending.filterMap first.failureLine? := by
    -- both pending lists are parts of one scan, and they differ in files without a line at most
    rw [h.workload_eq, Workload.pending_eq_filter, List.filterMap_filter, ← h.workload_eq]
    show _ = (Workload.make first.files _ _).pending.filterMap first.failureLine?
    rw [Workload.pending_eq_filter, List.filterMap_filter]
    refine List.filterMap_congr fun f hf => ?_
    cases hok : first.indexer.decomposeFile first.top first.root f with
    | ok g => simp [ProjectRun.failureLine?, Decomposed.failure?, hok]
    | error e =>
      have hiff := h.mem_pending_iff_of_error hrelocated hf hok
      change _ ↔ f ∈ (Workload.make first.files _ _).pending at hiff
      simp only [decide_eq_true_eq, hiff]
  have hline : second.failureLine? = first.failureLine? := by
    funext f
    unfold ProjectRun.failureLine?
    rw [h.project.decomposeFile]
  have hsecond := h.orderlySecond.failures_perm (left events first)
  rw [hline, hsame] at hsecond
  exact Workload.parseFailures_eq_of_perm
    (hsecond.trans (h.orderly.failures_perm (after events).memory).symm)

/-! ## §4 How the second run ends -/

/-- The second run ends well.  It takes its snapshot from memory if it proposes nothing else, and it
calls nobody. -/
theorem ends_well : ∃ session written,
    second.outcome (first.outcome (after events)).session =
      ⟨session, .ok (second.report (left events first)), [], [], written, second.state⟩ ∧
    (second.proposed (left events first) = left events first →
      session.memory = left events first) := by
  have hscan : second.indexer.scan second.top second.root = .ok second.files := by
    have hfirst := h.clean.finished.scan
    unfold Indexer.scan at hfirst ⊢
    rw [h.project.top, h.project.root, h.project.extraIgnore, h.project.files]
    exact hfirst
  have htarget := after_target (events ++ [.run first])
  rw [after_concat] at htarget
  obtain ⟨session, written, hsettle, hmemory⟩ := second.indexer.settle_of_undisturbed
    h.undisturbed.lookupFails h.undisturbed.writeFails htarget (second.proposed (left events first))
  have hout := second.outcome_of_settle_ok (first.outcome (after events)).session hscan
    h.undisturbed.cancelledAt h.undisturbed.workerFails hsettle
  have hnone := h.requested_eq_nil
  unfold left at hnone
  rw [hnone, Embedder.embedTexts_nil] at hout
  refine ⟨session, written, hout, fun hsame => ?_⟩
  -- memory holds the proposal, or what it held before; both are the snapshot of the first run
  rcases hmemory with hnext | hold
  · rw [hnext, hsame]
  · rw [hold]
    rfl

private theorem unitsCreated_eq_zero_iff : (second.report (left events first)).unitsCreated = 0 ↔
    (second.workload (left events first)).relocated = [] := by
  show (Workload.newRows _ _).length = 0 ↔ _
  rw [h.newRows_eq, List.length_eq_zero_iff]
  constructor
  · intro hnil
    refine List.eq_nil_iff_forall_not_mem.2 fun g hg => h.relocated_units_ne_nil hg ?_
    exact rowsOfRecord_eq_nil_iff.1 (List.flatMap_eq_nil_iff.1 hnil g hg)
  · intro hnil
    rw [hnil]
    rfl

private theorem rowsRemoved_eq_zero : (second.report (left events first)).rowsRemoved = 0 := by
  show (left events first).rows.length - List.length (List.filter _ (left events first).rows) = 0
  rw [h.carried_rows_eq, Nat.sub_self]

end Rerun

/-- After a clean run, a second run of the same project that nothing interferes with leaves the
snapshot as it is, calls nobody, creates and removes no row, and fails to decompose the same files,
if and only if every file whose content has rows under some path has rows of its own. -/
theorem second_run_idle_iff (events : List SessionEvent) (first second : ProjectRun)
    (horderly : first.Orderly) (hclean : first.Clean (after events))
    (hproject : second.SameProject first) (horderly' : second.Orderly)
    (hundisturbed : second.Undisturbed) :
    let session := (first.outcome (after events)).session
    (∃ report report', (first.outcome (after events)).result = .ok report ∧
        (second.outcome session).result = .ok report' ∧
        (second.outcome session).session.memory = session.memory ∧
        (second.outcome session).calls = 0 ∧ report'.unitsCreated = 0 ∧
        report'.rowsRemoved = 0 ∧ report'.parseFailures = report.parseFailures) ↔
      ∀ f ∈ first.files, f.checksum ≠ Checksum.empty →
        (∃ row ∈ session.memory.rows, row.checksum = f.checksum) →
        ∃ row ∈ session.memory.rows, row.filepath = f.filepath := by
  have h : Rerun events first second := ⟨horderly, hclean, hproject, horderly', hundisturbed⟩
  obtain ⟨session', written, hout, hmemory⟩ := h.ends_well
  refine Iff.trans ?_ h.relocated_eq_nil_iff
  constructor
  · rintro ⟨report, report', _, hok, _, _, hcreated, _, _⟩
    rw [hout] at hok
    rw [← Except.ok.inj hok] at hcreated
    exact h.unitsCreated_eq_zero_iff.1 hcreated
  · intro hrelocated
    refine ⟨_, second.report (Rerun.left events first), h.clean.finished.result, ?_⟩
    rw [hout]
    exact ⟨rfl, hmemory (h.proposed_eq hrelocated), rfl,
      h.unitsCreated_eq_zero_iff.2 hrelocated, h.rowsRemoved_eq_zero,
      h.parseFailures_eq hrelocated⟩

/-- After one file was indexed, a second one is indexed beside it, and indexing both once more takes
no call. -/
theorem second_run_idle_iff_sample :
    (after [.run Sample.run, .run Sample.pair]).memory.rows = [Sample.row, Sample.otherRow] ∧
      (Sample.pair.outcome (after [.run Sample.run, .run Sample.pair])).calls = 0 ∧
      (Sample.pair.outcome (after [.run Sample.run, .run Sample.pair])).session.memory =
        (after [.run Sample.run, .run Sample.pair]).memory := by
  have hmemory : (Sample.pair.outcome (after [.run Sample.run])).session.memory =
      ⟨[Sample.row, Sample.otherRow], some Sample.run.modelId, []⟩ := Sample.pair_memory_eq
  have hidle := (second_run_idle_iff [.run Sample.run] Sample.pair Sample.pair Sample.pair_orderly
    Sample.pair_clean ⟨rfl, rfl, rfl, rfl, rfl⟩ Sample.pair_orderly Sample.pair_undisturbed).2 ?_
  · obtain ⟨_, _, _, _, hsame, hcalls, _⟩ := hidle
    exact ⟨congrArg Snapshot.rows hmemory, hcalls, hsame⟩
  · -- both files have rows, so the condition holds of each
    intro f hf _ _
    rw [hmemory]
    rw [Sample.pair_files_eq, List.mem_pair] at hf
    rcases hf with rfl | rfl
    · exact ⟨Sample.row, List.mem_cons_self, rfl⟩
    · exact ⟨Sample.otherRow, List.mem_cons_of_mem _ List.mem_cons_self, rfl⟩

end CodeIndex
