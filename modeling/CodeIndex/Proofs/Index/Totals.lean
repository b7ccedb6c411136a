import CodeIndex.Proofs.Index.Classification
import CodeIndex.Proofs.Index.CompletionOrder

/-!
# The totals of a report

A report counts in many places: files by what becomes of them, rows of the snapshots before and
after, units that were found and units that were lost.  Nothing is counted twice or left out on the
way from one place to the next, so the counts add up: `ProjectRun.report_adds_up`.
-/

namespace CodeIndex

open EmbeddingBatch Snapshot StoreSession

/-! ## §1 Units of files -/

/-- How many units some files have together. -/
def FileRecord.totalUnits (files : List FileRecord) : Nat :=
  (files.map fun f => f.units.length).sum

open FileRecord

@[simp] theorem FileRecord.totalUnits_nil : totalUnits [] = 0 := rfl

@[simp] theorem FileRecord.totalUnits_cons (f : FileRecord) (files : List FileRecord) :
    totalUnits (f :: files) = f.units.length + totalUnits files := by
  simp [totalUnits]

@[simp] theorem FileRecord.totalUnits_append (files more : List FileRecord) :
    totalUnits (files ++ more) = totalUnits files + totalUnits more := by
  simp [totalUnits]

private theorem FileRecord.totalUnits_of_perm {files more : List FileRecord} (h : files.Perm more) :
    totalUnits files = totalUnits more := by
  unfold totalUnits
  exact (h.map _).sum_nat

/-- Each unit has its row. -/
theorem Snapshot.length_rowsOfRecords (files : List FileRecord) :
    (rowsOfRecords files).length = totalUnits files := by
  simp [rowsOfRecords, rowsOfRecord, totalUnits, List.length_flatMap]

namespace EmbeddingBatch

private theorem settled_totalUnits {dealt : List (FileRecord × List Result)}
    (hlength : ∀ r rs, (r, rs) ∈ dealt → rs.length = r.units.length) :
    totalUnits (dealt.map fun (r, rs) => settledRecord r rs) +
        (dealt.flatMap fun (r, rs) => failuresOf r rs).length =
      totalUnits (dealt.map Prod.fst) := by
  induction dealt with
  | nil => rfl
  | cons share dealt ih =>
    -- each reply is a unit of the record or a failure, and no other
    obtain ⟨r, rs⟩ := share
    have hfirst := settledRecord_length (hlength r rs List.mem_cons_self)
    have hrest := ih fun r' rs' h => hlength r' rs' (List.mem_cons_of_mem _ h)
    simp only [List.map_cons, List.flatMap_cons, totalUnits_cons, List.length_append] at hrest ⊢
    omega

/-- In a batch every unit is embedded or is a failure. -/
theorem settle_totalUnits {records : List FileRecord} {results : List Result}
    (hlength : results.length = (unitTexts records).length) :
    totalUnits (settle records results).records + (settle records results).failures.length =
      totalUnits records := by
  have hdealt := settled_totalUnits fun _ _ h => length_of_mem_shares hlength h
  rw [map_fst_shares] at hdealt
  rw [settle_records, settle_failures]
  exact hdealt

end EmbeddingBatch

/-! ## §2 Files of a run -/

/-- The lists of a plan have the files of the scan between them. -/
theorem UpdatePlan.length_eq {scan : List FileRecord}
    (hdistinct : (scan.map FileRecord.filepath).Nodup) (previous : Snapshot) (model : String) :
    scan.length = (make scan previous model).carried.length +
      (make scan previous model).skippedEmpty.length +
      (make scan previous model).toProcess.length := by
  have hperm := (@perm_keys scan previous model hdistinct).length_eq
  simpa only [List.length_append, List.length_map] using hperm

namespace Decomposed

variable (filepath : String) (g : FileRecord) (e : IndexError)

@[simp] theorem record?_ok : record? ⟨filepath, .ok g⟩ = some g := rfl

@[simp] theorem record?_error : record? ⟨filepath, .error e⟩ = none := rfl

@[simp] theorem failure?_ok : failure? ⟨filepath, .ok g⟩ = none := rfl

@[simp] theorem failure?_error :
    failure? ⟨filepath, .error e⟩ = some (filepath ++ ": " ++ e.message) := rfl

end Decomposed

namespace Workload

/-- What is to be processed is taken over or pending. -/
theorem length_toProcess (scan : List FileRecord) (previous : Snapshot) (model : String) :
    (UpdatePlan.make scan previous model).toProcess.length =
      (make scan previous model).pending.length + (make scan previous model).relocated.length := by
  show _ = (List.filter _ (UpdatePlan.make scan previous model).toProcess).length +
    (List.filterMap _ (UpdatePlan.make scan previous model).toProcess).length
  rw [List.length_filterMap_eq_countP, ← List.countP_eq_length_filter,
    List.length_eq_countP_add_countP fun f =>
      (relocate? (UpdatePlan.make scan previous model) previous f).isNone]
  congr 2
  funext f
  cases relocate? (UpdatePlan.make scan previous model) previous f <;> rfl

/-- Of each file there is a record or a failure. -/
theorem length_parseFailures (results : List Decomposed) :
    (parseFailures results).length + (parsed results).length = results.length := by
  unfold parseFailures parsed
  rw [List.length_mergeSort]
  induction results with
  | nil => rfl
  | cons d results ih =>
    obtain ⟨filepath, outcome⟩ := d
    -- a result counts on one side or the other
    cases outcome with
    | ok g =>
      rw [List.filterMap_cons_none (Decomposed.failure?_ok ..),
        List.filterMap_cons_some (Decomposed.record?_ok ..), List.length_cons, List.length_cons]
      omega
    | error e =>
      rw [List.filterMap_cons_some (Decomposed.failure?_error ..),
        List.filterMap_cons_none (Decomposed.record?_error ..), List.length_cons, List.length_cons]
      omega

end Workload

namespace ProjectRun

variable (r : ProjectRun) (memory : Snapshot)

/-- How many units decomposing the pending files produces. -/
def producedUnits : Nat :=
  ((r.workload memory).pending.map fun f =>
    match r.indexer.decomposeFile r.top r.root f with
    | .ok g => g.units.length
    | .error _ => 0).sum

/-- How many units are taken over from files of the same content. -/
def copiedUnits : Nat := totalUnits (r.workload memory).relocated

private theorem producedUnits_eq : r.producedUnits memory = totalUnits (r.decomposed memory) := by
  unfold producedUnits decomposed Workload.parsed Workload.decompose
  induction (r.workload memory).pending with
  | nil => rfl
  | cons f pending ih =>
    rw [List.map_cons, List.map_cons, List.sum_cons, ih]
    cases r.indexer.decomposeFile r.top r.root f with
    | ok g => rw [List.filterMap_cons_some (Decomposed.record?_ok ..), totalUnits_cons]
    | error e => rw [List.filterMap_cons_none (Decomposed.record?_error ..), Nat.zero_add]

variable {r memory}

/-- The workers give every pending file back. -/
theorem Orderly.length_results (h : r.Orderly) (memory : Snapshot) :
    (r.results memory).length = (r.workload memory).pending.length := by
  have hperm := (h.arranges ((r.workload memory).decompose
    (r.indexer.decomposeFile r.top r.root))).length_eq
  rwa [Workload.decompose, List.length_map] at hperm

private theorem Orderly.length_parseFailures (h : r.Orderly) (memory : Snapshot) :
    (r.report memory).parseFailures.length + (r.decomposed memory).length =
      (r.report memory).filesProcessed := by
  have hresults := Workload.length_parseFailures (r.results memory)
  rw [h.length_results, (h.parsed_perm memory).length_eq] at hresults
  exact hresults

/-- A unit that was produced or copied is in the new rows, or was lost to a failure. -/
theorem Orderly.unitsCreated_add (h : r.Orderly) (memory : Snapshot) :
    r.producedUnits memory + r.copiedUnits memory =
      (r.report memory).unitsCreated + (r.report memory).embeddingFailures.length := by
  have hsettled := settle_totalUnits (r.length_replies memory)
  rw [← embedded_eq_settle, totalUnits_of_perm (h.parsed_perm memory)] at hsettled
  -- rows that are new come from what was embedded and from what was copied
  have hcreated : (r.report memory).unitsCreated =
      totalUnits (r.embedded memory).records + r.copiedUnits memory := by
    show (rowsOfRecords (_ ++ _)).length = _
    rw [length_rowsOfRecords, totalUnits_append]
    rfl
  have hfailures : (r.report memory).embeddingFailures.length =
      (r.embedded memory).failures.length := List.length_map _
  rw [producedUnits_eq, hcreated, hfailures]
  omega

/-- The proposed rows are the carried and the new ones. -/
theorem length_proposed_rows (r : ProjectRun) (memory : Snapshot) :
    (r.proposed memory).rows.length =
      (r.report memory).unitsCarried + (r.report memory).unitsCreated := by
  show (sortRows _).length = _
  rw [(perm_sortRows _).length_eq, List.length_append]
  rfl

private theorem unitsCarried_le (r : ProjectRun) (memory : Snapshot) :
    (r.report memory).unitsCarried ≤ memory.rows.length :=
  List.length_filter_le ..

/-- The report of a run that ends well adds up, from whatever session the run starts.  Every scanned
file is counted once, as unchanged, empty, processed or relocated.  Every row that was there before
is carried or removed, so no more are carried than there were, and every row that is there
afterwards is carried or new.  No more files fail to parse than were processed.  Every unit that
decomposing produced or that was copied is among the new ones or lost to an embedding failure. -/
theorem report_adds_up (session : StoreSession) (r : ProjectRun) (h : r.Orderly)
    (report : RunReport) (hok : (r.outcome session).result = .ok report) :
    report.filesScanned = r.files.length ∧
      report.filesScanned = report.filesUnchanged + report.filesSkippedEmpty +
        report.filesProcessed + report.filesRelocated ∧
      report.unitsCarried ≤ session.memory.rows.length ∧
      session.memory.rows.length = report.unitsCarried + report.rowsRemoved ∧
      (r.outcome session).session.memory.rows.length =
        report.unitsCarried + report.unitsCreated ∧
      report.parseFailures.length ≤ report.filesProcessed ∧
      r.producedUnits session.memory + r.copiedUnits session.memory =
        report.unitsCreated + report.embeddingFailures.length := by
  obtain ⟨hfinished, _⟩ := r.finished_of_ok session hok
  have hreport : report = r.report session.memory := by
    rw [hfinished.result] at hok
    exact (Except.ok.inj hok).symm
  subst hreport
  have hcarried := r.unitsCarried_le session.memory
  refine ⟨rfl, ?_, hcarried, ?_, ?_, ?_, h.unitsCreated_add session.memory⟩
  · have hplan := UpdatePlan.length_eq h.distinct session.memory r.modelId
    rw [Workload.length_toProcess] at hplan
    exact hplan.trans (Nat.add_assoc ..).symm
  · -- what is removed is what the carried rows leave
    exact (Nat.add_sub_cancel' hcarried).symm
  · -- memory has as many rows as were proposed, also where it was left as it was
    have hkeys := congrArg List.length hfinished.memory.1
    rw [List.length_map, List.length_map] at hkeys
    rw [hkeys, r.length_proposed_rows]
  · exact Nat.le_of_add_right_le (Nat.le_of_eq (h.length_parseFailures session.memory))

end ProjectRun

/-- The report on two files, one of which was indexed before, adds up. -/
theorem ProjectRun.report_adds_up_sample :
    ∃ report, (Sample.pair.outcome (after [.run Sample.run])).result = .ok report ∧
      report.filesUnchanged + report.filesSkippedEmpty + report.filesProcessed +
        report.filesRelocated = 2 ∧
      (after [.run Sample.run]).memory.rows.length = report.unitsCarried + report.rowsRemoved ∧
      0 < report.unitsCarried + report.rowsRemoved := by
  obtain ⟨hscanned, hfiles, _, hrows, _⟩ := report_adds_up (after [.run Sample.run]) Sample.pair
    Sample.pair_orderly _ Sample.pair_finished.result
  have htwo : Sample.pair.files.length = 2 := by
    rw [← List.length_map (f := FileRecord.filepath), Sample.pair_filepaths]
    rfl
  refine ⟨_, Sample.pair_finished.result, ?_, hrows, ?_⟩
  · rw [← hfiles, hscanned, htwo]
  · rw [← hrows]
    exact List.length_pos_of_mem Sample.memory_rows

end CodeIndex
