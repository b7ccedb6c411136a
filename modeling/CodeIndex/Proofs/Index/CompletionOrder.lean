import CodeIndex.Proofs.Embedding.Constant
import CodeIndex.Proofs.Index.Models

/-!
# The order in which workers finish

Files come back from the workers in any order, and in that order they are embedded.  Where the
provider's answers depend on the text alone, nobody can tell the order afterwards: each path has its
rows from one record, rows are sorted by paths, and reports count.  Only lists whose order says
nothing, of incomplete files and of failures, may be permuted.
-/

namespace CodeIndex

open EmbeddingBatch Snapshot StoreSession

/-! ## §1 Agreement -/

/-- Both snapshots hold the same rows in the same order, of the same model, and mark the same files.
-/
structure Snapshot.Agree (s t : Snapshot) : Prop where
  rows : s.rows = t.rows
  model : s.model = t.model
  incomplete : s.incomplete.Perm t.incomplete

/-- Every snapshot agrees with itself. -/
theorem Snapshot.Agree.refl (s : Snapshot) : s.Agree s := ⟨rfl, rfl, .refl _⟩

private theorem Snapshot.Agree.refl_all (snapshots : List Snapshot) :
    List.Forall₂ Snapshot.Agree snapshots snapshots :=
  List.forall₂_same.2 fun s _ => .refl s

/-- Both reports say the same, except that embedding failures may be listed in another order. -/
structure RunReport.Agree (a b : RunReport) : Prop where
  fields : { a with embeddingFailures := b.embeddingFailures } = b
  failures : a.embeddingFailures.Perm b.embeddingFailures

/-- Both runs fail alike, or they report the same. -/
inductive RunReport.SameResult :
    Except IndexError RunReport → Except IndexError RunReport → Prop where
  | ok {a b : RunReport} (agree : a.Agree b) : SameResult (.ok a) (.ok b)
  | error (e : IndexError) : SameResult (.error e) (.error e)

/-- Nothing that is left of a run, or that it says, tells it from the other. -/
structure RunOutcome.Agree {σ : Type} (a b : RunOutcome σ) : Prop where
  snapshots : List.Forall₂ Snapshot.Agree a.session.snapshots b.session.snapshots
  result : RunReport.SameResult a.result b.result
  asked : a.asked.Perm b.asked
  written : a.written = b.written

/-- Runs that stop with one error, and leave the session alone, agree. -/
theorem RunOutcome.Agree.stopped {σ : Type} (session : StoreSession) (e : IndexError) (state : σ) :
    (RunOutcome.mk session (.error e) [] [] false state).Agree
      (RunOutcome.mk session (.error e) [] [] false state) :=
  ⟨Snapshot.Agree.refl_all _, .error e, .refl _, rfl⟩

/-- The run, except that its workers finish in this order. -/
def ProjectRun.withOrder (r : ProjectRun) (arrange : List Decomposed → List Decomposed) :
    ProjectRun :=
  { r with circumstances := { r.circumstances with arrange := arrange } }

namespace Snapshot.Agree

variable {s t : Snapshot}

private theorem sameContent_eq (h : s.Agree t) (u : Snapshot) :
    s.sameContent u = t.sameContent u := by
  have hall : s.incomplete.all u.incomplete.contains = t.incomplete.all u.incomplete.contains := by
    rw [Bool.eq_iff_iff, List.all_eq_true, List.all_eq_true]
    simp only [h.incomplete.mem_iff]
  have hcontains : s.incomplete.contains = t.incomplete.contains := by
    funext key
    rw [Bool.eq_iff_iff, List.contains_iff_mem, List.contains_iff_mem, h.incomplete.mem_iff]
  unfold sameContent
  rw [h.rows, h.model, hall, hcontains]

private theorem writable_iff (h : s.Agree t) (fails : WriteStep → Bool) (d : Disk) :
    d.Writable fails s ↔ d.Writable fails t := by
  -- the steps of a write depend on the rows and on how many marks there are
  have hsteps : Disk.steps s = Disk.steps t := by
    unfold Disk.steps Disk.stepsBefore
    rw [h.rows, h.incomplete.length_eq]
  constructor
  · rintro ⟨hnone, htarget⟩
    exact ⟨hsteps ▸ hnone, htarget⟩
  · rintro ⟨hnone, htarget⟩
    exact ⟨hsteps ▸ hnone, htarget⟩

end Snapshot.Agree

/-! ## §2 Snapshots and reports -/

namespace Workload

variable {embedded embedded' : EmbedOutcome}

private theorem nextSnapshot_agree (w : Workload) (previous : Snapshot) (model : String)
    (hrecords : embedded.records.Perm embedded'.records)
    (hfailures : embedded.failures.Perm embedded'.failures)
    (hdistinct : (embedded.records.map FileRecord.filepath).Nodup) :
    (w.nextSnapshot previous model embedded).Agree
      (w.nextSnapshot previous model embedded') := by
  -- rows are sorted by paths, and the new rows of a path are those of one record
  have hrows : (w.nextSnapshot previous model embedded).rows =
      (w.nextSnapshot previous model embedded').rows := by
    refine eq_of_rowsAt_eq (sorted_merge ..) (sorted_merge ..) fun p => ?_
    rw [nextSnapshot_rows, nextSnapshot_rows, rowsAt_merge, rowsAt_merge]
    unfold newRows
    rw [rowsOfRecords_append, rowsOfRecords_append, rowsAt_append, rowsAt_append,
      rowsAt_rowsOfRecords_of_perm hrecords hdistinct]
  refine ⟨hrows, ?_, ?_⟩
  · rw [nextSnapshot_model, nextSnapshot_model, hrows]
  · -- neither list of marks has duplicates, and both have the same members
    refine (List.perm_ext_iff_of_nodup (nodup_eraseDups _) (nodup_eraseDups _)).2 fun key => ?_
    show key ∈ (w.nextSnapshot previous model embedded).incomplete ↔
      key ∈ (w.nextSnapshot previous model embedded').incomplete
    rw [mem_incomplete_nextSnapshot, mem_incomplete_nextSnapshot]
    simp only [hfailures.mem_iff]

/-- The report does not depend on the order of the files, apart from the list of failures. -/
theorem report_agree (w : Workload) (scan : List FileRecord) (previous : Snapshot)
    {results results' : List Decomposed} (hresults : results.Perm results')
    (hrecords : embedded.records.Perm embedded'.records)
    (hfailures : embedded.failures.Perm embedded'.failures) :
    (w.report scan previous results embedded).Agree
      (w.report scan previous results' embedded') := by
  -- counts do not see an order, and parse failures are sorted
  have hcount : (w.newRows embedded).length = (w.newRows embedded').length :=
    ((hrecords.append_right w.relocated).flatMap_right rowsOfRecord).length_eq
  have hparse : parseFailures results = parseFailures results' :=
    parseFailures_eq_of_perm (hresults.filterMap Decomposed.failure?)
  refine ⟨?_, hfailures.map EmbeddingFailure.text⟩
  unfold report
  simp only [hcount, hparse]

end Workload

/-! ## §3 Runs -/

namespace Indexer

variable {σ : Type} {ix : Indexer σ} {next next' : Snapshot}

private theorem settle_agree (ix : Indexer σ) (c : Circumstances) (session : StoreSession)
    (h : next.Agree next') (hread : next.toDatabase.readSnapshot = .ok next)
    (hread' : next'.toDatabase.readSnapshot = .ok next') :
    (ix.settle c next session).2 = (ix.settle c next' session).2 ∧
      List.Forall₂ Snapshot.Agree (ix.settle c next session).1.snapshots
        (ix.settle c next' session).1.snapshots := by
  have hmust : mustWrite c next session = mustWrite c next' session := by
    unfold mustWrite
    rw [h.sameContent_eq]
  unfold settle
  rw [hmust]
  cases mustWrite c next' session with
  | error e => exact ⟨rfl, Agree.refl_all _⟩
  | ok must =>
    cases must with
    | false => exact ⟨rfl, Agree.refl_all _⟩
    | true =>
      by_cases hwritable : session.disk.Writable c.writeFails next
      · have hwritable' := (h.writable_iff c.writeFails session.disk).1 hwritable
        rw [commit_of_writable hwritable, commit_of_writable hwritable']
        refine ⟨rfl, ?_⟩
        -- memory and file hold what was committed
        show List.Forall₂ Snapshot.Agree (next :: next.toDatabase.readSnapshot.toOption.toList)
          (next' :: next'.toDatabase.readSnapshot.toOption.toList)
        rw [hread, hread']
        exact .cons h (.cons h .nil)
      · have hwritable' := (h.writable_iff c.writeFails session.disk).not.1 hwritable
        rw [commit_of_not_writable hwritable, commit_of_not_writable hwritable']
        exact ⟨rfl, Agree.refl_all _⟩

/-- From the decomposed files on a run takes the same course in whatever order they come. -/
theorem conclude_agree (hconstant : ix.embedder.IsConstant) (c : Circumstances)
    (scan : List FileRecord) (w : Workload) {results results' : List Decomposed}
    (hresults : results.Perm results')
    (hdistinct : ((Workload.parsed results).map FileRecord.filepath).Nodup)
    (session : StoreSession) (state : σ) :
    (ix.conclude c scan w results session state).Agree
      (ix.conclude c scan w results' session state) := by
  obtain ⟨result, hresult⟩ := hconstant.embedRecords_outcome
  have hparsed : (Workload.parsed results).Perm (Workload.parsed results') :=
    hresults.filterMap Decomposed.record?
  have hasked : (unitTexts (Workload.parsed results)).Perm
      (unitTexts (Workload.parsed results')) := hparsed.flatMap_right _
  unfold conclude
  by_cases hembedding : c.cancelledAt = some .embedding
  · rw [if_pos hembedding, if_pos hembedding]
    exact .stopped ..
  rw [if_neg hembedding, if_neg hembedding]
  by_cases hcommitting : c.cancelledAt = some .committing
  · simp only [if_pos hcommitting]
    exact ⟨Agree.refl_all _, .error _, hasked, rfl⟩
  simp only [if_neg hcommitting]
  -- file by file the same is embedded
  rw [hresult, hresult]
  obtain ⟨hrecords, hfailures⟩ := settledEach_perm result hparsed
  rw [← settledEach_filepaths result] at hdistinct
  have hnext := w.nextSnapshot_agree session.memory ix.modelId hrecords hfailures hdistinct
  have hreport := w.report_agree scan session.memory hresults hrecords hfailures
  obtain ⟨hsettled, hsnapshots⟩ := ix.settle_agree c session hnext
    (Workload.readSnapshot_nextSnapshot ..) (Workload.readSnapshot_nextSnapshot ..)
  split
  · next hok =>
    rw [hok] at hsettled hsnapshots
    split
    · next hok' =>
      rw [hok'] at hsettled hsnapshots
      exact ⟨hsnapshots, .ok hreport, hasked, Except.ok.inj hsettled⟩
    · next herror =>
      rw [herror] at hsettled
      cases hsettled
  · next herror =>
    rw [herror] at hsettled hsnapshots
    split
    · next hok =>
      rw [hok] at hsettled
      cases hsettled
    · next herror' =>
      rw [herror'] at hsettled hsnapshots
      obtain rfl := Except.error.inj hsettled
      exact ⟨hsnapshots, .error _, hasked, rfl⟩

/-- Before that the order is not looked at. -/
theorem runOn_agree (hconstant : ix.embedder.IsConstant) (c : Circumstances)
    {arrange arrange' : List Decomposed → List Decomposed} (scan : List FileRecord)
    (decomposeFile : FileRecord → Except IndexError FileRecord) (session : StoreSession) (state : σ)
    (harrange : ∀ ds, (arrange ds).Perm (arrange' ds))
    (hdistinct : ((Workload.parsed (arrange ((Workload.make scan session.memory
      ix.modelId).decompose decomposeFile))).map FileRecord.filepath).Nodup) :
    (ix.runOn { c with arrange := arrange } scan decomposeFile session state).Agree
      (ix.runOn { c with arrange := arrange' } scan decomposeFile session state) := by
  unfold runOn
  by_cases hdecomposing : c.cancelledAt = some .decomposing
  · simp only [if_pos hdecomposing]
    exact .stopped ..
  by_cases hworkers : c.workerFails = true
  · simp only [if_neg hdecomposing, if_pos hworkers]
    exact .stopped ..
  simp only [if_neg hdecomposing, if_neg hworkers]
  exact conclude_agree hconstant c scan _ (harrange _) hdistinct session state

end Indexer

namespace ProjectRun

/-- The order in which workers finish does not matter, from whatever session a run starts and
however it ends, as long as files have paths of their own and the provider's answers depend on the
text alone.  Memory and file hold the same rows in the same order and mark the same files as
incomplete; the run has the same error, or a report with the same counts and parse failures, and the
same embedding failures in some order; the embedder has been given the same texts, and a snapshot
was written in both cases or in neither. -/
theorem completion_order_irrelevant (session : StoreSession) (r : ProjectRun)
    (provider : Provider r.σ) (tokenize : String → Tokens) (settings : EmbedderSettings)
    (hembedder : r.indexer.embedder = .ofProvider provider tokenize settings)
    (hprovider : provider.Stateless) (hdistinct : (r.files.map FileRecord.filepath).Nodup)
    (arrange arrange' : List Decomposed → List Decomposed)
    (harrange : ∀ ds, (arrange ds).Perm ds) (harrange' : ∀ ds, (arrange' ds).Perm ds) :
    ((r.withOrder arrange).outcome session).Agree ((r.withOrder arrange').outcome session) := by
  have hconstant : r.indexer.embedder.IsConstant := by
    rw [hembedder]
    exact Embedder.isConstant_ofProvider hprovider tokenize settings
  -- the scan comes before the workers, so both runs stop there or neither does
  cases hscan : r.indexer.scan r.top r.root with
  | error e =>
    rw [outcome_of_scan_error (r.withOrder arrange) session hscan,
      outcome_of_scan_error (r.withOrder arrange') session hscan]
    exact .stopped ..
  | ok files =>
    obtain rfl := r.files_of_scan hscan
    have horderly : (r.withOrder arrange).Orderly := ⟨hdistinct, harrange⟩
    rw [outcome_of_scan_ok (r.withOrder arrange) session hscan,
      outcome_of_scan_ok (r.withOrder arrange') session hscan]
    exact Indexer.runOn_agree hconstant r.circumstances r.files
      (r.indexer.decomposeFile r.top r.root) session r.state
      (fun ds => (harrange ds).trans (harrange' ds).symm) (horderly.nodup_parsed session.memory)

end ProjectRun

/-- The sample's two files may come back in either order. -/
theorem ProjectRun.completion_order_irrelevant_sample :
    Sample.pair.files.map FileRecord.filepath = ["a.py", "b.py"] ∧
      ((Sample.pair.withOrder id).outcome fresh).Agree
        ((Sample.pair.withOrder List.reverse).outcome fresh) := by
  have hembedder : Sample.pair.indexer.embedder =
      .ofProvider Sample.provider (fun text => [text.toUTF8]) {} := rfl
  have hprovider : Sample.provider.Stateless := fun _ _ _ => rfl
  have hdistinct : (Sample.pair.files.map FileRecord.filepath).Nodup := by
    rw [Sample.pair_filepaths]
    decide
  exact ⟨Sample.pair_filepaths, completion_order_irrelevant fresh Sample.pair Sample.provider _ _
    hembedder hprovider hdistinct id List.reverse (fun _ => .refl _) fun ds => ds.reverse_perm⟩

end CodeIndex
