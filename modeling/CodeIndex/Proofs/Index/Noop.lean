import CodeIndex.Proofs.Index.Classification
import CodeIndex.Proofs.Index.Completeness

/-!
# Plans without work

A plan has no work if it processes no file and has nothing stale.  Then the rows may be relied on,
and every scanned file with rows is carried.  What such a plan does not look at are the files that
are gone: nothing of theirs is listed as stale, and a merge leaves their rows out.  So it leaves all
rows as they are exactly if no file is gone: `UpdatePlan.isNoop_keeps_iff`.
-/

namespace CodeIndex

open Snapshot StoreSession

namespace Snapshot

private theorem checksumOf?_eq_none_iff {s : Snapshot} {p : String} :
    s.checksumOf? p = none ↔ ∀ row ∈ s.rows, row.filepath ≠ p := by
  simp [checksumOf?]

/-- The rows of the file versions that a scan found. -/
def scannedRows (s : Snapshot) (scan : List FileRecord) : List SnapshotRow :=
  s.rows.filter fun row => (scan.map FileRecord.key).contains row.key

private theorem scannedRows_eq_iff {s : Snapshot} {scan : List FileRecord} :
    s.scannedRows scan = s.rows ↔ ∀ row ∈ s.rows, ∃ f ∈ scan, f.key = row.key := by
  simp only [scannedRows, List.filter_eq_self, List.contains_iff_mem, List.mem_map]

end Snapshot

namespace UpdatePlan

variable {scan : List FileRecord} {previous : Snapshot} {model : String} {f : FileRecord}

/-! ## §1 What a plan without work has seen -/

private theorem toProcess_eq_nil_iff : (make scan previous model).toProcess = [] ↔
    ∀ f ∈ scan, fateOf previous model f ≠ .process := by
  simp only [List.eq_nil_iff_forall_not_mem, mem_toProcess, not_and]

private theorem stale_eq_nil_iff : (make scan previous model).stale = [] ↔
    previous.embeddedBy model = true ∧ ∀ f ∈ scan, fateOf previous model f ≠ .carry →
      known? previous model f.filepath = none := by
  by_cases hreuse : previous.embeddedBy model = true
  · rw [List.eq_nil_iff_forall_not_mem, and_iff_right hreuse]
    simp only [mem_stale (embeddedBy_iff.1 hreuse), ← fateOf_carry_iff, ← known?_eq_some_iff,
      Option.eq_none_iff_forall_ne_some]
    constructor
    · intro hnone f hf hcarry c hknown
      exact hnone c ⟨f, hf, hcarry, hknown⟩
    · rintro hnone c ⟨f, hf, hcarry, hknown⟩
      exact hnone f hf hcarry c hknown
  · -- rows of another model are there, and their checksums are stale
    refine iff_of_false (fun hnil => ?_) fun h => hreuse h.1
    rw [embeddedBy_iff, not_or] at hreuse
    obtain ⟨row, hrow⟩ := List.exists_mem_of_ne_nil _ hreuse.1
    have hstale : row.checksum ∈ (make scan previous model).stale :=
      (mem_stale_of_foreign hreuse.1 hreuse.2).2 ⟨row, hrow, rfl⟩
    rw [hnil] at hstale
    cases hstale

/-- A plan has no work if the rows may be relied on, and every scanned file is carried or is an
empty one without rows. -/
theorem isNoop_iff : (make scan previous model).isNoop = true ↔
    previous.embeddedBy model = true ∧ ∀ f ∈ scan, fateOf previous model f = .carry ∨
      f.checksum = Checksum.empty ∧ ∀ row ∈ previous.rows, row.filepath ≠ f.filepath := by
  rw [isNoop, Bool.and_eq_true, List.isEmpty_iff, List.isEmpty_iff, toProcess_eq_nil_iff,
    stale_eq_nil_iff]
  constructor
  · rintro ⟨hprocess, hreuse, hstale⟩
    refine ⟨hreuse, fun f hf => Classical.or_iff_not_imp_left.2 fun hcarry => ?_⟩
    -- neither carried nor processed is skipped, and what is known of it would be stale
    have hknown := hstale f hf hcarry
    rw [known?, if_pos hreuse, checksumOf?_eq_none_iff] at hknown
    exact ⟨fateOf_eq_skip hcarry (hprocess f hf), hknown⟩
  · rintro ⟨hreuse, hfiles⟩
    refine ⟨fun f hf hprocess => ?_, hreuse, fun f hf hcarry => ?_⟩
    · obtain ⟨hcarry, hcontent⟩ := fateOf_eq_process_iff.1 hprocess
      exact hcontent ((hfiles f hf).resolve_left hcarry).1
    · rw [known?, if_pos hreuse, checksumOf?_eq_none_iff]
      exact ((hfiles f hf).resolve_left hcarry).2

/-! ## §2 What its merge keeps -/

/-- A plan without work carries every scanned file that has rows. -/
theorem fateOf_of_isNoop (hnoop : (make scan previous model).isNoop = true) (hf : f ∈ scan)
    {row : SnapshotRow} (hrow : row ∈ previous.rows) (hpath : row.filepath = f.filepath) :
    fateOf previous model f = .carry := by
  rcases (isNoop_iff.1 hnoop).2 f hf with hcarry | ⟨-, hnone⟩
  · exact hcarry
  · -- an empty file without rows has not this one
    exact absurd hpath (hnone row hrow)

/-- A row is carried by a plan without work if its version was scanned. -/
theorem key_mem_carried_of_isNoop (hnoop : (make scan previous model).isNoop = true)
    {row : SnapshotRow} (hrow : row ∈ previous.rows) :
    row.key ∈ (make scan previous model).carried ↔ ∃ f ∈ scan, f.key = row.key := by
  rw [mem_carried]
  constructor
  · rintro ⟨f, hf, _, hkey⟩
    exact ⟨f, hf, hkey⟩
  · rintro ⟨f, hf, hkey⟩
    exact ⟨f, hf, fateOf_of_isNoop hnoop hf hrow (Prod.mk.inj hkey).1.symm, hkey⟩

/-- Merging by a plan without work keeps the rows of what was scanned, and no others. -/
theorem merge_of_isNoop (hsorted : Sorted previous.rows)
    (hnoop : (make scan previous model).isNoop = true) :
    (previous.merge (make scan previous model).carried []).rows = previous.scannedRows scan := by
  have hkept : previous.rows.filter
        (fun row => (make scan previous model).carried.contains row.key) =
      previous.scannedRows scan := by
    refine List.filter_congr fun row hrow => ?_
    rw [Bool.eq_iff_iff, List.contains_iff_mem, List.contains_iff_mem, List.mem_map]
    exact key_mem_carried_of_isNoop hnoop hrow
  -- some of the sorted rows are sorted, so the merge leaves them where they are
  show sortRows (_ ++ []) = _
  rw [hkept, List.append_nil]
  exact sortRows_eq_self (hsorted.sublist List.filter_sublist)

/-- Where a path has one version, a plan without work has its rows scanned if it has its path. -/
theorem key_scanned_iff_of_isNoop (hone : OneVersion previous.rows)
    (hnoop : (make scan previous model).isNoop = true) {row : SnapshotRow}
    (hrow : row ∈ previous.rows) :
    (∃ f ∈ scan, f.key = row.key) ↔ ∃ f ∈ scan, f.filepath = row.filepath := by
  constructor
  · rintro ⟨f, hf, hkey⟩
    exact ⟨f, hf, (Prod.mk.inj hkey).1⟩
  · rintro ⟨f, hf, hpath⟩
    have hcarry := fateOf_of_isNoop hnoop hf hrow hpath.symm
    -- the file is known by some row of its path, and all of them agree
    obtain ⟨row', hrow', hkey⟩ := exists_row_of_checksumOf? (fateOf_eq_carry_iff.1 hcarry).2.1
    obtain ⟨hpath', hchecksum⟩ := Prod.mk.inj hkey
    have hsame := hone row' hrow' row hrow (hpath'.trans hpath)
    exact ⟨f, hf, Prod.ext hpath (hchecksum.symm.trans hsame)⟩

end UpdatePlan

/-! ## §3 Runs that find no work -/

/-- A run that finds no work asks for no vector, and proposes the rows of what it scanned. -/
theorem ProjectRun.Orderly.idle_of_isNoop {r : ProjectRun} {memory : Snapshot} (h : r.Orderly)
    (hsorted : Sorted memory.rows)
    (hnoop : (UpdatePlan.make r.files memory r.modelId).isNoop = true) :
    r.requested memory = [] ∧ (r.proposed memory).rows = memory.scannedRows r.files := by
  have hprocess : (r.workload memory).plan.toProcess = [] := by
    rw [UpdatePlan.isNoop, Bool.and_eq_true, List.isEmpty_iff] at hnoop
    exact hnoop.1
  have hrelocated : (r.workload memory).relocated = [] := congrArg (List.filterMap _) hprocess
  have hparsed : Workload.parsed (r.results memory) = [] := by
    refine List.eq_nil_iff_forall_not_mem.2 fun g hg => ?_
    -- a file that was decomposed was pending, so it was to be processed
    obtain ⟨f, hpending, _⟩ := h.exists_pending hg
    have hmem : f ∈ (r.workload memory).plan.toProcess := (List.mem_filter.1 hpending).1
    rw [hprocess] at hmem
    cases hmem
  have hrecords : (r.embedded memory).records = [] := by
    rw [r.embedded_eq_settle, hparsed]
    rfl
  have hnew : (r.workload memory).newRows (r.embedded memory) = [] := by
    rw [Workload.newRows, hrecords, hrelocated]
    rfl
  constructor
  · rw [requested, hparsed]
    rfl
  · show (memory.merge _ ((r.workload memory).newRows _)).rows = _
    rw [hnew]
    exact UpdatePlan.merge_of_isNoop hsorted hnoop

/-! ## §4 Histories -/

namespace UpdatePlan

/-- A plan without work need not leave the rows as they are.  Made for any snapshot that a store
ever holds, it keeps the rows of the file versions that were scanned, as they are, and drops all
others.  So no row changes exactly if every row is of a scanned version; in a history of orderly
runs that is to say that no file with rows has gone. -/
theorem isNoop_keeps_iff (events : List SessionEvent) (s : Snapshot)
    (hs : s ∈ (after events).snapshots) (scan : List FileRecord) (model : String)
    (hnoop : (make scan s model).isNoop = true) :
    let next := (s.merge (make scan s model).carried []).rows
    next = s.scannedRows scan ∧
      (next = s.rows ↔ ∀ row ∈ s.rows, ∃ f ∈ scan, f.key = row.key) ∧
      ((∀ r, .run r ∈ events → r.Orderly) →
        (next = s.rows ↔ ∀ row ∈ s.rows, ∃ f ∈ scan, f.filepath = row.filepath)) := by
  intro next
  have hnext : next = s.scannedRows scan := merge_of_isNoop (sorted_of_mem_snapshots hs) hnoop
  have hkeys : next = s.rows ↔ ∀ row ∈ s.rows, ∃ f ∈ scan, f.key = row.key := by
    rw [hnext, scannedRows_eq_iff]
  refine ⟨hnext, hkeys, fun hruns => ?_⟩
  have hone := (accounted_of_mem_snapshots hruns hs).one
  -- paths have one version each, so to be scanned is a matter of paths
  rw [hkeys]
  exact forall₂_congr fun row hrow => key_scanned_iff_of_isNoop hone hnoop hrow

end UpdatePlan

namespace Sample

/-- What the sample's run leaves in memory. -/
def remembered : Snapshot := (after [.run run]).memory

/-- What is remembered is of the run's model. -/
theorem embeddedBy_remembered : remembered.embeddedBy run.modelId = true := by
  rw [remembered, memory_eq]
  exact embeddedBy_iff.2 (.inr rfl)

/-- The only version that is remembered is that of the file. -/
theorem key_of_mem_remembered {row : SnapshotRow} (hrow : row ∈ remembered.rows) :
    row.key = file.key := by
  rw [remembered, memory_eq, List.mem_singleton] at hrow
  rw [hrow]
  rfl

/-- The sample's file is carried. -/
theorem fateOf_file : UpdatePlan.fateOf remembered run.modelId file = .carry := by
  have hknown := checksumOf?_eq_some memory_rows fun row hrow _ =>
    (Prod.mk.inj (key_of_mem_remembered hrow)).2
  refine UpdatePlan.fateOf_eq_carry_iff.2 ⟨embeddedBy_remembered, hknown, ?_⟩
  rw [remembered, show (after [.run run]).memory.incomplete = [] from clean.incomplete_eq_nil]
  exact nofun

end Sample

/-- Scanned again as it was, the sample changes no row; once its file is gone there is no work
either, but its row is lost. -/
theorem UpdatePlan.isNoop_keeps_iff_sample :
    let s := Sample.remembered
    let model := Sample.run.modelId
    (make [Sample.file] s model).isNoop = true ∧
      (s.merge (make [Sample.file] s model).carried []).rows = s.rows ∧
      (make [] s model).isNoop = true ∧ (s.merge (make [] s model).carried []).rows = [] ∧
      Sample.row ∈ s.rows := by
  intro s model
  -- one plan with the file in the scan, one without it
  have hsame : (make [Sample.file] s model).isNoop = true := by
    refine isNoop_iff.2 ⟨Sample.embeddedBy_remembered, fun f hf => .inl ?_⟩
    rw [List.mem_singleton.1 hf]
    exact Sample.fateOf_file
  have hgone : (make [] s model).isNoop = true :=
    isNoop_iff.2 ⟨Sample.embeddedBy_remembered, nofun⟩
  obtain ⟨-, hkept, -⟩ :=
    isNoop_keeps_iff [.run Sample.run] s List.mem_cons_self [Sample.file] model hsame
  obtain ⟨hlost, -⟩ := isNoop_keeps_iff [.run Sample.run] s List.mem_cons_self [] model hgone
  refine ⟨hsame, hkept.2 fun row hrow => ?_, hgone, hlost.trans ?_, Sample.memory_rows⟩
  · exact ⟨Sample.file, List.mem_cons_self, (Sample.key_of_mem_remembered hrow).symm⟩
  · exact List.filter_eq_nil_iff.2 fun _ _ => by simp

end CodeIndex
