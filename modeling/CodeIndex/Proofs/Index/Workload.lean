import CodeIndex.Index.Workload
import CodeIndex.Proofs.Embedding.Batch
import CodeIndex.Proofs.Snapshot.Rows

/-!
# Where rows come from

Every row of the next snapshot belongs to a file of the scan, and the rows of one file have a single
source: they are carried forward, taken over from a file with the same content, or new.
-/

namespace CodeIndex

open Snapshot

/-! ## §1 Looking things up in a snapshot -/

namespace Snapshot

/-- A checksum of a path is that of a row. -/
theorem exists_row_of_checksumOf? {s : Snapshot} {p c : String} (h : s.checksumOf? p = some c) :
    ∃ r ∈ s.rows, r.key = (p, c) := by
  obtain ⟨r, hfind, rfl⟩ := Option.map_eq_some_iff.1 h
  have hpath := List.find?_some hfind
  simp only [beq_iff_eq] at hpath
  refine ⟨r, List.mem_reverse.1 (List.mem_of_find?_eq_some hfind), ?_⟩
  rw [SnapshotRow.key, hpath]

/-- A path with rows of one version only is known by the checksum of that version. -/
theorem checksumOf?_eq_some {s : Snapshot} {r : SnapshotRow} (hr : r ∈ s.rows)
    (h : ∀ r' ∈ s.rows, r'.filepath = r.filepath → r'.checksum = r.checksum) :
    s.checksumOf? r.filepath = some r.checksum := by
  unfold checksumOf?
  cases hfind : s.rows.reverse.find? fun r' => r'.filepath == r.filepath with
  | none =>
    have hnone := List.find?_eq_none.1 hfind r (List.mem_reverse.2 hr)
    simp at hnone
  -- whichever row of the path is found last, its checksum is the same
  | some r' =>
    have hpath := List.find?_some hfind
    simp only [beq_iff_eq] at hpath
    rw [Option.map_some, h r' (List.mem_reverse.1 (List.mem_of_find?_eq_some hfind)) hpath]

/-- A version is complete if it is not marked. -/
theorem isIncomplete_eq_false_iff {s : Snapshot} {key : FileKey} :
    s.isIncomplete key = false ↔ key ∉ s.incomplete := by
  rw [isIncomplete, List.contains_eq_mem, decide_eq_false_iff_not]

/-- Units are only taken over from a complete version of a file, and all of them are embedded. -/
theorem exists_row_of_embeddedUnits? {s : Snapshot} {c : String} {units : List CodeUnit}
    (h : s.embeddedUnits? c = some units) :
    ∃ r ∈ s.rows, r.checksum = c ∧ r.key ∉ s.incomplete ∧
      units = (rowsOf s.rows r.key).map SnapshotRow.unit := by
  obtain ⟨r, hfind, hunits⟩ := Option.bind_eq_some_iff.1 h
  have hr := List.find?_some hfind
  simp only [Bool.and_eq_true, beq_iff_eq, Bool.not_eq_true'] at hr
  refine ⟨r, List.mem_of_find?_eq_some hfind, hr.1, isIncomplete_eq_false_iff.1 hr.2, ?_⟩
  simp only at hunits
  split at hunits
  · exact (Option.some.inj hunits).symm
  · cases hunits

/-- Where every row is embedded, the units of a checksum are found as soon as a complete file has
it. -/
theorem exists_embeddedUnits? {s : Snapshot} {r : SnapshotRow} (hr : r ∈ s.rows)
    (hcomplete : r.key ∉ s.incomplete)
    (hembedded : ∀ r ∈ s.rows, r.unit.embedding.isSome = true) :
    ∃ units, s.embeddedUnits? r.checksum = some units := by
  unfold embeddedUnits?
  cases hfind : s.rows.find? fun r' => r'.checksum == r.checksum && !s.isIncomplete r'.key with
  | none =>
    have hnone := List.find?_eq_none.1 hfind r hr
    simp [isIncomplete_eq_false_iff.2 hcomplete] at hnone
  -- the row that is found may be of another path, but its units are embedded like all others
  | some first =>
    refine ⟨_, if_pos ?_⟩
    rw [List.all_eq_true]
    intro u hu
    obtain ⟨r', hr', rfl⟩ := List.mem_map.1 hu
    exact hembedded r' (List.mem_filter.1 hr').1

/-- The units that are taken over are at least one. -/
theorem embeddedUnits?_ne_nil {s : Snapshot} {c : String} {units : List CodeUnit}
    (h : s.embeddedUnits? c = some units) : units ≠ [] := by
  obtain ⟨r, hr, _, _, rfl⟩ := exists_row_of_embeddedUnits? h
  intro hnil
  -- the row by which they were found is one of theirs
  have hmem : r ∈ rowsOf s.rows r.key := mem_rowsOf.2 ⟨hr, rfl⟩
  rw [List.map_eq_nil_iff.1 hnil] at hmem
  cases hmem

end Snapshot

/-! ## §2 Plans -/

namespace UpdatePlan

variable {scan : List FileRecord} {previous : Snapshot} {model : String} {f : FileRecord}

/-- What becomes of a scanned file when a snapshot is brought up to date. -/
def fateOf (previous : Snapshot) (model : String) (f : FileRecord) : Fate :=
  fate previous (known? previous model f.filepath) f

/-- A file is carried if the snapshot is of the model and has its version, complete. -/
theorem fateOf_eq_carry_iff : fateOf previous model f = .carry ↔
    previous.embeddedBy model = true ∧ previous.checksumOf? f.filepath = some f.checksum ∧
      f.key ∉ previous.incomplete := by
  unfold fateOf fate known?
  -- nothing is known of the files if another model embedded them
  by_cases hreuse : previous.embeddedBy model = true
  · simp only [hreuse, if_true, true_and, Bool.not_eq_true, isIncomplete_eq_false_iff]
    split
    · next h => simpa using h
    · next h =>
      split
      all_goals simpa using h
  · simp only [hreuse, reduceCtorEq, false_and, if_false]
    split
    all_goals simp

/-- Of the files that are not carried those with content are processed. -/
theorem fateOf_eq_process_iff : fateOf previous model f = .process ↔
    fateOf previous model f ≠ .carry ∧ f.checksum ≠ Checksum.empty := by
  unfold fateOf fate
  split
  · simp
  · split
    · next h => simp [h]
    · next h => simp [h]

/-- A file that is neither carried nor processed has no content. -/
theorem fateOf_eq_skip (hcarry : fateOf previous model f ≠ .carry)
    (hprocess : fateOf previous model f ≠ .process) : f.checksum = Checksum.empty :=
  Classical.not_not.1 fun h => hprocess (fateOf_eq_process_iff.2 ⟨hcarry, h⟩)

/-- The versions that are carried are those of files with this fate. -/
theorem mem_carried {key : FileKey} : key ∈ (make scan previous model).carried ↔
    ∃ f ∈ scan, fateOf previous model f = .carry ∧ f.key = key := by
  show key ∈ (List.map _ (scan.filter fun f => fateOf previous model f == .carry)).eraseDups ↔ _
  simp [List.mem_eraseDups, and_assoc]

/-- The files to process are those with this fate. -/
theorem mem_toProcess : f ∈ (make scan previous model).toProcess ↔
    f ∈ scan ∧ fateOf previous model f = .process := by
  show f ∈ scan.filter (fun f => fateOf previous model f == .process) ↔ _
  simp

end UpdatePlan

/-! ## §3 Workloads -/

namespace Workload

open UpdatePlan

/-- The lines of parse failures are in order, however the files came back. -/
theorem parseFailures_eq_of_perm {results results' : List Decomposed}
    (h : (results.filterMap Decomposed.failure?).Perm (results'.filterMap Decomposed.failure?)) :
    parseFailures results = parseFailures results' := by
  have hsorted : ∀ lines : List String,
      (lines.mergeSort fun a b => decide (a ≤ b)).Pairwise fun a b => a ≤ b := by
    intro lines
    have hpairwise := @List.pairwise_mergeSort _ (fun a b : String => decide (a ≤ b))
      (fun a b c hab hbc => by
        rw [decide_eq_true_eq] at hab hbc ⊢
        exact String.le_trans hab hbc)
      (fun a b => by
        rw [Bool.or_eq_true, decide_eq_true_eq, decide_eq_true_eq]
        exact String.le_total a b) lines
    exact hpairwise.imp fun hab => by simpa using hab
  -- sorted lists of the same lines are the same, since the order is total
  have hperm := ((List.mergeSort_perm _ fun a b : String => decide (a ≤ b)).trans h).trans
    (List.mergeSort_perm _ fun a b : String => decide (a ≤ b)).symm
  exact hperm.eq_of_pairwise (fun _ _ _ _ => String.le_antisymm) (hsorted _) (hsorted _)

variable {scan : List FileRecord} {previous : Snapshot} {model : String} {f g : FileRecord}

/-- A file is relocated with the units of its content, if the snapshot is of the model and has all
of them. -/
theorem relocate?_eq_some_iff :
    relocate? (UpdatePlan.make scan previous model) previous f = some g ↔
      previous.embeddedBy model = true ∧
        ∃ units, previous.embeddedUnits? f.checksum = some units ∧
          g = { f with units := units } := by
  unfold relocate?
  show (if previous.embeddedBy model = true then _ else _) = some g ↔ _
  split
  · next h => simp only [h, true_and, Option.map_eq_some_iff, eq_comm (a := g)]
  · next h => simp [h]

/-- A file is taken over as soon as memory has all of its content. -/
theorem exists_relocate? {r : SnapshotRow} (hreuse : previous.embeddedBy model = true)
    (hr : r ∈ previous.rows) (hchecksum : r.checksum = f.checksum)
    (hcomplete : r.key ∉ previous.incomplete)
    (hembedded : ∀ r ∈ previous.rows, r.unit.embedding.isSome = true) :
    ∃ g, relocate? (UpdatePlan.make scan previous model) previous f = some g := by
  obtain ⟨units, hunits⟩ := exists_embeddedUnits? hr hcomplete hembedded
  rw [hchecksum] at hunits
  exact ⟨_, relocate?_eq_some_iff.2 ⟨hreuse, units, hunits, rfl⟩⟩

/-- Relocating a file changes its units only. -/
theorem key_of_relocate? (h : relocate? (UpdatePlan.make scan previous model) previous f = some g) :
    g.key = f.key := by
  obtain ⟨_, units, _, rfl⟩ := relocate?_eq_some_iff.1 h
  rfl

/-- The relocated files are those to process whose content is indexed. -/
theorem mem_relocated : g ∈ (make scan previous model).relocated ↔
    ∃ f ∈ scan, fateOf previous model f = .process ∧
      relocate? (UpdatePlan.make scan previous model) previous f = some g := by
  show g ∈ List.filterMap _ (UpdatePlan.make scan previous model).toProcess ↔ _
  simp [mem_toProcess, and_assoc]

/-- The pending files are those to process whose content is not. -/
theorem mem_pending : f ∈ (make scan previous model).pending ↔
    f ∈ scan ∧ fateOf previous model f = .process ∧
      relocate? (UpdatePlan.make scan previous model) previous f = none := by
  show f ∈ List.filter _ (UpdatePlan.make scan previous model).toProcess ↔ _
  simp [mem_toProcess, and_assoc]

/-- The pending files are in the order of the scan. -/
theorem pending_sublist : ((make scan previous model).pending).Sublist scan :=
  List.Sublist.trans List.filter_sublist List.filter_sublist

/-- Pending files are in the order of the scan. -/
theorem pending_eq_filter : (make scan previous model).pending =
    scan.filter fun f => decide (f ∈ (make scan previous model).pending) := by
  have hfilter : (make scan previous model).pending = scan.filter fun f =>
      (relocate? (UpdatePlan.make scan previous model) previous f).isNone &&
        (fateOf previous model f == .process) := by
    show List.filter _ (List.filter _ scan) = _
    rw [List.filter_filter]
    rfl
  -- membership repeats the conditions of the filter
  conv => lhs; rw [hfilter]
  refine List.filter_congr fun f hf => ?_
  rw [Bool.eq_iff_iff, decide_eq_true_eq, mem_pending]
  simp [hf, and_comm]

/-! ## §4 The next snapshot -/

variable {embedded : EmbedOutcome}

/-- The rows of the next snapshot are merged by the plan. -/
@[simp] theorem nextSnapshot_rows (w : Workload) :
    (w.nextSnapshot previous model embedded).rows =
      (previous.merge w.plan.carried (w.newRows embedded)).rows := rfl

/-- The next snapshot names the model of the run, if it has rows. -/
theorem nextSnapshot_model (w : Workload) : (w.nextSnapshot previous model embedded).model =
    if (w.nextSnapshot previous model embedded).rows = [] then none else some model := by
  show (if (previous.merge _ _).rows.isEmpty then none else some model) =
    if (previous.merge _ _).rows = [] then none else some model
  simp only [List.isEmpty_iff]

/-- The next snapshot marks the versions that a failure happened to. -/
theorem mem_incomplete_nextSnapshot (w : Workload) {key : FileKey} :
    key ∈ (w.nextSnapshot previous model embedded).incomplete ↔
      ∃ failure ∈ embedded.failures, failure.key = key := by
  show key ∈ (embedded.failures.map EmbeddingFailure.key).eraseDups ↔ _
  rw [List.mem_eraseDups, List.mem_map]

/-- A row of the next snapshot is carried forward, or taken over, or new. -/
theorem mem_nextSnapshot {r : SnapshotRow} :
    r ∈ ((make scan previous model).nextSnapshot previous model embedded).rows ↔
      (r ∈ previous.rows ∧ ∃ f ∈ scan, fateOf previous model f = .carry ∧ f.key = r.key) ∨
      (∃ g ∈ embedded.records, r ∈ rowsOfRecord g) ∨
      (∃ g ∈ (make scan previous model).relocated, r ∈ rowsOfRecord g) := by
  rw [nextSnapshot_rows, mem_merge]
  show (r ∈ previous.rows ∧ r.key ∈ (UpdatePlan.make scan previous model).carried) ∨ _ ↔ _
  rw [mem_carried, newRows, mem_rowsOfRecords]
  simp only [List.mem_append, or_and_right, exists_or]

/-- Units keep what they are known to be, whichever way they go. -/
theorem forall_unit_nextSnapshot {Q : CodeUnit → Prop}
    (hprevious : previous.embeddedBy model = true → ∀ r ∈ previous.rows, Q r.unit)
    (hnew : ∀ g ∈ embedded.records, ∀ u ∈ g.units, Q u) :
    ∀ r ∈ ((make scan previous model).nextSnapshot previous model embedded).rows, Q r.unit := by
  intro r hr
  rcases mem_nextSnapshot.1 hr with ⟨hold, f, _, hcarry, _⟩ | ⟨g, hg, hrow⟩ | ⟨g, hg, hrow⟩
  · exact hprevious (fateOf_eq_carry_iff.1 hcarry).1 r hold
  · obtain ⟨u, hu, rfl⟩ := mem_rowsOfRecord.1 hrow
    exact hnew g hg u hu
  · -- a unit that is taken over is a unit of some previous row
    obtain ⟨f, _, _, hrelocate⟩ := mem_relocated.1 hg
    obtain ⟨hreuse, units, hunits, rfl⟩ := relocate?_eq_some_iff.1 hrelocate
    obtain ⟨r', _, _, _, rfl⟩ := exists_row_of_embeddedUnits? hunits
    obtain ⟨u, hu, rfl⟩ := mem_rowsOfRecord.1 hrow
    obtain ⟨r'', hr'', rfl⟩ := List.mem_map.1 hu
    exact hprevious hreuse r'' (mem_rowsOf.1 hr'').1

/-- Every row is of a scanned file. -/
theorem exists_file_of_mem_nextSnapshot
    (hrecords : ∀ g ∈ embedded.records, ∃ f ∈ (make scan previous model).pending, g.key = f.key)
    {r : SnapshotRow}
    (hr : r ∈ ((make scan previous model).nextSnapshot previous model embedded).rows) :
    ∃ f ∈ scan, r.key = f.key ∧ (fateOf previous model f = .carry ∧ r ∈ previous.rows ∨
      fateOf previous model f = .process) := by
  -- a row is carried over, newly embedded or copied
  rcases mem_nextSnapshot.1 hr with ⟨hold, f, hf, hcarry, hkey⟩ | ⟨g, hg, hrow⟩ | ⟨g, hg, hrow⟩
  · exact ⟨f, hf, hkey.symm, .inl ⟨hcarry, hold⟩⟩
  · obtain ⟨f, hf, hkey⟩ := hrecords g hg
    obtain ⟨hscan, hprocess, _⟩ := mem_pending.1 hf
    exact ⟨f, hscan, (key_of_mem_rowsOfRecord hrow).trans hkey, .inr hprocess⟩
  · obtain ⟨f, hf, hprocess, hrelocate⟩ := mem_relocated.1 hg
    exact ⟨f, hf, (key_of_mem_rowsOfRecord hrow).trans (key_of_relocate? hrelocate), .inr hprocess⟩

end Workload

end CodeIndex
