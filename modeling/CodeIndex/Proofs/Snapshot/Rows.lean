import CodeIndex.Snapshot
import Mathlib.Data.List.Forall2

/-!
# Rows of one path

A snapshot is a list of rows in the order of their paths, and rows of one path keep their order.  So
the list is known as soon as the rows of every single path are: `rowsAt_sortRows` says that sorting
leaves them alone, `rowsAt_merge` where a merged snapshot has them from, and `eq_of_rowsAt_eq` that
nothing else is left to know.
-/

namespace CodeIndex

/-- A row is known by its file's version, its unit without the vector, and the vector. -/
theorem SnapshotRow.ext_of_erase {a b : SnapshotRow} (hkey : a.key = b.key)
    (hunit : a.unit.erase = b.unit.erase) (hvector : a.unit.embedding = b.unit.embedding) :
    a = b := by
  obtain ⟨p, c, ⟨kind, name, enclosing, source, summary, input, output, v⟩⟩ := a
  obtain ⟨p', c', ⟨kind', name', enclosing', source', summary', input', output', v'⟩⟩ := b
  simp_all [SnapshotRow.key, CodeUnit.erase]

namespace Snapshot

/-- A snapshot is its rows, its model and its marks. -/
theorem ext_fields {s t : Snapshot} (hrows : s.rows = t.rows) (hmodel : s.model = t.model)
    (hincomplete : s.incomplete = t.incomplete) : s = t := by
  obtain ⟨rows, model, incomplete⟩ := s
  obtain ⟨rows', model', incomplete'⟩ := t
  simp_all

/-! ## §1 The rows of a path -/

/-- The rows of one path, in order. -/
def rowsAt (rows : List SnapshotRow) (p : String) : List SnapshotRow :=
  rows.filter fun r => decide (r.filepath = p)

/-- The units of one path, in order. -/
def unitsAt (s : Snapshot) (p : String) : List CodeUnit := (rowsAt s.rows p).map SnapshotRow.unit

@[simp] theorem rowsAt_nil (p : String) : rowsAt [] p = [] := rfl

@[simp] theorem rowsAt_append (rows more : List SnapshotRow) (p : String) :
    rowsAt (rows ++ more) p = rowsAt rows p ++ rowsAt more p :=
  List.filter_append ..

/-- The rows of a path are those with this path. -/
theorem mem_rowsAt {rows : List SnapshotRow} {p : String} {r : SnapshotRow} :
    r ∈ rowsAt rows p ↔ r ∈ rows ∧ r.filepath = p := by
  simp [rowsAt]

private theorem rowsAt_cons (r : SnapshotRow) (rows : List SnapshotRow) (p : String) :
    rowsAt (r :: rows) p = if r.filepath = p then r :: rowsAt rows p else rowsAt rows p := by
  simp [rowsAt, List.filter_cons]

private theorem rowsAt_filter (keep : SnapshotRow → Bool) (rows : List SnapshotRow) (p : String) :
    rowsAt (rows.filter keep) p = (rowsAt rows p).filter keep := by
  simp only [rowsAt, List.filter_filter, Bool.and_comm]

/-- A path without rows is the path of none. -/
theorem rowsAt_eq_nil_iff {rows : List SnapshotRow} {p : String} :
    rowsAt rows p = [] ↔ ∀ r ∈ rows, r.filepath ≠ p := by
  simp [rowsAt, List.filter_eq_nil_iff]

/-- The rows of one version of a file, in order. -/
def rowsOf (rows : List SnapshotRow) (key : FileKey) : List SnapshotRow :=
  rows.filter fun r => decide (r.key = key)

/-- The rows of a version are those with this key. -/
theorem mem_rowsOf {rows : List SnapshotRow} {key : FileKey} {r : SnapshotRow} :
    r ∈ rowsOf rows key ↔ r ∈ rows ∧ r.key = key := by
  simp [rowsOf]

/-- Where a path has one version only, its rows are those of that version. -/
theorem rowsAt_eq_rowsOf {rows : List SnapshotRow} {p c : String}
    (h : ∀ r ∈ rows, r.filepath = p → r.checksum = c) : rowsAt rows p = rowsOf rows (p, c) := by
  refine List.filter_congr fun r hr => ?_
  rw [decide_eq_decide, SnapshotRow.key, Prod.mk.injEq]
  exact ⟨fun hp => ⟨hp, h r hr hp⟩, fun hkey => hkey.1⟩

/-! ## §2 Sorting -/

/-- Rows in the order of their paths. -/
def Sorted (rows : List SnapshotRow) : Prop := rows.Pairwise fun a b => a.filepath ≤ b.filepath

private theorem le_trans_filepath (a b c : SnapshotRow) :
    decide (a.filepath ≤ b.filepath) = true → decide (b.filepath ≤ c.filepath) = true →
      decide (a.filepath ≤ c.filepath) = true := by
  simp only [decide_eq_true_eq]
  exact String.le_trans

private theorem le_total_filepath (a b : SnapshotRow) :
    (decide (a.filepath ≤ b.filepath) || decide (b.filepath ≤ a.filepath)) = true := by
  simp only [Bool.or_eq_true, decide_eq_true_eq]
  exact String.le_total ..

private theorem sorted_sortRows (rows : List SnapshotRow) : Sorted (sortRows rows) := by
  have h := List.pairwise_mergeSort le_trans_filepath le_total_filepath rows
  exact h.imp fun hab => by simpa using hab

/-- Sorting loses no row and makes none. -/
theorem perm_sortRows (rows : List SnapshotRow) : (sortRows rows).Perm rows :=
  List.mergeSort_perm ..

/-- So the sorted rows are the same rows. -/
@[simp] theorem mem_sortRows {rows : List SnapshotRow} {r : SnapshotRow} :
    r ∈ sortRows rows ↔ r ∈ rows :=
  (perm_sortRows rows).mem_iff

/-- Sorted rows stay where they are. -/
theorem sortRows_eq_self {rows : List SnapshotRow} (h : Sorted rows) : sortRows rows = rows :=
  List.mergeSort_of_pairwise (h.imp fun hab => by simpa using hab)

/-- Sorting by paths leaves the rows of each path as they are. -/
theorem rowsAt_sortRows (rows : List SnapshotRow) (p : String) :
    rowsAt (sortRows rows) p = rowsAt rows p := by
  -- the rows of `p` are in order already, so a stable sort keeps them as a sublist
  have hsorted : (rowsAt rows p).Pairwise fun a b => decide (a.filepath ≤ b.filepath) = true := by
    refine List.Pairwise.imp_of_mem ?_ (List.pairwise_of_forall (R := fun _ _ => True) (by simp))
    intro a b ha hb _
    simp [(mem_rowsAt.1 ha).2, (mem_rowsAt.1 hb).2]
  have hsub : List.Sublist (rowsAt rows p) (sortRows rows) :=
    List.sublist_mergeSort le_trans_filepath le_total_filepath hsorted List.filter_sublist
  have hsame : rowsAt (rowsAt rows p) p = rowsAt rows p := by
    simp [rowsAt, List.filter_filter]
  have hsub' : List.Sublist (rowsAt rows p) (rowsAt (sortRows rows) p) := by
    rw [← hsame]
    exact hsub.filter _
  -- a sublist of the same length is the whole list
  have hlength : (rowsAt (sortRows rows) p).length = (rowsAt rows p).length :=
    ((perm_sortRows rows).filter _).length_eq
  exact (hsub'.eq_of_length hlength.symm).symm

private theorem le_of_mem_of_sorted {r : SnapshotRow} {rows : List SnapshotRow}
    (h : Sorted (r :: rows)) {x : SnapshotRow} (hx : x ∈ r :: rows) : r.filepath ≤ x.filepath := by
  rcases List.mem_cons.1 hx with rfl | hx
  · exact String.le_refl _
  · exact (List.pairwise_cons.1 h).1 x hx

/-- Sorted rows are known by the rows of every path. -/
theorem eq_of_rowsAt_eq {rows : List SnapshotRow} :
    ∀ {more : List SnapshotRow}, Sorted rows → Sorted more →
      (∀ p, rowsAt rows p = rowsAt more p) → rows = more := by
  induction rows with
  | nil =>
    intro more _ _ h
    cases more with
    | nil => rfl
    | cons r more => simpa [rowsAt_cons] using h r.filepath
  | cons a rows ih =>
    intro more hrows hmore h
    cases more with
    | nil => simpa [rowsAt_cons] using h a.filepath
    | cons b more =>
      -- both heads belong to the smallest path, so each is the first row of that path
      have ha : a ∈ b :: more := by
        have : a ∈ rowsAt (b :: more) a.filepath := by
          rw [← h, rowsAt_cons, if_pos rfl]
          exact List.mem_cons_self
        exact (mem_rowsAt.1 this).1
      have hb : b ∈ a :: rows := by
        have : b ∈ rowsAt (a :: rows) b.filepath := by
          rw [h, rowsAt_cons, if_pos rfl]
          exact List.mem_cons_self
        exact (mem_rowsAt.1 this).1
      have hpath : a.filepath = b.filepath :=
        String.le_antisymm (le_of_mem_of_sorted hrows hb) (le_of_mem_of_sorted hmore ha)
      -- the rows of that path begin with `a` on one side and with `b` on the other
      have hhead := h a.filepath
      rw [rowsAt_cons, rowsAt_cons, if_pos rfl, if_pos hpath.symm] at hhead
      obtain ⟨rfl, htail⟩ := List.cons_eq_cons.1 hhead
      have hrest : rows = more := by
        refine ih (List.pairwise_cons.1 hrows).2 (List.pairwise_cons.1 hmore).2 fun p => ?_
        have hp := h p
        rw [rowsAt_cons, rowsAt_cons] at hp
        split at hp
        · exact (List.cons_eq_cons.1 hp).2
        · exact hp
      rw [hrest]

/-- Every path has rows of one version only. -/
def OneVersion (rows : List SnapshotRow) : Prop :=
  ∀ a ∈ rows, ∀ b ∈ rows, a.filepath = b.filepath → a.checksum = b.checksum

/-- Where a path has one version, the rows of the path are those of the version. -/
theorem OneVersion.rowsAt_eq_rowsOf {rows : List SnapshotRow} (h : OneVersion rows)
    {r : SnapshotRow} (hr : r ∈ rows) : rowsAt rows r.filepath = rowsOf rows r.key :=
  Snapshot.rowsAt_eq_rowsOf fun r' hr' hpath => h r' hr' r hr hpath

/-- Sorted rows with one version of each path are known by the rows of every version. -/
theorem eq_of_rowsOf_eq {rows more : List SnapshotRow} (hrows : Sorted rows) (hmore : Sorted more)
    (hone : OneVersion rows) (hone' : OneVersion more)
    (hkeys : ∀ key, (∃ r ∈ rows, r.key = key) ↔ ∃ r ∈ more, r.key = key)
    (h : ∀ r ∈ rows, rowsOf rows r.key = rowsOf more r.key) : rows = more := by
  refine eq_of_rowsAt_eq hrows hmore fun p => ?_
  by_cases hp : ∃ r ∈ rows, r.filepath = p
  · -- a path with rows has one version, and the same one in both lists
    obtain ⟨r, hr, rfl⟩ := hp
    obtain ⟨r', hr', hkey⟩ := (hkeys r.key).1 ⟨r, hr, rfl⟩
    rw [hone.rowsAt_eq_rowsOf hr, h r hr, ← hkey, ← hone'.rowsAt_eq_rowsOf hr',
      (Prod.mk.inj hkey).1]
  · have hnone : ∀ r ∈ rows, r.filepath ≠ p := fun r hr hpath => hp ⟨r, hr, hpath⟩
    have hnone' : ∀ r ∈ more, r.filepath ≠ p := by
      intro r hr hpath
      obtain ⟨r', hr', hkey⟩ := (hkeys r.key).2 ⟨r, hr, rfl⟩
      exact hnone r' hr' ((Prod.mk.inj hkey).1.trans hpath)
    rw [rowsAt_eq_nil_iff.2 hnone, rowsAt_eq_nil_iff.2 hnone']

/-! ## §3 Merging -/

/-- Merged rows are sorted by their paths. -/
theorem sorted_merge (previous : Snapshot) (carried : List FileKey) (newRows : List SnapshotRow) :
    Sorted (previous.merge carried newRows).rows :=
  sorted_sortRows _

/-- A merged row is a carried one or a new one. -/
theorem mem_merge {previous : Snapshot} {carried : List FileKey} {newRows : List SnapshotRow}
    {r : SnapshotRow} : r ∈ (previous.merge carried newRows).rows ↔
      (r ∈ previous.rows ∧ r.key ∈ carried) ∨ r ∈ newRows := by
  simp [merge, ofRows]

/-- The rows of a path after a merge: the carried ones of before, and then the new ones. -/
theorem rowsAt_merge (previous : Snapshot) (carried : List FileKey) (newRows : List SnapshotRow)
    (p : String) : rowsAt (previous.merge carried newRows).rows p =
      (rowsAt previous.rows p).filter (fun r => carried.contains r.key) ++ rowsAt newRows p := by
  show rowsAt (sortRows _) p = _
  rw [rowsAt_sortRows, rowsAt_append, rowsAt_filter]

/-! ## §4 Rows of file records -/

/-- The rows of a file are its units with its path and checksum. -/
theorem mem_rowsOfRecord {f : FileRecord} {r : SnapshotRow} :
    r ∈ rowsOfRecord f ↔ ∃ u ∈ f.units, r = ⟨f.filepath, f.checksum, u⟩ := by
  simp [rowsOfRecord, eq_comm]

/-- The rows of a file are all of its version. -/
theorem key_of_mem_rowsOfRecord {f : FileRecord} {r : SnapshotRow} (h : r ∈ rowsOfRecord f) :
    r.key = f.key := by
  obtain ⟨u, _, rfl⟩ := mem_rowsOfRecord.1 h
  rfl

@[simp] theorem rowsOfRecord_map_unit (f : FileRecord) :
    (rowsOfRecord f).map SnapshotRow.unit = f.units := by
  rw [rowsOfRecord, List.map_map]
  exact List.map_id _

/-- A file without units has no rows. -/
theorem rowsOfRecord_eq_nil_iff {f : FileRecord} : rowsOfRecord f = [] ↔ f.units = [] := by
  simp [rowsOfRecord]

/-- Rows of files are rows of one of them. -/
theorem mem_rowsOfRecords {records : List FileRecord} {r : SnapshotRow} :
    r ∈ rowsOfRecords records ↔ ∃ f ∈ records, r ∈ rowsOfRecord f := by
  simp [rowsOfRecords]

@[simp] theorem rowsOfRecords_append (records more : List FileRecord) :
    rowsOfRecords (records ++ more) = rowsOfRecords records ++ rowsOfRecords more := by
  simp [rowsOfRecords]

private theorem rowsAt_rowsOfRecord_self (f : FileRecord) :
    rowsAt (rowsOfRecord f) f.filepath = rowsOfRecord f := by
  simp [rowsAt, rowsOfRecord]

private theorem rowsAt_rowsOfRecord_of_ne {f : FileRecord} {p : String} (h : f.filepath ≠ p) :
    rowsAt (rowsOfRecord f) p = [] := by
  simp [rowsAt, rowsOfRecord, h]

/-- Files with other paths have no rows at a path. -/
theorem rowsAt_rowsOfRecords_of_forall_ne {records : List FileRecord} {p : String}
    (h : ∀ f ∈ records, f.filepath ≠ p) : rowsAt (rowsOfRecords records) p = [] := by
  refine rowsAt_eq_nil_iff.2 fun r hr => ?_
  obtain ⟨f, hf, hrf⟩ := mem_rowsOfRecords.1 hr
  obtain ⟨u, _, rfl⟩ := mem_rowsOfRecord.1 hrf
  exact h f hf

/-- Among records of different paths, the rows of a path are those of its record. -/
theorem rowsAt_rowsOfRecords {records : List FileRecord}
    (hdistinct : (records.map FileRecord.filepath).Nodup) {f : FileRecord} (hf : f ∈ records) :
    rowsAt (rowsOfRecords records) f.filepath = rowsOfRecord f := by
  induction records with
  | nil => simp at hf
  | cons g records ih =>
    rw [List.map_cons, List.nodup_cons] at hdistinct
    have hcons : rowsOfRecords (g :: records) = rowsOfRecord g ++ rowsOfRecords records := by
      simp [rowsOfRecords]
    rw [hcons, rowsAt_append]
    rcases List.mem_cons.1 hf with rfl | hf
    · -- the record of the path comes first, and no later one has rows of it
      rw [rowsAt_rowsOfRecord_self, rowsAt_rowsOfRecords_of_forall_ne, List.append_nil]
      exact fun g hg heq => hdistinct.1 (heq ▸ List.mem_map_of_mem hg)
    · rw [rowsAt_rowsOfRecord_of_ne, List.nil_append, ih hdistinct.2 hf]
      exact fun heq => hdistinct.1 (heq ▸ List.mem_map_of_mem hf)

/-- The rows of a path do not depend on the order of the records. -/
theorem rowsAt_rowsOfRecords_of_perm {records more : List FileRecord} (h : records.Perm more)
    (hdistinct : (records.map FileRecord.filepath).Nodup) (p : String) :
    rowsAt (rowsOfRecords records) p = rowsAt (rowsOfRecords more) p := by
  by_cases hp : ∃ f ∈ records, f.filepath = p
  · obtain ⟨f, hf, rfl⟩ := hp
    have hdistinct' : (more.map FileRecord.filepath).Nodup :=
      (h.map FileRecord.filepath).nodup_iff.1 hdistinct
    rw [rowsAt_rowsOfRecords hdistinct hf, rowsAt_rowsOfRecords hdistinct' (h.mem_iff.1 hf)]
  · have hnone : ∀ f ∈ records, f.filepath ≠ p := fun f hf hpath => hp ⟨f, hf, hpath⟩
    rw [rowsAt_rowsOfRecords_of_forall_ne hnone,
      rowsAt_rowsOfRecords_of_forall_ne fun f hf => hnone f (h.mem_iff.2 hf)]

/-! ## §5 Snapshots that say the same -/

/-- Snapshots that say the same do so row by row. -/
theorem forall₂_of_sameContent {s t : Snapshot} (h : s.sameContent t = true) :
    List.Forall₂ (fun row row' => row.sameContent row' = true) s.rows t.rows := by
  simp only [sameContent, Bool.and_eq_true, beq_iff_eq, List.all_eq_true] at h
  obtain ⟨⟨⟨⟨hlength, hrows⟩, _⟩, _⟩, _⟩ := h
  exact List.forall₂_iff_zip.2 ⟨hlength, fun hzip => hrows _ hzip⟩

/-- Snapshots that say the same differ in the spelling of vectors at most. -/
theorem eq_of_sameContent {s t : Snapshot} (h : s.sameContent t = true) :
    s.rows.map SnapshotRow.key = t.rows.map SnapshotRow.key ∧ s.model = t.model ∧
      ∀ key, key ∈ s.incomplete ↔ key ∈ t.incomplete := by
  -- rows that say the same are of the same version
  have hkeys : List.Forall₂ (fun row row' => row.key = row'.key) s.rows t.rows :=
    (forall₂_of_sameContent h).imp fun row row' hrow => by
      simp only [SnapshotRow.sameContent, Bool.and_eq_true, decide_eq_true_eq] at hrow
      exact hrow.1
  simp only [sameContent, Bool.and_eq_true, beq_iff_eq, List.all_eq_true,
    List.contains_iff_mem] at h
  obtain ⟨⟨⟨_, hmodel⟩, hst⟩, hts⟩ := h
  refine ⟨?_, hmodel, fun key => ⟨hst key, hts key⟩⟩
  rw [← List.forall₂_eq_eq_eq, List.forall₂_map_left_iff, List.forall₂_map_right_iff]
  exact hkeys

/-- Rows of one version are equal if their units are, vectors aside, and texts have one vector. -/
theorem eq_of_map_erase_eq {key : FileKey} :
    ∀ {rows more : List SnapshotRow}, (∀ r ∈ rows, r.key = key) → (∀ r ∈ more, r.key = key) →
      rows.map (fun r => r.unit.erase) = more.map (fun r => r.unit.erase) →
      (∀ r ∈ rows, ∀ r' ∈ more, r.unit.sourceText = r'.unit.sourceText →
        r.unit.embedding = r'.unit.embedding) → rows = more
  | [], [], _, _, _, _ => rfl
  | [], _ :: _, _, _, h, _ => by cases h
  | _ :: _, [], _, _, h, _ => by cases h
  | a :: rows, b :: more, hrows, hmore, h, hvectors => by
    rw [List.map_cons, List.map_cons, List.cons_eq_cons] at h
    have hkey : a.key = b.key :=
      (hrows a List.mem_cons_self).trans (hmore b List.mem_cons_self).symm
    have htext : a.unit.erase.sourceText = b.unit.erase.sourceText :=
      congrArg CodeUnit.sourceText h.1
    have hvector := hvectors a List.mem_cons_self b List.mem_cons_self htext
    have hhead : a = b := SnapshotRow.ext_of_erase hkey h.1 hvector
    -- the hypotheses pass to the tails
    rw [hhead, eq_of_map_erase_eq (fun r hr => hrows r (List.mem_cons_of_mem a hr))
      (fun r hr => hmore r (List.mem_cons_of_mem b hr)) h.2
      (fun r hr r' hr' => hvectors r (List.mem_cons_of_mem a hr) r' (List.mem_cons_of_mem b hr'))]

end Snapshot

end CodeIndex
