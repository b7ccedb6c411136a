import CodeIndex.Proofs.Index.Workload
import Mathlib.Data.List.Nodup

/-!
# Carrying out a plan

A plan divides the files of a scan into those whose rows stay, those that get new rows, and those
that have none.  A merge follows the plan path by path: the rows of a path have one source and are
whole and in order, however rows and checksums were mixed in the snapshot before.
-/

namespace CodeIndex

open Snapshot

namespace UpdatePlan

variable {scan : List FileRecord} {previous : Snapshot} {model : String} {f : FileRecord}
  {newRows : List SnapshotRow}

/-! ## §1 Carried rows -/

/-- A version of a scanned file's path is carried just if it is the scanned one, and the file's fate
is to be carried. -/
theorem mem_carried_iff_of_path (hdistinct : (scan.map FileRecord.filepath).Nodup) (hf : f ∈ scan)
    {key : FileKey} (hpath : key.1 = f.filepath) :
    key ∈ (make scan previous model).carried ↔
      fateOf previous model f = .carry ∧ key = f.key := by
  rw [mem_carried]
  constructor
  · -- paths are distinct, so whatever file the version is carried for is this one
    rintro ⟨g, hg, hcarry, hkey⟩
    have hsame : g.filepath = f.filepath := (congrArg Prod.fst hkey).trans hpath
    obtain rfl := List.inj_on_of_nodup_map hdistinct hg hf hsame
    exact ⟨hcarry, hkey.symm⟩
  · rintro ⟨hcarry, hkey⟩
    exact ⟨f, hf, hcarry, hkey.symm⟩

/-- The scanned version of a file is carried just if this is the fate of the file. -/
theorem key_mem_carried (hdistinct : (scan.map FileRecord.filepath).Nodup) (hf : f ∈ scan) :
    f.key ∈ (make scan previous model).carried ↔ fateOf previous model f = .carry := by
  rw [mem_carried_iff_of_path hdistinct hf rfl, and_iff_left rfl]

/-- What is carried of a scanned path is the scanned version of it, or nothing. -/
theorem carried_rows (hdistinct : (scan.map FileRecord.filepath).Nodup) (hf : f ∈ scan) :
    (rowsAt previous.rows f.filepath).filter
        (fun row => (make scan previous model).carried.contains row.key) =
      if fateOf previous model f = .carry then rowsOf previous.rows f.key else [] := by
  unfold rowsAt rowsOf
  rw [List.filter_filter]
  split
  · next hcarry =>
    refine List.filter_congr fun row _ => ?_
    rw [Bool.eq_iff_iff, Bool.and_eq_true, decide_eq_true_eq, decide_eq_true_eq,
      List.contains_iff_mem]
    constructor
    · rintro ⟨hkey, hpath⟩
      exact ((mem_carried_iff_of_path hdistinct hf hpath).1 hkey).2
    · intro hkey
      have hpath : row.filepath = f.filepath := congrArg Prod.fst hkey
      exact ⟨(mem_carried_iff_of_path hdistinct hf hpath).2 ⟨hcarry, hkey⟩, hpath⟩
  · -- nothing is carried under the path of a file that is not carried itself
    next hcarry =>
    refine List.filter_eq_nil_iff.2 fun row _ => ?_
    rw [Bool.and_eq_true, decide_eq_true_eq, List.contains_iff_mem]
    rintro ⟨hkey, hpath⟩
    exact hcarry ((mem_carried_iff_of_path hdistinct hf hpath).1 hkey).1

/-! ## §2 Merging by a plan -/

section Merge

variable (hnew : ∀ row ∈ newRows, ∃ f ∈ (make scan previous model).toProcess, f.key = row.key)

include hnew

/-- Every row of a merge is of a scanned version that is carried or processed. -/
theorem exists_file_of_mem_merge {row : SnapshotRow}
    (hrow : row ∈ (previous.merge (make scan previous model).carried newRows).rows) :
    ∃ f ∈ scan, f.key = row.key ∧
      (fateOf previous model f = .carry ∨ fateOf previous model f = .process) := by
  rcases mem_merge.1 hrow with ⟨_, hkey⟩ | hrow
  · obtain ⟨f, hf, hcarry, hkey⟩ := mem_carried.1 hkey
    exact ⟨f, hf, hkey, .inl hcarry⟩
  · obtain ⟨f, hf, hkey⟩ := hnew row hrow
    obtain ⟨hscan, hprocess⟩ := mem_toProcess.1 hf
    exact ⟨f, hscan, hkey, .inr hprocess⟩

private theorem rowsAt_merge_of_carry (hdistinct : (scan.map FileRecord.filepath).Nodup)
    (hf : f ∈ scan) (hcarry : fateOf previous model f = .carry) :
    rowsAt (previous.merge (make scan previous model).carried newRows).rows f.filepath =
      rowsOf previous.rows f.key := by
  -- a new row of the path would be of the same file, which is not processed
  have hnone : rowsAt newRows f.filepath = [] := by
    refine rowsAt_eq_nil_iff.2 fun row hrow hpath => ?_
    obtain ⟨g, hg, hkey⟩ := hnew row hrow
    obtain ⟨hscan, hprocess⟩ := mem_toProcess.1 hg
    have hsame : g.filepath = f.filepath := (Prod.mk.inj hkey).1.trans hpath
    obtain rfl := List.inj_on_of_nodup_map hdistinct hscan hf hsame
    rw [hcarry] at hprocess
    cases hprocess
  rw [rowsAt_merge, carried_rows hdistinct hf, if_pos hcarry, hnone, List.append_nil]

end Merge

private theorem rowsAt_merge_of_not_carry (hdistinct : (scan.map FileRecord.filepath).Nodup)
    (hf : f ∈ scan) (hcarry : fateOf previous model f ≠ .carry) :
    rowsAt (previous.merge (make scan previous model).carried newRows).rows f.filepath =
      rowsAt newRows f.filepath := by
  rw [rowsAt_merge, carried_rows hdistinct hf, if_neg hcarry, List.nil_append]

/-- A merge follows its plan path by path.  The rows of a path that is carried are all the rows that
its scanned version had before, in their order, whoever shares its checksum; the rows of a path that
is processed are its new rows, in theirs; any other path has none.  So each row is of the scanned
version of a scanned file, and of one without content only if it was known to have none; no row is
lost or doubled; and the rows are in the order of their paths. -/
theorem merge_follows_plan (scan : List FileRecord) (previous : Snapshot) (model : String)
    (newRows : List SnapshotRow) (hdistinct : (scan.map FileRecord.filepath).Nodup)
    (hnew : ∀ row ∈ newRows, ∃ f ∈ (make scan previous model).toProcess, f.key = row.key) :
    let plan := make scan previous model
    let next := (previous.merge plan.carried newRows).rows
    (∀ f ∈ scan, f.key ∈ plan.carried → rowsAt next f.filepath = rowsOf previous.rows f.key) ∧
      (∀ f ∈ plan.toProcess, rowsAt next f.filepath = rowsAt newRows f.filepath) ∧
      (∀ p, (∀ f ∈ scan, f.filepath = p → f.key ∉ plan.carried ∧ f ∉ plan.toProcess) →
        rowsAt next p = []) ∧
      (∀ row ∈ next, ∃ f ∈ scan, f.key = row.key ∧ (f.checksum = Checksum.empty →
        previous.checksumOf? f.filepath = some Checksum.empty)) ∧
      next.Perm (previous.rows.filter (fun row => plan.carried.contains row.key) ++ newRows) ∧
      next.Pairwise fun a b => a.filepath ≤ b.filepath := by
  refine ⟨fun f hf hcarried => ?_, fun f hf => ?_, fun p hp => ?_, fun row hrow => ?_,
    perm_sortRows _, sorted_merge ..⟩
  · rw [key_mem_carried hdistinct hf] at hcarried
    exact rowsAt_merge_of_carry hnew hdistinct hf hcarried
  · obtain ⟨hscan, hprocess⟩ := mem_toProcess.1 hf
    exact rowsAt_merge_of_not_carry hdistinct hscan (by rw [hprocess]; exact nofun)
  · refine rowsAt_eq_nil_iff.2 fun row hrow hpath => ?_
    obtain ⟨f, hf, hkey, hfate⟩ := exists_file_of_mem_merge hnew hrow
    obtain ⟨hcarried, hprocess⟩ := hp f hf ((Prod.mk.inj hkey).1.trans hpath)
    rcases hfate with hfate | hfate
    · exact hcarried ((key_mem_carried hdistinct hf).2 hfate)
    · exact hprocess (mem_toProcess.2 ⟨hf, hfate⟩)
  · obtain ⟨f, hf, hkey, hfate⟩ := exists_file_of_mem_merge hnew hrow
    refine ⟨f, hf, hkey, fun hempty => ?_⟩
    rcases hfate with hfate | hfate
    · -- a carried file is known by the checksum that it still has
      rw [(fateOf_eq_carry_iff.1 hfate).2.1, hempty]
    · exact absurd hempty (fateOf_eq_process_iff.1 hfate).2

end UpdatePlan

namespace Sample

/-- A unit without a vector. -/
def plainUnit : CodeUnit := .ofGlobalCode "x"

/-- Two files of one content. -/
def twins : Snapshot := ⟨[⟨"a.py", "1", plainUnit⟩, ⟨"b.py", "1", plainUnit⟩], some "m", []⟩

/-- The first of the two has been edited since. -/
def edited : List FileRecord := [.bare "a.py" "2", .bare "b.py" "1"]

end Sample

/-- Of two files of one content the edited one gets its new row, and the other keeps its own. -/
theorem UpdatePlan.merge_follows_plan_sample :
    let next := Sample.twins.merge (make Sample.edited Sample.twins "m").carried
      [⟨"a.py", "2", Sample.plainUnit⟩]
    rowsAt next.rows "a.py" = [⟨"a.py", "2", Sample.plainUnit⟩] ∧
      rowsAt next.rows "b.py" = [⟨"b.py", "1", Sample.plainUnit⟩] := by
  have hplan : make Sample.edited Sample.twins "m" =
      ⟨[.bare "a.py" "2"], ["1"], [("b.py", "1")], [], true⟩ := by
    decide +kernel
  obtain ⟨hcarried, hprocessed, _⟩ := merge_follows_plan Sample.edited Sample.twins "m"
    [⟨"a.py", "2", Sample.plainUnit⟩] (by decide) (by rw [hplan]; decide)
  have ha := hprocessed (.bare "a.py" "2") (by rw [hplan]; decide)
  have hb := hcarried (.bare "b.py" "1") (by decide) (by rw [hplan]; decide)
  exact ⟨ha.trans (by decide), hb.trans (by decide)⟩

end CodeIndex
