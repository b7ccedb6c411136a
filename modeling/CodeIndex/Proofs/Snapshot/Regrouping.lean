import CodeIndex.Proofs.Snapshot.Rows
import Mathlib.Data.List.Chain

/-!
# Regrouping rows

Rows and records are two forms of one list.  Flattening gives back the rows that were regrouped, and
regrouping gives back exactly those records that have units and of which no two neighbours are of
one version (`Grouped`).  So rows have one grouped form, and any way to find it will do:
`files_eq_foldl_snocRecord` finds it in one pass from the front.
-/

namespace CodeIndex.Snapshot

variable {r : SnapshotRow} {f : FileRecord} {records : List FileRecord}

/-- Every record has units, and neighbours are of different versions. -/
structure Grouped (records : List FileRecord) : Prop where
  units_ne_nil : ∀ f ∈ records, f.units ≠ []
  key_ne : records.IsChain fun a b => a.key ≠ b.key

private theorem grouped_nil : Grouped [] := ⟨by simp, .nil⟩

private theorem grouped_cons_iff : Grouped (f :: records) ↔
    f.units ≠ [] ∧ (∀ g ∈ records.head?, f.key ≠ g.key) ∧ Grouped records := by
  constructor
  · rintro ⟨hunits, hkeys⟩
    rw [List.forall_mem_cons] at hunits
    rw [List.isChain_cons] at hkeys
    exact ⟨hunits.1, hkeys.1, hunits.2, hkeys.2⟩
  · rintro ⟨hunits, hhead, hgrouped⟩
    exact ⟨List.forall_mem_cons.2 ⟨hunits, hgrouped.units_ne_nil⟩,
      List.isChain_cons.2 ⟨hhead, hgrouped.key_ne⟩⟩

/-! ## §1 A row in front -/

private theorem rowsOfRecords_cons (f : FileRecord) (records : List FileRecord) :
    rowsOfRecords (f :: records) = rowsOfRecord f ++ rowsOfRecords records := rfl

/-- A row put in front of records is in front of their rows. -/
@[simp] theorem rowsOfRecords_consRecord (r : SnapshotRow) (records : List FileRecord) :
    rowsOfRecords (consRecord r records) = r :: rowsOfRecords records := by
  unfold consRecord
  split
  · rfl
  · next f fs =>
    split
    · next hkey =>
      -- the row joins the first record, whose version it shares
      obtain ⟨hpath, hchecksum⟩ := Prod.mk.inj hkey
      simp only [rowsOfRecords_cons, rowsOfRecord, List.map_cons, List.cons_append, hpath,
        hchecksum]
    · rfl

/-- Records stay grouped when a row is put in front of them. -/
theorem Grouped.consRecord (h : Grouped records) (r : SnapshotRow) :
    Grouped (consRecord r records) := by
  unfold Snapshot.consRecord
  -- into an empty list, into the first record, or in front of it
  split
  · simp [grouped_cons_iff, grouped_nil]
  · next f fs =>
    obtain ⟨_, hhead, hgrouped⟩ := grouped_cons_iff.1 h
    split
    · exact grouped_cons_iff.2 ⟨by simp, hhead, hgrouped⟩
    · next hkey =>
      refine grouped_cons_iff.2 ⟨by simp, fun g hg => ?_, h⟩
      obtain rfl := Option.some.inj hg
      exact Ne.symm hkey

/-- The rows of a record, put in front one by one, come together in that record again. -/
theorem foldr_consRecord_rowsOfRecord (hunits : f.units ≠ [])
    (hhead : ∀ g ∈ records.head?, f.key ≠ g.key) :
    (rowsOfRecord f).foldr consRecord records = f :: records := by
  obtain ⟨p, c, units⟩ := f
  induction units with
  | nil => exact absurd rfl hunits
  | cons u units ih =>
    cases units with
    | nil =>
      -- the last row meets the records of other versions
      cases records with
      | nil => rfl
      | cons g records =>
        have hkey : g.key ≠ (p, c) := Ne.symm (hhead g rfl)
        exact if_neg hkey
    | cons v units =>
      have hrest := ih (by simp) hhead
      show consRecord ⟨p, c, u⟩ ((rowsOfRecord ⟨p, c, v :: units⟩).foldr consRecord records) = _
      rw [hrest]
      exact if_pos rfl

/-! ## §2 Regrouping and flattening -/

private theorem rowsOfRecords_foldr_consRecord (rows : List SnapshotRow) :
    rowsOfRecords (rows.foldr consRecord []) = rows := by
  induction rows with
  | nil => rfl
  | cons r rows ih => rw [List.foldr_cons, rowsOfRecords_consRecord, ih]

private theorem grouped_files (s : Snapshot) : Grouped s.files := by
  unfold files
  induction s.rows with
  | nil => exact grouped_nil
  | cons r rows ih => exact ih.consRecord r

private theorem foldr_consRecord_rowsOfRecords (h : Grouped records) :
    (rowsOfRecords records).foldr consRecord [] = records := by
  induction records with
  | nil => rfl
  | cons f records ih =>
    obtain ⟨hunits, hhead, hgrouped⟩ := grouped_cons_iff.1 h
    rw [rowsOfRecords_cons, List.foldr_append, ih hgrouped,
      foldr_consRecord_rowsOfRecord hunits hhead]

/-- Regrouping and flattening are inverse.  The records of a snapshot are grouped and have its rows,
and grouped records, and no others, are those of the snapshot made of them. -/
theorem regrouping_inverse (s : Snapshot) (records : List FileRecord) :
    (ofRecords s.files).rows = s.rows ∧ Grouped s.files ∧
      ((ofRecords records).files = records ↔ Grouped records) := by
  refine ⟨rowsOfRecords_foldr_consRecord s.rows, grouped_files s, fun h => ?_, fun h => ?_⟩
  · rw [← h]
    exact grouped_files _
  · exact foldr_consRecord_rowsOfRecords h

/-! ## §3 One pass from the front -/

private theorem grouped_concat_iff : Grouped (records ++ [f]) ↔
    Grouped records ∧ (∀ g ∈ records.getLast?, g.key ≠ f.key) ∧ f.units ≠ [] := by
  constructor
  · rintro ⟨hunits, hkeys⟩
    rw [List.forall_mem_append] at hunits
    rw [List.isChain_append] at hkeys
    exact ⟨⟨hunits.1, hkeys.1⟩, fun g hg => hkeys.2.2 g hg f rfl, hunits.2 f (by simp)⟩
  · rintro ⟨⟨hunits, hkeys⟩, hlast, hf⟩
    refine ⟨List.forall_mem_append.2 ⟨hunits, by simpa using hf⟩, ?_⟩
    exact List.isChain_append.2 ⟨hkeys, .singleton f, by simpa using hlast⟩

/-- Puts a row behind the records of the rows before it, into the last one if that is of the row's
version. -/
def snocRecord (records : List FileRecord) (r : SnapshotRow) : List FileRecord :=
  match records.getLast? with
  | some f =>
    if f.key = r.key then records.dropLast ++ [{ f with units := f.units ++ [r.unit] }]
    else records ++ [⟨r.filepath, r.checksum, [r.unit]⟩]
  | none => [⟨r.filepath, r.checksum, [r.unit]⟩]

private theorem snocRecord_concat (records : List FileRecord) (f : FileRecord) (r : SnapshotRow) :
    snocRecord (records ++ [f]) r =
      if f.key = r.key then records ++ [{ f with units := f.units ++ [r.unit] }]
      else records ++ [f] ++ [⟨r.filepath, r.checksum, [r.unit]⟩] := by
  simp [snocRecord]

private theorem rowsOfRecords_snocRecord (records : List FileRecord) (r : SnapshotRow) :
    rowsOfRecords (snocRecord records r) = rowsOfRecords records ++ [r] := by
  rcases List.eq_nil_or_concat records with rfl | ⟨front, f, rfl⟩
  · rfl
  · rw [List.concat_eq_append, snocRecord_concat]
    split
    · next hkey =>
      obtain ⟨hpath, hchecksum⟩ := Prod.mk.inj hkey
      simp [rowsOfRecords, rowsOfRecord, hpath, hchecksum]
    · simp [rowsOfRecords, rowsOfRecord]

private theorem Grouped.snocRecord (h : Grouped records) (r : SnapshotRow) :
    Grouped (snocRecord records r) := by
  rcases List.eq_nil_or_concat records with rfl | ⟨front, f, rfl⟩
  · exact grouped_cons_iff.2 ⟨by simp, by simp, grouped_nil⟩
  · rw [List.concat_eq_append] at h ⊢
    rw [snocRecord_concat]
    -- into the last record or behind it
    split
    · obtain ⟨hfront, hlast, _⟩ := grouped_concat_iff.1 h
      exact grouped_concat_iff.2 ⟨hfront, hlast, by simp⟩
    · next hkey =>
      refine grouped_concat_iff.2 ⟨h, fun g hg => ?_, by simp⟩
      rw [List.getLast?_concat] at hg
      obtain rfl := Option.some.inj hg
      exact hkey

/-- The records of a snapshot come from one pass over its rows that looks at the last record only.
-/
theorem files_eq_foldl_snocRecord (s : Snapshot) : s.files = s.rows.foldl snocRecord [] := by
  -- after every row the pass has the grouped form of the rows so far
  have hpass : ∀ (rows : List SnapshotRow) (records : List FileRecord), Grouped records →
      Grouped (rows.foldl snocRecord records) ∧
        rowsOfRecords (rows.foldl snocRecord records) = rowsOfRecords records ++ rows := by
    intro rows
    induction rows with
    | nil => exact fun records h => ⟨h, by simp⟩
    | cons r rows ih =>
      intro records h
      obtain ⟨hgrouped, hrows⟩ := ih _ (h.snocRecord r)
      exact ⟨hgrouped, by rw [List.foldl_cons, hrows, rowsOfRecords_snocRecord]; simp⟩
  obtain ⟨hgrouped, hrows⟩ := hpass s.rows [] grouped_nil
  calc s.files = (rowsOfRecords (s.rows.foldl snocRecord [])).foldr consRecord [] := by
        rw [hrows]; rfl
    _ = s.rows.foldl snocRecord [] := foldr_consRecord_rowsOfRecords hgrouped

end CodeIndex.Snapshot
