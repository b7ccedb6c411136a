import CodeIndex.Proofs.Index.Models

/-!
# No file is partial in silence

A unit whose embedding fails is left out of the snapshot, and the version of its file is marked
incomplete.  The marks are made anew by every run, while rows are carried forward and taken over, so
that no rows lose their mark is an invariant: `Snapshot.Accounted`.
-/

namespace CodeIndex

open EmbeddingBatch Snapshot StoreSession

/-! ## §1 Units come without vectors -/

namespace Decomposition

private theorem embedding_of_mem_classMethods {source : Text.Octets} {m : Mapping} {t : SyntaxTree}
    {className : Option String} {u : CodeUnit} (h : u ∈ classMethods source m t className) :
    u.embedding = none := by
  unfold classMethods at h
  split at h
  · split at h
    · obtain ⟨member, _, hmember⟩ := List.mem_filterMap.1 h
      obtain ⟨t, _, rfl⟩ := Option.map_eq_some_iff.1 hmember
      rfl
    · cases h
  · cases h

private theorem embedding_of_mem_declarationUnits {source : Text.Octets} {m : Mapping}
    {t : SyntaxTree} {u : CodeUnit} (h : u ∈ declarationUnits source m t) :
    u.embedding = none := by
  unfold declarationUnits at h
  split at h
  · rcases List.mem_cons.1 h with rfl | h
    · rfl
    · exact embedding_of_mem_classMethods h
  · rw [List.mem_singleton.1 h]
    rfl

/-- Decomposing embeds nothing. -/
theorem embedding_of_mem_ofParse {source : String} {root : SyntaxTree} {language : Language}
    {units : List CodeUnit} (h : ofParse source root language = .ok units) {u : CodeUnit}
    (hu : u ∈ units) : u.embedding = none := by
  unfold ofParse at h
  split at h
  · cases h
  · rw [← Except.ok.inj h] at hu
    unfold ofTree at hu
    -- units of declarations come first, the leftover code last
    rcases List.mem_append.1 hu with hu | hu
    · obtain ⟨t, _, hu⟩ := List.mem_flatMap.1 hu
      exact embedding_of_mem_declarationUnits hu
    · obtain ⟨text, _, rfl⟩ := Option.map_eq_some_iff.1 (Option.mem_toList.1 hu)
      rfl

end Decomposition

namespace ProjectRun

variable {r : ProjectRun} {f : FileRecord} {p c : String} {content : FileContent}
  {units : List CodeUnit}

private theorem Decomposes.erase_eq (h : r.Decomposes p c content units) :
    units.map CodeUnit.erase = units := by
  obtain ⟨_, _, _, _, _, _, hunits⟩ := h
  -- units of a decomposition have no vector to erase
  have hself : ∀ u ∈ units, u.erase = id u := fun u hu =>
    CodeUnit.erase_eq_self (Decomposition.embedding_of_mem_ofParse hunits hu)
  rw [List.map_congr_left hself, List.map_id]

/-- A truthful run decomposes the content that it found. -/
theorem Decomposes.checksum_eq (h : r.Decomposes p c content units) (htruthful : r.Truthful) :
    content.checksum = c := by
  obtain ⟨⟨f, hf, hkey⟩, hcontent, _⟩ := h
  obtain ⟨rfl, rfl⟩ := Prod.mk.inj hkey
  exact htruthful f hf content hcontent

/-- The units of a file are those of the content that the run reads for it. -/
theorem exists_decomposes (hf : f ∈ r.files)
    (hunits : r.indexer.decomposeFile r.top r.root f = .ok { f with units := units }) :
    ∃ content, r.Decomposes f.filepath f.checksum content units := by
  obtain ⟨content, text, language, units', hcontent, htext, hlanguage, hparse, hsame⟩ :=
    decomposeFile_eq_ok_iff.1 hunits
  have hunits' : units = units' := congrArg FileRecord.units hsame
  rw [← hunits'] at hparse
  exact ⟨content, ⟨f, hf, rfl⟩, hcontent, text, language, htext, hlanguage, hparse⟩

end ProjectRun

/-! ## §2 The invariant -/

/-- The units of one version of a file, vectors aside. -/
def Snapshot.bareUnits (s : Snapshot) (key : FileKey) : List CodeUnit :=
  (rowsOf s.rows key).map fun row => row.unit.erase

private theorem Snapshot.map_erase_rowsOfRecord (f : FileRecord) :
    (rowsOfRecord f).map (fun row => row.unit.erase) = f.units.map CodeUnit.erase := by
  rw [← rowsOfRecord_map_unit f, List.map_map]
  rfl

/-- A run of the history found a file with checksum `c`, under some path, and decomposed the content
that it read for it into exactly these units. -/
def WholeIn (events : List SessionEvent) (c : String) (content : FileContent)
    (units : List CodeUnit) : Prop :=
  ∃ r, .run r ∈ events ∧ ∃ p, r.Decomposes p c content units

/-- A run of the history found this version of a file, and decomposed the content that it read for
it into these units and others. -/
def PartIn (events : List SessionEvent) (key : FileKey) (content : FileContent)
    (units : List CodeUnit) : Prop :=
  ∃ r, .run r ∈ events ∧
    ∃ whole, r.Decomposes key.1 key.2 content whole ∧ units.Sublist whole ∧ units ≠ whole

/-- The runs of the history read what they found wherever they found a file with checksum `c`. -/
def ReadAsFound (events : List SessionEvent) (c : String) : Prop :=
  ∀ r, .run r ∈ events → ∀ f ∈ r.files, f.checksum = c →
    ∀ content, r.contentAt? f.filepath = some content → content.checksum = c

/-- Every file with rows has one version, with all its units unless it is marked, and with some of
them missing if it is. -/
structure Snapshot.Accounted (events : List SessionEvent) (s : Snapshot) : Prop where
  one : OneVersion s.rows
  whole : ∀ row ∈ s.rows, row.key ∉ s.incomplete →
    ∃ content, WholeIn events row.checksum content (s.bareUnits row.key)
  part : ∀ row ∈ s.rows, row.key ∈ s.incomplete →
    ∃ content, PartIn events row.key content (s.bareUnits row.key)

section Later

variable {events : List SessionEvent} {s : Snapshot} {content : FileContent}
  {units : List CodeUnit}

/-- What was whole in a history is so in every longer one. -/
theorem WholeIn.later {c : String} (h : WholeIn events c content units) (event : SessionEvent) :
    WholeIn (events ++ [event]) c content units := by
  obtain ⟨r, hr, hdecomposes⟩ := h
  exact ⟨r, List.mem_append_left _ hr, hdecomposes⟩

/-- What was a part in a history is so in every longer one. -/
theorem PartIn.later {key : FileKey} (h : PartIn events key content units)
    (event : SessionEvent) : PartIn (events ++ [event]) key content units := by
  obtain ⟨r, hr, hdecomposes⟩ := h
  exact ⟨r, List.mem_append_left _ hr, hdecomposes⟩

/-- A snapshot stays accounted for as the history goes on. -/
theorem Snapshot.Accounted.later (h : s.Accounted events) (event : SessionEvent) :
    s.Accounted (events ++ [event]) := by
  refine ⟨h.one, fun row hrow hkey => ?_, fun row hrow hkey => ?_⟩
  · obtain ⟨content, hwhole⟩ := h.whole row hrow hkey
    exact ⟨content, hwhole.later event⟩
  · obtain ⟨content, hpart⟩ := h.part row hrow hkey
    exact ⟨content, hpart.later event⟩

/-- The content is the one with checksum `c`, if files of this checksum were read as they were
found. -/
theorem WholeIn.checksum_eq {c : String} (h : WholeIn events c content units)
    (hread : ReadAsFound events c) : content.checksum = c := by
  obtain ⟨r, hr, p, ⟨f, hf, hkey⟩, hcontent, _⟩ := h
  obtain ⟨rfl, rfl⟩ := Prod.mk.inj hkey
  exact hread r hr f hf rfl content hcontent

/-- The content that units are a part of is the one with their checksum, if it was read as it was
found. -/
theorem PartIn.checksum_eq {key : FileKey} (h : PartIn events key content units)
    (hread : ReadAsFound events key.2) : content.checksum = key.2 := by
  obtain ⟨r, hr, whole, hdecomposes, _⟩ := h
  exact WholeIn.checksum_eq ⟨r, hr, key.1, hdecomposes⟩ hread

end Later

/-- A snapshot without rows is accounted for. -/
theorem Snapshot.Accounted.empty (events : List SessionEvent) :
    Snapshot.empty.Accounted events := by
  have hnone : ∀ row, row ∉ Snapshot.empty.rows := fun _ => List.not_mem_nil
  exact ⟨fun a ha => absurd ha (hnone a), fun row hrow => absurd hrow (hnone row),
    fun row hrow => absurd hrow (hnone row)⟩

/-! ## §3 A step -/

section Step

variable {events : List SessionEvent} {r : ProjectRun} {memory : Snapshot} {f : FileRecord}
  {rows : List SnapshotRow} {lost : Bool}

/-- Rows that are kept and rows that are taken over have the units of their content; new rows have
them too, unless some were lost. -/
theorem FileSource.whole (h : FileSource r memory f rows lost) (hmemory : memory.Accounted events)
    (hf : f ∈ r.files) (hne : rows ≠ []) (hlost : lost = false) :
    ∃ content, WholeIn (events ++ [.run r]) f.checksum content
      (rows.map fun row => row.unit.erase) := by
  cases h with
  | carried hcarry =>
    -- an incomplete version is never carried
    obtain ⟨row, hrow⟩ := List.exists_mem_of_ne_nil _ hne
    obtain ⟨hmem, hkey⟩ := mem_rowsOf.1 hrow
    have hcomplete := (UpdatePlan.fateOf_eq_carry_iff.1 hcarry).2.2
    obtain ⟨content, hwhole⟩ := hmemory.whole row hmem (hkey ▸ hcomplete)
    rw [hkey, (Prod.mk.inj hkey).2] at hwhole
    exact ⟨content, hwhole.later _⟩
  | skipped _ _ => exact absurd rfl hne
  | relocated hprocess hreuse hunits =>
    -- the twin is not marked, so it is whole itself
    obtain ⟨row, hmem, hchecksum, hcomplete, rfl⟩ := exists_row_of_embeddedUnits? hunits
    obtain ⟨content, hwhole⟩ := hmemory.whole row hmem hcomplete
    rw [hchecksum] at hwhole
    rw [map_erase_rowsOfRecord, List.map_map]
    exact ⟨content, hwhole.later _⟩
  | unreadable _ _ => exact absurd rfl hne
  | @embedded units replies hpending hunits hlength hreplies =>
    obtain ⟨content, hdecomposes⟩ := ProjectRun.exists_decomposes hf hunits
    have hnone : failuresOf { f with units := units } replies = [] := by
      simpa using hlost
    -- no failure, so every unit is there
    refine ⟨content, r, by simp, f.filepath, ?_⟩
    rw [map_erase_rowsOfRecord, settledRecord_eq_of_failuresOf_eq_nil hlength hnone]
    show r.Decomposes _ _ _ (units.map CodeUnit.erase)
    rw [hdecomposes.erase_eq]
    exact hdecomposes

/-- Units are only lost to failed embeddings, and then the others are left in their order. -/
theorem FileSource.part (h : FileSource r memory f rows lost) (hf : f ∈ r.files)
    (hlost : lost = true) :
    ∃ content, PartIn (events ++ [.run r]) f.key content (rows.map fun row => row.unit.erase) := by
  cases h with
  | carried _ => cases hlost
  | skipped _ _ => cases hlost
  | relocated _ _ _ => cases hlost
  | unreadable _ _ => cases hlost
  | @embedded units replies hpending hunits hlength hreplies =>
    obtain ⟨content, hdecomposes⟩ := ProjectRun.exists_decomposes hf hunits
    have hsome : failuresOf { f with units := units } replies ≠ [] := by
      simpa using hlost
    have hsublist := settledRecord_sublist (r := { f with units := units }) hlength
    have hcount := settledRecord_length (r := { f with units := units }) hlength
    rw [map_erase_rowsOfRecord]
    refine ⟨content, r, by simp, units, hdecomposes, ?_, ?_⟩
    · rw [hdecomposes.erase_eq] at hsublist
      exact hsublist
    · -- each failure is a unit less
      intro hall
      have hsame := congrArg List.length hall
      rw [List.length_map] at hsame
      have := List.length_pos_iff.2 hsome
      simp only at hcount
      omega

/-- A run keeps every file accounted for. -/
theorem Snapshot.Accounted.proposed (h : memory.Accounted events) (horderly : r.Orderly) :
    (r.proposed memory).Accounted (events ++ [.run r]) := by
  have hone : OneVersion (r.proposed memory).rows :=
    fun _ ha _ hb => horderly.checksum_eq ha hb
  -- the rows of a version are all the rows of its path, and those have a source
  have hrows : ∀ f : FileRecord, ∀ row ∈ (r.proposed memory).rows, row.key = f.key →
      rowsAt (r.proposed memory).rows f.filepath = rowsOf (r.proposed memory).rows f.key := by
    intro f row hrow hkey
    rw [← hkey, ← hone.rowsAt_eq_rowsOf hrow, (Prod.mk.inj hkey).1]
  -- so each row is traced to its file, and the file to the source of its rows
  refine ⟨hone, fun row hrow hcomplete => ?_, fun row hrow hincomplete => ?_⟩
  · obtain ⟨f, hf, hkey, _⟩ := horderly.exists_file hrow
    have hsource := horderly.fileSource hf memory
    have hne : rowsAt (r.proposed memory).rows f.filepath ≠ [] :=
      List.ne_nil_of_mem (mem_rowsAt.2 ⟨hrow, (Prod.mk.inj hkey).1⟩)
    have hlost : (r.proposed memory).isIncomplete f.key = false :=
      isIncomplete_eq_false_iff.2 (hkey ▸ hcomplete)
    obtain ⟨content, hwhole⟩ := hsource.whole h hf hne hlost
    rw [hrows f row hrow hkey, ← hkey, ← (Prod.mk.inj hkey).2] at hwhole
    exact ⟨content, hwhole⟩
  · obtain ⟨f, hf, hkey, _⟩ := horderly.exists_file hrow
    have hsource := horderly.fileSource hf memory
    have hlost : (r.proposed memory).isIncomplete f.key = true := by
      rw [isIncomplete, List.contains_iff_mem, ← hkey]
      exact hincomplete
    obtain ⟨content, hpart⟩ : ∃ content, PartIn (events ++ [.run r]) f.key content _ :=
      hsource.part hf hlost
    rw [hrows f row hrow hkey, ← hkey] at hpart
    exact ⟨content, hpart⟩

end Step

/-! ## §4 Histories -/

/-- In a history of orderly runs every snapshot is accounted for. -/
theorem accounted_of_mem_snapshots {events : List SessionEvent}
    (hruns : ∀ r, .run r ∈ events → r.Orderly) {s : Snapshot}
    (hs : s ∈ (after events).snapshots) : s.Accounted events := by
  -- orderliness is part of the invariant, since only earlier runs are orderly at each step
  have hholds : Holds (fun s => (∀ r, .run r ∈ events → r.Orderly) → s.Accounted events)
      (after events) := by
    apply after_induction
      (P := fun events s => (∀ r, .run r ∈ events → r.Orderly) → s.Accounted events)
    · intro _
      exact Accounted.empty []
    · intro events event s h hruns
      exact (h fun r hr => hruns r (List.mem_append_left _ hr)).later event
    · intro events r _ h hruns
      have horderly := hruns r (by simp)
      exact (h fun r hr => hruns r (List.mem_append_left _ hr)).proposed horderly
  exact hholds.of_mem_snapshots hs hruns

/-- No file is partial in silence.  In a history of orderly runs a path has rows of one version
only.  Its units, vectors aside, are all that some run made of the content that it read for a file
with this checksum, unless the version is marked incomplete; then they are some but not all of what
a run made of it under this very path.  The content that was read is the one with this checksum, if
files of this checksum were read as they were found.  The scan does not make sure of that: a file is
opened again by its recorded name, and the recorded name need not lead to it. -/
theorem complete_or_marked (events : List SessionEvent)
    (hruns : ∀ r, .run r ∈ events → r.Orderly) (s : Snapshot)
    (hs : s ∈ (after events).snapshots) (row : SnapshotRow) (hrow : row ∈ s.rows) :
    (∀ row' ∈ s.rows, row'.filepath = row.filepath → row'.checksum = row.checksum) ∧
      (row.key ∉ s.incomplete → ∃ content,
        WholeIn events row.checksum content ((s.unitsAt row.filepath).map CodeUnit.erase) ∧
          (ReadAsFound events row.checksum → content.checksum = row.checksum)) ∧
      (row.key ∈ s.incomplete → ∃ content,
        PartIn events row.key content ((s.unitsAt row.filepath).map CodeUnit.erase) ∧
          (ReadAsFound events row.checksum → content.checksum = row.checksum)) := by
  have haccounted := accounted_of_mem_snapshots hruns hs
  -- one version of the path has rows, so its units are those of the key
  have hunits : (s.unitsAt row.filepath).map CodeUnit.erase = s.bareUnits row.key := by
    unfold unitsAt bareUnits
    rw [haccounted.one.rowsAt_eq_rowsOf hrow, List.map_map]
    rfl
  rw [hunits]
  refine ⟨fun row' hrow' hpath => haccounted.one row' hrow' row hrow hpath, ?_, ?_⟩
  · intro hcomplete
    obtain ⟨content, hwhole⟩ := haccounted.whole row hrow hcomplete
    exact ⟨content, hwhole, hwhole.checksum_eq⟩
  · intro hincomplete
    obtain ⟨content, hpart⟩ := haccounted.part row hrow hincomplete
    exact ⟨content, hpart, hpart.checksum_eq⟩

/-- The file that the second run adds to the sample is whole, with the content that was found. -/
theorem complete_or_marked_sample :
    Sample.otherRow ∈ (after [.run Sample.run, .run Sample.pair]).memory.rows ∧
      ∃ content, WholeIn [.run Sample.run, .run Sample.pair] Sample.otherRow.checksum content
        (((after [.run Sample.run, .run Sample.pair]).memory.unitsAt "b.py").map
          CodeUnit.erase) ∧ content.checksum = Sample.otherRow.checksum := by
  have hrow : Sample.otherRow ∈ (after [.run Sample.run, .run Sample.pair]).memory.rows := by
    rw [Sample.pair_memory_eq]
    exact List.mem_cons_of_mem _ List.mem_cons_self
  have hcomplete :
      Sample.otherRow.key ∉ (after [.run Sample.run, .run Sample.pair]).memory.incomplete := by
    rw [Sample.pair_memory_eq]
    exact List.not_mem_nil
  have hread : ReadAsFound [.run Sample.run, .run Sample.pair] Sample.otherRow.checksum := by
    intro r hr f hf hchecksum content hcontent
    exact (Sample.history_truthful hr f hf content hcontent).trans hchecksum
  obtain ⟨_, hwhole, _⟩ := complete_or_marked [.run Sample.run, .run Sample.pair]
    (fun _ hr => Sample.history_orderly hr) _ List.mem_cons_self _ hrow
  obtain ⟨content, hcontent, hchecksum⟩ := hwhole hcomplete
  exact ⟨hrow, content, hcontent, hchecksum hread⟩

end CodeIndex
