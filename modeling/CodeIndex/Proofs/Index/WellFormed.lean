import CodeIndex.Proofs.Index.Models

/-!
# Well-formed snapshots

What every snapshot has that a store ever holds: its rows are in the order of their paths, a path
has one version, every row has a vector, a model is named as soon as there are rows, and a file that
lost units has no rows of another version.  Callers rely on it: the checksum of a path is read off
its last row, which is right because all its rows agree.
-/

namespace CodeIndex

open EmbeddingBatch Snapshot StoreSession

/-! ## §1 The invariant -/

/-- What holds of every snapshot. -/
structure Snapshot.WellFormed (s : Snapshot) : Prop where
  sorted : s.rows.Pairwise fun a b => a.filepath ≤ b.filepath
  oneVersion : ∀ a ∈ s.rows, ∀ b ∈ s.rows, a.filepath = b.filepath → a.checksum = b.checksum
  embedded : ∀ row ∈ s.rows, row.unit.embedding.isSome = true
  model : s.model.isSome = true ↔ s.rows ≠ []
  incomplete : ∀ key ∈ s.incomplete, ∀ row ∈ s.rows, row.filepath = key.1 → row.checksum = key.2

namespace Snapshot.WellFormed

/-- A snapshot without rows is well formed. -/
theorem empty : Snapshot.empty.WellFormed where
  sorted := List.Pairwise.nil
  oneVersion _ ha := absurd ha List.not_mem_nil
  embedded _ hrow := absurd hrow List.not_mem_nil
  model := ⟨nofun, fun h => absurd rfl h⟩
  incomplete _ hkey := absurd hkey List.not_mem_nil

/-- In a well-formed snapshot the checksum of a path is that of all its rows. -/
theorem checksumOf?_eq_some_iff {s : Snapshot} (h : s.WellFormed) {p c : String} :
    s.checksumOf? p = some c ↔ ∃ row ∈ s.rows, row.key = (p, c) := by
  constructor
  · exact exists_row_of_checksumOf?
  · rintro ⟨row, hrow, hkey⟩
    obtain ⟨rfl, rfl⟩ := Prod.mk.inj hkey
    apply checksumOf?_eq_some hrow
    intro row' hrow' hpath
    exact h.oneVersion row' hrow' row hrow hpath

/-- The table of checksums lists the versions that have rows, and no others. -/
theorem mem_pathChecksums_iff {s : Snapshot} (h : s.WellFormed) {key : FileKey} :
    key ∈ s.pathChecksums ↔ ∃ row ∈ s.rows, row.key = key := by
  obtain ⟨p, c⟩ := key
  rw [← h.checksumOf?_eq_some_iff]
  unfold pathChecksums
  rw [List.mem_filterMap]
  constructor
  · rintro ⟨p', _, hlisted⟩
    obtain ⟨c', hsum, heq⟩ := Option.map_eq_some_iff.1 hlisted
    obtain ⟨rfl, rfl⟩ := Prod.mk.inj heq
    exact hsum
  · intro hsum
    -- a path with a checksum has a row, so it is listed
    obtain ⟨row, hrow, hkey⟩ := exists_row_of_checksumOf? hsum
    refine ⟨p, ?_, by rw [hsum]; rfl⟩
    rw [paths, List.mem_eraseDups, List.mem_map]
    exact ⟨row, hrow, congrArg Prod.fst hkey⟩

end Snapshot.WellFormed

/-! ## §2 One run -/

namespace ProjectRun.Orderly

variable {r : ProjectRun} {memory : Snapshot}

/-- A file that lost a unit is one that the run found. -/
theorem exists_file_of_mem_incomplete (h : r.Orderly) {key : FileKey}
    (hkey : key ∈ (r.proposed memory).incomplete) : ∃ f ∈ r.files, f.key = key := by
  obtain ⟨g, rs, hshare, _, rfl⟩ := (r.mem_incomplete_proposed memory).1 hkey
  -- a file that was decomposed was pending, so it was found
  obtain ⟨f, hpending, hgkey, _⟩ := h.exists_pending (mem_of_mem_shares hshare)
  exact ⟨f, (Workload.mem_pending.1 hpending).1, hgkey.symm⟩

/-- The rows of a file that lost units are of the version that lost them. -/
theorem checksum_eq_of_mem_incomplete (h : r.Orderly) {key : FileKey}
    (hkey : key ∈ (r.proposed memory).incomplete) {row : SnapshotRow}
    (hrow : row ∈ (r.proposed memory).rows) (hpath : row.filepath = key.1) :
    row.checksum = key.2 := by
  obtain ⟨f, hf, rfl⟩ := h.exists_file_of_mem_incomplete hkey
  obtain ⟨g, hg, hgkey, _⟩ := h.exists_file hrow
  obtain ⟨hgpath, hgsum⟩ := Prod.mk.inj hgkey
  -- both files are scanned, and a path is scanned once
  obtain rfl := h.eq_of_filepath_eq hg hf (hgpath.symm.trans hpath)
  exact hgsum

/-- A run proposes well-formed snapshots. -/
theorem wellFormed_proposed (h : r.Orderly) (hmemory : memory.WellFormed) :
    (r.proposed memory).WellFormed where
  sorted := sorted_merge ..
  oneVersion a ha b hb hpath := h.checksum_eq ha hb hpath
  embedded := by
    apply Workload.forall_unit_nextSnapshot (Q := fun u => u.embedding.isSome = true)
    · intro _ row hrow
      exact hmemory.embedded row hrow
    · -- a unit without a vector is taken out of its file
      intro g hg u hu
      obtain ⟨v, hv, _⟩ := r.mem_replies_of_embedded memory hg hu
      rw [hv]
      rfl
  model := by
    rw [r.proposed_model]
    split
    · next hrows => simp [hrows]
    · next hrows => simp [hrows]
  incomplete key hkey row hrow hpath := h.checksum_eq_of_mem_incomplete hkey hrow hpath

end ProjectRun.Orderly

/-! ## §3 Histories -/

/-- Every snapshot that a store ever holds is well formed, in memory and in the file, however the
runs before it went. -/
theorem wellFormed_of_mem_snapshots (events : List SessionEvent)
    (horderly : ∀ r, .run r ∈ events → r.Orderly) :
    ∀ s ∈ (after events).snapshots, s.WellFormed := by
  -- as in `accounted_of_mem_snapshots`: the runs so far are orderly at each step
  have hholds : Holds (fun s => (∀ r, .run r ∈ events → r.Orderly) → s.WellFormed)
      (after events) := by
    apply after_induction (P := fun events s =>
      (∀ r, .run r ∈ events → r.Orderly) → s.WellFormed)
    · intro _
      exact WellFormed.empty
    · intro events event s h horderly
      exact h fun r hr => horderly r (List.mem_append_left _ hr)
    · intro events r _ h horderly
      apply (horderly r (by simp)).wellFormed_proposed
      exact h fun r hr => horderly r (List.mem_append_left _ hr)
  intro s hs
  exact hholds.of_mem_snapshots hs horderly

/-- After one file was indexed, and then a second one beside it, memory is well formed. -/
theorem wellFormed_of_mem_snapshots_sample :
    (after [.run Sample.run, .run Sample.pair]).memory.rows = [Sample.row, Sample.otherRow] ∧
      (after [.run Sample.run, .run Sample.pair]).memory.WellFormed :=
  ⟨congrArg Snapshot.rows Sample.pair_memory_eq,
    wellFormed_of_mem_snapshots [.run Sample.run, .run Sample.pair]
      (fun _ hr => Sample.history_orderly hr) _ List.mem_cons_self⟩

end CodeIndex
