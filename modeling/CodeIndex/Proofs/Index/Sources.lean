import CodeIndex.Proofs.Index.History
import CodeIndex.Proofs.Index.Plans

/-!
# Sources of a file's rows

What a run proposes for one file: `FileSource` lists the possible sources of its rows, and
`ProjectRun.fileSource` says that every scanned file has one of them.
-/

namespace CodeIndex

open EmbeddingBatch Snapshot

/-! ## §1 Records of a run -/

namespace ProjectRun

variable (r : ProjectRun) (memory : Snapshot)

/-- What the embedder says of the texts that the run wants embedded. -/
def replies : List Result := (r.indexer.embedder.embedTexts (r.requested memory) r.state).outcome

/-- Every text is replied to. -/
@[simp] theorem length_replies : (r.replies memory).length = (r.requested memory).length := by
  unfold replies
  rw [Embedder.length_embedTexts]

/-- What is embedded of the decomposed files is settled by the replies. -/
theorem embedded_eq_settle :
    r.embedded memory = settle (Workload.parsed (r.results memory)) (r.replies memory) := rfl

/-- An embedded file is one that was decomposed, with the replies to its texts. -/
theorem mem_embedded_records {g : FileRecord} : g ∈ (r.embedded memory).records ↔
    ∃ f rs, (f, rs) ∈ shares (Workload.parsed (r.results memory)) (r.replies memory) ∧
      settledRecord f rs = g := by
  rw [embedded_eq_settle, settle_records, List.mem_map, Prod.exists]

/-- Every embedded unit has a vector that was the reply to its text. -/
theorem mem_replies_of_embedded {g : FileRecord} (hg : g ∈ (r.embedded memory).records)
    {u : CodeUnit} (hu : u ∈ g.units) :
    ∃ v, u.embedding = some v ∧
      (u.sourceText, .ok v) ∈ (r.requested memory).zip (r.replies memory) := by
  obtain ⟨f, rs, hshare, rfl⟩ := (r.mem_embedded_records memory).1 hg
  obtain ⟨u₀, v, hzip, rfl⟩ := mem_settledRecord hu
  have hreply := mem_zip_unitTexts (r.length_replies memory) hshare hzip
  exact ⟨v, rfl, hreply⟩

/-- What is marked as incomplete is a decomposed file with a reply that brought no vector. -/
theorem mem_incomplete_proposed {key : FileKey} : key ∈ (r.proposed memory).incomplete ↔
    ∃ f rs, (f, rs) ∈ shares (Workload.parsed (r.results memory)) (r.replies memory) ∧
      failuresOf f rs ≠ [] ∧ f.key = key := by
  show key ∈
    ((r.workload memory).nextSnapshot memory r.modelId (r.embedded memory)).incomplete ↔ _
  rw [Workload.mem_incomplete_nextSnapshot, embedded_eq_settle, settle_failures]
  -- failures are dealt with the files they belong to, in both directions
  constructor
  · rintro ⟨failure, hfailure, rfl⟩
    obtain ⟨⟨f, rs⟩, hshare, hfailure⟩ := List.mem_flatMap.1 hfailure
    exact ⟨f, rs, hshare, List.ne_nil_of_mem hfailure, (key_of_mem_failuresOf hfailure).symm⟩
  · rintro ⟨f, rs, hshare, hne, rfl⟩
    obtain ⟨failure, hfailure⟩ := List.exists_mem_of_ne_nil _ hne
    exact ⟨failure, List.mem_flatMap.2 ⟨(f, rs), hshare, hfailure⟩,
      key_of_mem_failuresOf hfailure⟩

/-- What is proposed names the model of the run, if it has rows. -/
theorem proposed_model : (r.proposed memory).model =
    if (r.proposed memory).rows = [] then none else some r.modelId :=
  Workload.nextSnapshot_model _

/-- A run that comes to its end has asked for what it wanted to. -/
theorem answers_of_finished {session : StoreSession} (h : r.Finished session) :
    r.answers session = (r.requested session.memory).zip (r.replies session.memory) := by
  unfold answers replies
  rw [h.asked]

end ProjectRun

/-! ## §2 Decomposed files -/

/-- Choosing some files, each with other units, leaves their paths in order. -/
theorem filterMap_filepaths_sublist {choose : FileRecord → Option FileRecord}
    (h : ∀ f g, choose f = some g → g.filepath = f.filepath) (files : List FileRecord) :
    ((files.filterMap choose).map FileRecord.filepath).Sublist
      (files.map FileRecord.filepath) := by
  induction files with
  | nil => exact List.Sublist.slnil
  | cons f files ih =>
    cases hf : choose f with
    | none =>
      rw [List.filterMap_cons_none hf]
      exact ih.cons _
    | some g =>
      rw [List.filterMap_cons_some hf, List.map_cons, List.map_cons, h f g hf]
      exact ih.cons_cons _

namespace ProjectRun

variable {r : ProjectRun} {memory : Snapshot} {f g : FileRecord}

private theorem readText_eq_ok_iff (r : ProjectRun) {p text : String} :
    r.top.readText (r.pathOf p) = .ok text ↔
      ∃ content, r.contentAt? p = some content ∧ content.text = .ok text := by
  unfold FileTree.readText contentAt?
  cases r.top.find (r.pathOf p) with
  | error e => simp
  | ok t => cases t <;> simp

/-- A file is decomposed if it can be read, is in a known language, and parses. -/
theorem decomposeFile_eq_ok_iff : r.indexer.decomposeFile r.top r.root f = .ok g ↔
    ∃ content text language units, r.contentAt? f.filepath = some content ∧
      content.text = .ok text ∧ r.languageAt? f.filepath = some language ∧
      r.unitsOf language text = .ok units ∧ g = { f with units := units } := by
  -- the indexer adds the path to the message of a parse failure, and nothing else
  have hunits : ∀ language text units, r.indexer.unitsOf language f.filepath text = .ok units ↔
      r.unitsOf language text = .ok units := by
    intro language text units
    unfold Indexer.unitsOf unitsOf
    split
    · next h => rw [h]; simp
    · next h => rw [h]; simp
  unfold Indexer.decomposeFile
  simp only
  constructor
  · intro h
    split at h
    · cases h
    next language hlanguage =>
    split at h
    · cases h
    next text htext =>
    split at h
    · cases h
    next units hok =>
    obtain ⟨content, hcontent, htext⟩ := r.readText_eq_ok_iff.1 htext
    exact ⟨content, text, language, units, hcontent, htext, hlanguage, (hunits ..).1 hok,
      (Except.ok.inj h).symm⟩
  · rintro ⟨content, text, language, units, hcontent, htext, hlanguage, hok, rfl⟩
    have hread := r.readText_eq_ok_iff.2 ⟨content, hcontent, htext⟩
    have hok' := (hunits language text units).2 hok
    unfold languageAt? pathOf at hlanguage
    unfold pathOf at hread
    simp only [hlanguage, hread, hok']

/-- Decomposing gives a file its units and leaves the rest of it alone. -/
theorem eq_of_decomposeFile_eq_ok (h : r.indexer.decomposeFile r.top r.root f = .ok g) :
    ∃ units, g = { f with units := units } := by
  obtain ⟨_, _, _, units, _, _, _, _, hg⟩ := decomposeFile_eq_ok_iff.1 h
  exact ⟨units, hg⟩

/-- In an orderly run a path tells the file. -/
theorem Orderly.eq_of_filepath_eq (h : r.Orderly) (hf : f ∈ r.files) (hg : g ∈ r.files)
    (heq : f.filepath = g.filepath) : f = g :=
  List.inj_on_of_nodup_map h.distinct hf hg heq

/-- The files that were decomposed, in the order of the scan. -/
def decomposed (r : ProjectRun) (memory : Snapshot) : List FileRecord :=
  Workload.parsed ((r.workload memory).decompose (r.indexer.decomposeFile r.top r.root))

/-- The workers give the decomposed files back in some order. -/
theorem Orderly.parsed_perm (h : r.Orderly) (memory : Snapshot) :
    (Workload.parsed (r.results memory)).Perm (r.decomposed memory) :=
  (h.arranges _).filterMap _

private theorem mem_decomposed : g ∈ r.decomposed memory ↔
    ∃ f ∈ (r.workload memory).pending, r.indexer.decomposeFile r.top r.root f = .ok g := by
  unfold decomposed Workload.parsed Workload.decompose
  rw [List.filterMap_map, List.mem_filterMap]
  refine exists_congr fun f => and_congr_right fun _ => ?_
  show (Decomposed.record? ⟨f.filepath, r.indexer.decomposeFile r.top r.root f⟩) = some g ↔ _
  unfold Decomposed.record?
  split
  · next heq => simp only at heq; simp [heq]
  · next heq => simp only at heq; simp [heq]

private theorem Orderly.mem_parsed (h : r.Orderly) : g ∈ Workload.parsed (r.results memory) ↔
    ∃ f ∈ (r.workload memory).pending, r.indexer.decomposeFile r.top r.root f = .ok g := by
  rw [(h.parsed_perm memory).mem_iff, mem_decomposed]

private theorem decomposed_filepaths_sublist :
    ((r.decomposed memory).map FileRecord.filepath).Sublist
      ((r.workload memory).pending.map FileRecord.filepath) := by
  unfold decomposed Workload.parsed Workload.decompose
  rw [List.filterMap_map]
  apply filterMap_filepaths_sublist
  intro f g hg
  cases hok : r.indexer.decomposeFile r.top r.root f with
  | error e => simp [Decomposed.record?, hok] at hg
  | ok g' =>
    obtain ⟨units, rfl⟩ := eq_of_decomposeFile_eq_ok hok
    simp only [Function.comp_apply, Decomposed.record?, hok, Option.some.injEq] at hg
    rw [← hg]

/-- No two of them have the same path. -/
theorem Orderly.nodup_parsed (h : r.Orderly) (memory : Snapshot) :
    ((Workload.parsed (r.results memory)).map FileRecord.filepath).Nodup := by
  have hpending : ((r.workload memory).pending.map FileRecord.filepath).Nodup :=
    h.distinct.sublist (Workload.pending_sublist.map _)
  -- the workers return the files in any order, so this is about the order of the scan
  rw [((h.parsed_perm memory).map _).nodup_iff]
  exact hpending.sublist decomposed_filepaths_sublist

/-- Whatever the run embeds of a file, the file was pending. -/
theorem Orderly.exists_pending (h : r.Orderly) {g : FileRecord}
    (hg : g ∈ Workload.parsed (r.results memory)) :
    ∃ f ∈ (r.workload memory).pending, g.key = f.key ∧
      r.indexer.decomposeFile r.top r.root f = .ok g := by
  obtain ⟨f, hf, hok⟩ := h.mem_parsed.1 hg
  obtain ⟨units, rfl⟩ := eq_of_decomposeFile_eq_ok hok
  exact ⟨f, hf, rfl, hok⟩

/-- Every proposed row belongs to a file of the run. -/
theorem Orderly.exists_file (h : r.Orderly) {row : SnapshotRow}
    (hrow : row ∈ (r.proposed memory).rows) :
    ∃ f ∈ r.files, row.key = f.key ∧
      (UpdatePlan.fateOf memory r.modelId f = .carry ∧ row ∈ memory.rows ∨
        UpdatePlan.fateOf memory r.modelId f = .process) := by
  refine Workload.exists_file_of_mem_nextSnapshot ?_ hrow
  intro g hg
  obtain ⟨g₀, rs, hshare, rfl⟩ := (r.mem_embedded_records memory).1 hg
  obtain ⟨f, hpending, hkey, _⟩ := h.exists_pending (mem_of_mem_shares hshare)
  exact ⟨f, hpending, hkey⟩

/-- In a proposal a path has rows of one version only. -/
theorem Orderly.checksum_eq (h : r.Orderly) {a b : SnapshotRow}
    (ha : a ∈ (r.proposed memory).rows) (hb : b ∈ (r.proposed memory).rows)
    (hpath : a.filepath = b.filepath) : a.checksum = b.checksum := by
  obtain ⟨f, hf, hfkey, _⟩ := h.exists_file ha
  obtain ⟨g, hg, hgkey, _⟩ := h.exists_file hb
  obtain ⟨hfpath, hfsum⟩ := Prod.mk.inj hfkey
  obtain ⟨hgpath, hgsum⟩ := Prod.mk.inj hgkey
  obtain rfl := h.eq_of_filepath_eq hf hg (hfpath.symm.trans (hpath.trans hgpath))
  exact hfsum.trans hgsum.symm

end ProjectRun

/-! ## §3 Sources -/

/-- Where the rows of a scanned file in a proposed snapshot come from, and whether a unit of the
file was lost on the way. -/
inductive FileSource (r : ProjectRun) (memory : Snapshot) (f : FileRecord) :
    List SnapshotRow → Bool → Prop
  | carried (hcarry : UpdatePlan.fateOf memory r.modelId f = .carry) :
      FileSource r memory f (rowsOf memory.rows f.key) false
  | skipped (hcarry : UpdatePlan.fateOf memory r.modelId f ≠ .carry)
      (hempty : f.checksum = Checksum.empty) : FileSource r memory f [] false
  | relocated {units : List CodeUnit}
      (hprocess : UpdatePlan.fateOf memory r.modelId f = .process)
      (hreuse : memory.embeddedBy r.modelId = true)
      (hunits : memory.embeddedUnits? f.checksum = some units) :
      FileSource r memory f (rowsOfRecord { f with units := units }) false
  | unreadable {e : IndexError} (hpending : f ∈ (r.workload memory).pending)
      (herror : r.indexer.decomposeFile r.top r.root f = .error e) : FileSource r memory f [] false
  | embedded {units : List CodeUnit} {replies : List Result}
      (hpending : f ∈ (r.workload memory).pending)
      (hunits : r.indexer.decomposeFile r.top r.root f = .ok { f with units := units })
      (hlength : replies.length = units.length)
      (hreplies : ∀ u reply, (u, reply) ∈ units.zip replies →
        (u.sourceText, reply) ∈ (r.requested memory).zip (r.replies memory)) :
      FileSource r memory f (rowsOfRecord (settledRecord { f with units := units } replies))
        (!(failuresOf { f with units := units } replies).isEmpty)

namespace ProjectRun

variable {r : ProjectRun} {memory : Snapshot} {f : FileRecord}

/-- The rows of a file in a proposal: carried ones, then embedded ones, then relocated ones. -/
theorem rowsAt_proposed (r : ProjectRun) (memory : Snapshot) (p : String) :
    rowsAt (r.proposed memory).rows p =
      (rowsAt memory.rows p).filter
          (fun row => (r.workload memory).plan.carried.contains row.key) ++
        (rowsAt (rowsOfRecords (r.embedded memory).records) p ++
          rowsAt (rowsOfRecords (r.workload memory).relocated) p) := by
  show rowsAt (memory.merge _ (rowsOfRecords (_ ++ _))).rows p = _
  rw [rowsAt_merge, rowsOfRecords_append, rowsAt_append]

/-- Of a scanned path the scanned version is carried, or nothing. -/
theorem Orderly.carried_rows (h : r.Orderly) (hf : f ∈ r.files) :
    (rowsAt memory.rows f.filepath).filter
        (fun row => (r.workload memory).plan.carried.contains row.key) =
      if UpdatePlan.fateOf memory r.modelId f = .carry then rowsOf memory.rows f.key else [] :=
  UpdatePlan.carried_rows h.distinct hf

private theorem Orderly.embedded_rows_of_not_decomposed (h : r.Orderly) (memory : Snapshot)
    (hf : f ∈ r.files) (hnone : ∀ g, f ∈ (r.workload memory).pending →
      r.indexer.decomposeFile r.top r.root f ≠ .ok g) :
    rowsAt (rowsOfRecords (r.embedded memory).records) f.filepath = [] ∧
      (r.proposed memory).isIncomplete f.key = false := by
  -- all files that were decomposed have other paths, and with them all new rows and all failures
  have hpath : ∀ g ∈ Workload.parsed (r.results memory), g.filepath ≠ f.filepath := by
    intro g hg heq
    obtain ⟨f', hpending, hkey, hok⟩ := h.exists_pending hg
    have hscan := (Workload.mem_pending.1 hpending).1
    obtain rfl := h.eq_of_filepath_eq hf hscan (heq.symm.trans (congrArg Prod.fst hkey))
    exact hnone g hpending hok
  constructor
  · apply rowsAt_rowsOfRecords_of_forall_ne
    intro g hg
    obtain ⟨g₀, rs, hshare, rfl⟩ := (r.mem_embedded_records memory).1 hg
    exact hpath g₀ (mem_of_mem_shares hshare)
  · rw [isIncomplete_eq_false_iff]
    intro hincomplete
    obtain ⟨g₀, rs, hshare, _, hkey⟩ := (r.mem_incomplete_proposed memory).1 hincomplete
    exact hpath g₀ (mem_of_mem_shares hshare) (congrArg Prod.fst hkey)

private theorem Orderly.relocated_rows_of_none (h : r.Orderly) (memory : Snapshot)
    (hf : f ∈ r.files) (hnone : ∀ g, UpdatePlan.fateOf memory r.modelId f = .process →
      Workload.relocate? (UpdatePlan.make r.files memory r.modelId) memory f ≠ some g) :
    rowsAt (rowsOfRecords (r.workload memory).relocated) f.filepath = [] := by
  apply rowsAt_rowsOfRecords_of_forall_ne
  intro g hg heq
  obtain ⟨f', hf', hprocess, hrelocate⟩ := Workload.mem_relocated.1 hg
  have hkey := Workload.key_of_relocate? hrelocate
  obtain rfl := h.eq_of_filepath_eq hf hf' (heq.symm.trans (congrArg Prod.fst hkey))
  exact hnone g hprocess hrelocate

private theorem Orderly.nodup_relocated (h : r.Orderly) (memory : Snapshot) :
    ((r.workload memory).relocated.map FileRecord.filepath).Nodup := by
  have hprocess : ((UpdatePlan.make r.files memory r.modelId).toProcess.map
      FileRecord.filepath).Nodup :=
    h.distinct.sublist (List.filter_sublist.map _)
  -- relocation gives a file other units under its own path
  refine hprocess.sublist (filterMap_filepaths_sublist ?_ _)
  intro f g hrelocate
  exact congrArg Prod.fst (Workload.key_of_relocate? hrelocate)

/-- A decomposed file has the rows of the units that were embedded, and is incomplete if there are
others. -/
theorem Orderly.embedded_rows (h : r.Orderly) {g : FileRecord} {rs : List Result}
    (hshare : (g, rs) ∈ shares (Workload.parsed (r.results memory)) (r.replies memory)) :
    rowsAt (rowsOfRecords (r.embedded memory).records) g.filepath =
        rowsOfRecord (settledRecord g rs) ∧
      (r.proposed memory).isIncomplete g.key = !(failuresOf g rs).isEmpty := by
  constructor
  · have hdistinct : ((r.embedded memory).records.map FileRecord.filepath).Nodup := by
      rw [embedded_eq_settle, settle_filepaths]
      exact h.nodup_parsed memory
    have hmem : settledRecord g rs ∈ (r.embedded memory).records :=
      (r.mem_embedded_records memory).2 ⟨g, rs, hshare, rfl⟩
    have hrows := rowsAt_rowsOfRecords hdistinct hmem
    rwa [settledRecord_filepath] at hrows
  · rw [Bool.eq_iff_iff, isIncomplete, List.contains_iff_mem, Bool.not_eq_true',
      List.isEmpty_eq_false_iff, mem_incomplete_proposed]
    constructor
    · rintro ⟨g', rs', hshare', hne, hkey⟩
      -- a failure of this path is one of this file, with the very same replies
      have hnodup : ((shares (Workload.parsed (r.results memory)) (r.replies memory)).map
          (FileRecord.filepath ∘ Prod.fst)).Nodup := by
        rw [← List.map_map, map_fst_shares]
        exact h.nodup_parsed memory
      obtain ⟨rfl, rfl⟩ := Prod.mk.inj
        (List.inj_on_of_nodup_map hnodup hshare' hshare (congrArg Prod.fst hkey))
      exact hne
    · intro hne
      exact ⟨g, rs, hshare, hne, rfl⟩

private theorem Orderly.relocated_rows (h : r.Orderly) {units : List CodeUnit} (hf : f ∈ r.files)
    (hprocess : UpdatePlan.fateOf memory r.modelId f = .process)
    (hrelocate : Workload.relocate? (UpdatePlan.make r.files memory r.modelId) memory f =
      some { f with units := units }) :
    rowsAt (rowsOfRecords (r.workload memory).relocated) f.filepath =
      rowsOfRecord { f with units := units } :=
  rowsAt_rowsOfRecords (h.nodup_relocated memory)
    (Workload.mem_relocated.2 ⟨f, hf, hprocess, hrelocate⟩)

/-- A pending file that cannot be decomposed leaves no rows and no mark. -/
theorem Orderly.rows_of_unreadable (h : r.Orderly) {e : IndexError}
    (hpending : f ∈ (r.workload memory).pending)
    (herror : r.indexer.decomposeFile r.top r.root f = .error e) :
    rowsAt (r.proposed memory).rows f.filepath = [] ∧
      (r.proposed memory).isIncomplete f.key = false := by
  obtain ⟨hf, hprocess, hrelocate⟩ := Workload.mem_pending.1 hpending
  obtain ⟨hembedded, hlost⟩ := h.embedded_rows_of_not_decomposed memory hf
    fun g _ => by
      rw [herror]
      exact nofun
  have hrelocated := h.relocated_rows_of_none memory hf fun g _ => by
    rw [hrelocate]
    exact nofun
  -- carried, embedded and copied rows are all there is, and each part is empty here
  refine ⟨?_, hlost⟩
  rw [rowsAt_proposed, h.carried_rows hf, if_neg (by simp [hprocess]), hembedded, hrelocated]
  rfl

/-- The rows of every scanned file have a single source. -/
theorem Orderly.fileSource (h : r.Orderly) (hf : f ∈ r.files) (memory : Snapshot) :
    FileSource r memory f (rowsAt (r.proposed memory).rows f.filepath)
      ((r.proposed memory).isIncomplete f.key) := by
  have hrows := rowsAt_proposed r memory f.filepath
  rw [h.carried_rows hf] at hrows
  by_cases hprocess : UpdatePlan.fateOf memory r.modelId f = .process
  · rw [if_neg (by simp [hprocess]), List.nil_append] at hrows
    cases hrelocate : Workload.relocate? (UpdatePlan.make r.files memory r.modelId) memory f with
    | some g =>
      -- taken over, so not pending
      obtain ⟨hreuse, units, hunits, rfl⟩ := Workload.relocate?_eq_some_iff.1 hrelocate
      obtain ⟨hembedded, hlost⟩ := h.embedded_rows_of_not_decomposed memory hf
        fun g hmem => by
          rw [(Workload.mem_pending.1 hmem).2.2] at hrelocate
          cases hrelocate
      rw [hrows, hembedded, hlost, List.nil_append, h.relocated_rows hf hprocess hrelocate]
      exact .relocated hprocess hreuse hunits
    | none =>
      have hpending : f ∈ (r.workload memory).pending :=
        Workload.mem_pending.2 ⟨hf, hprocess, hrelocate⟩
      cases hunits : r.indexer.decomposeFile r.top r.root f with
      | error e =>
        obtain ⟨hnone, hlost⟩ := h.rows_of_unreadable hpending hunits
        rw [hnone, hlost]
        exact .unreadable hpending hunits
      | ok g =>
        obtain ⟨units, rfl⟩ := eq_of_decomposeFile_eq_ok hunits
        -- pending and decomposed, so its only rows are new
        have hrelocated := h.relocated_rows_of_none memory hf fun g _ => by
          rw [hrelocate]
          exact nofun
        obtain ⟨rs, hshare⟩ := exists_mem_shares (r.replies memory)
          (h.mem_parsed.2 ⟨f, hpending, hunits⟩)
        obtain ⟨hembedded, hlost⟩ := h.embedded_rows hshare
        have hlength := length_of_mem_shares (r.length_replies memory) hshare
        have hreplies : ∀ u reply, (u, reply) ∈ units.zip rs →
            (u.sourceText, reply) ∈ (r.requested memory).zip (r.replies memory) :=
          fun u reply hzip => mem_zip_unitTexts (r.length_replies memory) hshare hzip
        have hsource := FileSource.embedded hpending hunits hlength hreplies
        change (r.proposed memory).isIncomplete f.key = _ at hlost
        rw [hrows, hrelocated, List.append_nil, hembedded, hlost]
        exact hsource
  · -- neither pending nor taken over
    obtain ⟨hembedded, hlost⟩ := h.embedded_rows_of_not_decomposed memory hf
      fun g hmem => absurd (Workload.mem_pending.1 hmem).2.1 hprocess
    have hrelocated := h.relocated_rows_of_none memory hf
      fun g hprocess' => absurd hprocess' hprocess
    rw [hrows, hembedded, hrelocated, hlost, List.append_nil, List.append_nil]
    by_cases hcarry : UpdatePlan.fateOf memory r.modelId f = .carry
    · rw [if_pos hcarry]
      exact .carried hcarry
    · rw [if_neg hcarry]
      exact .skipped hcarry (UpdatePlan.fateOf_eq_skip hcarry hprocess)

end ProjectRun

/-! ## §4 Runs of one project -/

namespace ProjectRun

variable {r r' : ProjectRun}

/-- Runs of the same project find the same files. -/
theorem SameProject.files (h : r.SameProject r') : r.files = r'.files := by
  unfold ProjectRun.files Indexer.scan
  rw [h.top, h.root, h.extraIgnore]

/-- They read the same contents. -/
theorem SameProject.contentAt? (h : r.SameProject r') (p : String) :
    r.contentAt? p = r'.contentAt? p := by
  unfold ProjectRun.contentAt? ProjectRun.pathOf
  rw [h.top, h.root]

/-- They read them in the same languages. -/
theorem SameProject.languageAt? (h : r.SameProject r') (p : String) :
    r.languageAt? p = r'.languageAt? p := by
  unfold ProjectRun.languageAt? ProjectRun.pathOf
  rw [h.root]

/-- So one reads what it found if the other does. -/
theorem SameProject.truthful (h : r.SameProject r') (h' : r'.Truthful) : r.Truthful := by
  intro f hf content hcontent
  rw [h.contentAt?] at hcontent
  exact h' f (h.files ▸ hf) content hcontent

/-- They decompose every file alike. -/
theorem SameProject.decomposeFile (h : r.SameProject r') (f : FileRecord) :
    r.indexer.decomposeFile r.top r.root f = r'.indexer.decomposeFile r'.top r'.root f := by
  unfold Indexer.decomposeFile Indexer.unitsOf
  rw [h.top, h.root, h.grammar]

/-- What one decomposes, the other does. -/
theorem SameProject.decomposes (h : r.SameProject r') {p c : String} {content : FileContent}
    {units : List CodeUnit} (hdecomposes : r.Decomposes p c content units) :
    r'.Decomposes p c content units := by
  unfold Decomposes ProjectRun.unitsOf at hdecomposes ⊢
  rw [← h.files, ← h.contentAt?, ← h.languageAt?, ← h.grammar]
  exact hdecomposes

end ProjectRun

/-! ## §5 What is in memory afterwards -/

namespace ProjectRun

variable {r : ProjectRun} {st : StoreSession}

/-- After a run memory says what the run proposed, up to the spelling of vectors. -/
theorem Finished.memory (h : r.Finished st) :
    (r.outcome st).session.memory.rows.map SnapshotRow.key =
        (r.proposed st.memory).rows.map SnapshotRow.key ∧
      (r.outcome st).session.memory.model = (r.proposed st.memory).model ∧
      ∀ key, key ∈ (r.outcome st).session.memory.incomplete ↔
        key ∈ (r.proposed st.memory).incomplete := by
  rcases h.session with hcommitted | ⟨hsame, hcontent⟩
  · rw [hcommitted]
    exact ⟨rfl, rfl, fun _ => Iff.rfl⟩
  · -- a run that writes nothing found that it would say the same
    obtain ⟨hkeys, hmodel, hincomplete⟩ := eq_of_sameContent hcontent
    rw [hsame]
    exact ⟨hkeys.symm, hmodel.symm, fun key => (hincomplete key).symm⟩

/-- The versions in memory afterwards are the proposed ones. -/
theorem Finished.exists_row_iff (h : r.Finished st) {key : FileKey} :
    (∃ row ∈ (r.outcome st).session.memory.rows, row.key = key) ↔
      ∃ row ∈ (r.proposed st.memory).rows, row.key = key := by
  rw [← List.mem_map, ← List.mem_map, h.memory.1]

/-- Memory names the model of the run afterwards, if it has rows. -/
theorem Finished.model_eq (h : r.Finished st) : (r.outcome st).session.memory.model =
    if (r.outcome st).session.memory.rows = [] then none else some r.modelId := by
  have hnil : (r.outcome st).session.memory.rows = [] ↔ (r.proposed st.memory).rows = [] := by
    rw [← List.map_eq_nil_iff (f := SnapshotRow.key), h.memory.1, List.map_eq_nil_iff]
  rw [h.memory.2.1, r.proposed_model]
  simp only [hnil]

/-- The files that memory marks afterwards are those that lost a unit in this run. -/
theorem Finished.mem_incomplete_iff (h : r.Finished st) (key : FileKey) :
    key ∈ (r.outcome st).session.memory.incomplete ↔
      ∃ failure ∈ (r.embedded st.memory).failures, failure.key = key :=
  (h.memory.2.2 key).trans (Workload.mem_incomplete_nextSnapshot _)

/-- A clean run comes to its end. -/
theorem Clean.finished (h : r.Clean st) : r.Finished st := by
  obtain ⟨report, hok, _⟩ := h
  exact (r.finished_of_ok st hok).1

/-- All texts of a clean run are embedded. -/
theorem Clean.failures_eq_nil (h : r.Clean st) : (r.embedded st.memory).failures = [] := by
  have hfinished := h.finished
  obtain ⟨report, hok, hnone⟩ := h
  rw [hfinished.result] at hok
  rw [← Except.ok.inj hok] at hnone
  exact List.map_eq_nil_iff.1 hnone

/-- A clean run marks no file as incomplete. -/
theorem Clean.isIncomplete_eq_false (h : r.Clean st) (key : FileKey) :
    (r.proposed st.memory).isIncomplete key = false := by
  rw [isIncomplete_eq_false_iff]
  intro hmem
  obtain ⟨failure, hfailure, _⟩ := (Workload.mem_incomplete_nextSnapshot _).1 hmem
  rw [h.failures_eq_nil] at hfailure
  cases hfailure

/-- No marks are left after a clean run. -/
theorem Clean.incomplete_eq_nil (h : r.Clean st) :
    (r.outcome st).session.memory.incomplete = [] := by
  refine List.eq_nil_iff_forall_not_mem.2 fun key hkey => ?_
  obtain ⟨failure, hfailure, _⟩ := (h.finished.mem_incomplete_iff key).1 hkey
  rw [h.failures_eq_nil] at hfailure
  cases hfailure

end ProjectRun

/-! ## §6 Snapshots of a history -/

section Snapshots

open StoreSession

variable {events : List SessionEvent} {s : Snapshot}

/-- What a run leaves in memory is a snapshot of the history. -/
theorem outcome_memory_mem_snapshots (events : List SessionEvent) (r : ProjectRun) :
    (r.outcome (after events)).session.memory ∈ (after (events ++ [.run r])).snapshots := by
  rw [after_concat]
  exact List.mem_cons_self

/-- Rows are always in the order of their paths. -/
theorem sorted_of_mem_snapshots (hs : s ∈ (after events).snapshots) : Sorted s.rows := by
  have hholds : Holds (fun s => Sorted s.rows) (after events) := by
    -- every proposal is sorted, whatever it was made from
    apply after_induction (P := fun _ s => Sorted s.rows)
    · exact List.Pairwise.nil
    · intro _ _ _ h
      exact h
    · intro events r _ _
      exact sorted_merge ..
  exact hholds.of_mem_snapshots hs

/-- Files without content never have rows. -/
theorem checksum_ne_empty_of_mem_snapshots (hruns : ∀ r, .run r ∈ events → r.Orderly)
    (hs : s ∈ (after events).snapshots) : ∀ row ∈ s.rows, row.checksum ≠ Checksum.empty := by
  have hholds : Holds (fun s => (∀ r, .run r ∈ events → r.Orderly) →
      ∀ row ∈ s.rows, row.checksum ≠ Checksum.empty) (after events) := by
    apply after_induction (P := fun events s => (∀ r, .run r ∈ events → r.Orderly) →
      ∀ row ∈ s.rows, row.checksum ≠ Checksum.empty)
    · intro _ row hrow
      cases hrow
    · intro events event s h hruns
      exact h fun r hr => hruns r (List.mem_append_left _ hr)
    · intro events r _ h hruns row hrow
      -- a row that was not there before is of a processed file, and files without content are
      -- skipped
      obtain ⟨f, _, hkey, hcases⟩ := (hruns r (by simp)).exists_file hrow
      rcases hcases with ⟨_, hold⟩ | hprocess
      · exact h (fun r hr => hruns r (List.mem_append_left _ hr)) row hold
      · rw [(Prod.mk.inj hkey).2]
        exact (UpdatePlan.fateOf_eq_process_iff.1 hprocess).2
  exact hholds.of_mem_snapshots hs hruns

end Snapshots

end CodeIndex
