import CodeIndex.Proofs.Embedding.Calls
import CodeIndex.Proofs.Index.Models

/-!
# What runs ask for

Vectors cost money, so a run asks for those that memory does not have, and for all of them.  Memory
has the vectors of a content if it has all its rows under some path, embedded by the model of the
run; then it does not matter under which path the content is found now.
-/

namespace CodeIndex

open EmbeddingBatch Snapshot StoreSession

/-- The texts of the units of a file that was decomposed; none if it was not. -/
def Decomposed.texts (d : Decomposed) : List String :=
  (d.record?.map fun g => g.units.map CodeUnit.sourceText).getD []

namespace ProjectRun

variable (r : ProjectRun) (memory : Snapshot) {f : FileRecord}

/-- The texts of the units in which a file is decomposed; none if it cannot be. -/
def textsOf (f : FileRecord) : List String :=
  match r.indexer.decomposeFile r.top r.root f with
  | .ok g => g.units.map CodeUnit.sourceText
  | .error _ => []

instance (f : FileRecord) : Decidable (r.Knows memory f) :=
  inferInstanceAs (Decidable (_ ∧ ∃ row ∈ memory.rows, _))

/-- The files with content that memory does not know. -/
def unknownFiles : List FileRecord :=
  r.files.filter fun f => decide (f.checksum ≠ Checksum.empty ∧ ¬ r.Knows memory f)

/-- The texts of all units of which memory has no vector. -/
def missingTexts : List String := (r.unknownFiles memory).flatMap r.textsOf

/-- The texts of the chunks in which these units are sent. -/
def missingChunks : List String :=
  (r.missingTexts memory).flatMap fun text =>
    (chunksOf (r.indexer.embedder.jobOf text)).map TextChunk.text

/-- The run ends before anything is embedded. -/
def EndsEarly : Prop :=
  r.circumstances.workerFails = true ∨ r.circumstances.cancelledAt = some .decomposing ∨
    r.circumstances.cancelledAt = some .embedding

/-! ## §1 Pending files -/

variable {r memory}

/-- A file that is carried forward is known under its own path. -/
theorem knows_of_carry (h : UpdatePlan.fateOf memory r.modelId f = .carry) : r.Knows memory f := by
  obtain ⟨hreuse, hchecksum, hcomplete⟩ := UpdatePlan.fateOf_eq_carry_iff.1 h
  obtain ⟨row, hrow, hkey⟩ := exists_row_of_checksumOf? hchecksum
  refine ⟨hreuse, row, hrow, congrArg Prod.snd hkey, ?_⟩
  rw [hkey]
  exact hcomplete

/-- A file whose content is taken over is known under the path that the content comes from. -/
theorem knows_of_embeddedUnits? (hreuse : memory.embeddedBy r.modelId = true)
    {units : List CodeUnit} (hunits : memory.embeddedUnits? f.checksum = some units) :
    r.Knows memory f := by
  obtain ⟨row, hrow, hchecksum, hcomplete, _⟩ := exists_row_of_embeddedUnits? hunits
  exact ⟨hreuse, row, hrow, hchecksum, hcomplete⟩

/-- Where every row is embedded, just those contents are taken over that memory knows. -/
theorem relocate?_eq_none_iff (hembedded : ∀ row ∈ memory.rows, row.unit.embedding.isSome = true) :
    Workload.relocate? (UpdatePlan.make r.files memory r.modelId) memory f = none ↔
      ¬ r.Knows memory f := by
  rw [Option.eq_none_iff_forall_ne_some]
  constructor
  · -- the lookup may find the content under another path, but it finds it
    rintro hnone ⟨hreuse, row, hrow, hchecksum, hcomplete⟩
    obtain ⟨g, hsome⟩ := Workload.exists_relocate? hreuse hrow hchecksum hcomplete hembedded
    exact hnone g hsome
  · rintro hunknown g hsome
    obtain ⟨hreuse, units, hunits, _⟩ := Workload.relocate?_eq_some_iff.1 hsome
    exact hunknown (knows_of_embeddedUnits? hreuse hunits)

/-- Pending are the files with content that memory does not know. -/
theorem mem_pending_iff (hembedded : ∀ row ∈ memory.rows, row.unit.embedding.isSome = true) :
    f ∈ (r.workload memory).pending ↔
      f ∈ r.files ∧ f.checksum ≠ Checksum.empty ∧ ¬ r.Knows memory f := by
  unfold workload
  rw [Workload.mem_pending, relocate?_eq_none_iff hembedded, UpdatePlan.fateOf_eq_process_iff]
  refine and_congr_right fun _ => ?_
  constructor
  · rintro ⟨⟨_, hcontent⟩, hunknown⟩
    exact ⟨hcontent, hunknown⟩
  · rintro ⟨hcontent, hunknown⟩
    exact ⟨⟨fun hcarry => hunknown (knows_of_carry hcarry), hcontent⟩, hunknown⟩

private theorem pending_eq_unknownFiles
    (hembedded : ∀ row ∈ memory.rows, row.unit.embedding.isSome = true) :
    (r.workload memory).pending = r.unknownFiles memory := by
  unfold workload unknownFiles
  rw [Workload.pending_eq_filter]
  refine List.filter_congr fun f hf => ?_
  rw [decide_eq_decide]
  exact (mem_pending_iff hembedded).trans (and_iff_right hf)

/-! ## §2 Requests -/

private theorem unitTexts_parsed (results : List Decomposed) :
    unitTexts (Workload.parsed results) = results.flatMap Decomposed.texts := by
  unfold Workload.parsed
  induction results with
  | nil => rfl
  | cons d results ih =>
    rw [List.flatMap_cons, ← ih]
    unfold Decomposed.texts
    cases hd : d.record? with
    | none => simp [hd]
    | some g => simp [hd, unitTexts_cons]

/-- What a worker makes of a file has the texts of its units. -/
theorem texts_decomposed (r : ProjectRun) (f : FileRecord) :
    Decomposed.texts ⟨f.filepath, r.indexer.decomposeFile r.top r.root f⟩ = r.textsOf f := by
  unfold Decomposed.texts Decomposed.record? textsOf
  cases r.indexer.decomposeFile r.top r.root f with
  | ok g => rfl
  | error e => rfl

/-- The texts that are requested are those of the pending files, in the order of the workers. -/
theorem requested_perm (harranges : ∀ ds, (r.circumstances.arrange ds).Perm ds)
    (memory : Snapshot) :
    (r.requested memory).Perm ((r.workload memory).pending.flatMap r.textsOf) := by
  unfold requested results
  rw [unitTexts_parsed]
  refine ((harranges _).flatMap_right Decomposed.texts).trans ?_
  unfold Workload.decompose
  rw [List.flatMap_map]
  simp only [texts_decomposed]
  exact List.Perm.refl _

private theorem asked_of_not_endsEarly (hscan : r.indexer.scan r.top r.root = .ok r.files)
    (h : ¬ r.EndsEarly) (session : StoreSession) :
    (r.outcome session).asked = r.requested session.memory ∧
      (r.outcome session).sent =
        (r.indexer.embedder.embedTexts (r.requested session.memory) r.state).sent := by
  obtain ⟨hworkers, hstages⟩ := not_or.1 h
  obtain ⟨hdecomposing, hembedding⟩ := not_or.1 hstages
  rw [r.outcome_of_scan_ok session hscan]
  simp only [Indexer.runOn, Indexer.conclude, if_neg hdecomposing, if_neg hworkers,
    if_neg hembedding]
  -- a later cancellation or a failed write takes nothing back
  split
  · exact ⟨rfl, rfl⟩
  · split
    · exact ⟨rfl, rfl⟩
    · exact ⟨rfl, rfl⟩

private theorem asked_of_scan_error {e : IndexError}
    (hscan : r.indexer.scan r.top r.root = .error e) (session : StoreSession) :
    (r.outcome session).asked = [] ∧ (r.outcome session).sent = [] := by
  rw [r.outcome_of_scan_error session hscan]
  exact ⟨rfl, rfl⟩

private theorem asked_of_endsEarly (h : r.EndsEarly) (session : StoreSession) :
    (r.outcome session).asked = [] ∧ (r.outcome session).sent = [] := by
  cases hscan : r.indexer.scan r.top r.root with
  | error e => exact asked_of_scan_error hscan session
  | ok files =>
    rw [r.outcome_of_scan_ok session hscan]
    unfold Indexer.runOn
    -- the checks of the source in their order, before anything is embedded
    by_cases hdecomposing : r.circumstances.cancelledAt = some .decomposing
    · rw [if_pos hdecomposing]
      exact ⟨rfl, rfl⟩
    rw [if_neg hdecomposing]
    by_cases hworkers : r.circumstances.workerFails = true
    · rw [if_pos hworkers]
      exact ⟨rfl, rfl⟩
    rw [if_neg hworkers]
    have hembedding : r.circumstances.cancelledAt = some .embedding :=
      (h.resolve_left hworkers).resolve_left hdecomposing
    unfold Indexer.conclude
    rw [if_pos hembedding]
    exact ⟨rfl, rfl⟩

private theorem missingTexts_eq_nil
    (h : ∀ f ∈ r.files, f.checksum ≠ Checksum.empty → r.Knows memory f) :
    r.missingTexts memory = [] := by
  have hnone : r.unknownFiles memory = [] := by
    refine List.filter_eq_nil_iff.2 fun f hf => ?_
    rw [decide_eq_true_eq]
    rintro ⟨hcontent, hunknown⟩
    exact hunknown (h f hf hcontent)
  unfold missingTexts
  rw [hnone]
  rfl

private theorem asked_perm_of_not_endsEarly (events : List SessionEvent)
    (harranges : ∀ ds, (r.circumstances.arrange ds).Perm ds) (h : ¬ r.EndsEarly) :
    ((r.outcome (after events)).asked).Perm (r.missingTexts (after events).memory) := by
  cases hscan : r.indexer.scan r.top r.root with
  | error e =>
    -- without a scan there are no files, and nothing is missing of them
    have hfiles : r.files = [] := by
      unfold files
      rw [hscan]
    rw [(asked_of_scan_error hscan _).1, missingTexts_eq_nil fun f hf => by
      rw [hfiles] at hf
      cases hf]
  | ok files =>
    obtain rfl := r.files_of_scan hscan
    have hembedded : ∀ row ∈ (after events).memory.rows, row.unit.embedding.isSome = true :=
      fun row hrow => embedding_isSome_of_mem_snapshots List.mem_cons_self hrow
    have hperm := requested_perm harranges (after events).memory
    rw [pending_eq_unknownFiles hembedded] at hperm
    rw [(asked_of_not_endsEarly hscan h _).1]
    exact hperm

/-- The provider is called for the chunks of what is asked for: for each at least once, and at most
as often as attempts are allowed. -/
theorem sent_bounds_of_not_endsEarly {events : List SessionEvent}
    (harranges : ∀ ds, (r.circumstances.arrange ds).Perm ds) (h : ¬ r.EndsEarly)
    {provider : Provider r.σ} {tokenize : String → Tokens} {settings : EmbedderSettings}
    (hembedder : r.indexer.embedder = .ofProvider provider tokenize settings) :
    (r.missingChunks (after events).memory).Subperm (r.outcome (after events)).sent ∧
      (r.outcome (after events)).sent.Subperm ((r.missingChunks (after events).memory).flatMap
        (List.replicate (max 1 settings.maxAttempts))) := by
  have hasked := asked_perm_of_not_endsEarly events harranges h
  cases hscan : r.indexer.scan r.top r.root with
  | error e =>
    -- without a scan nothing is asked for, and so nothing is missing either
    obtain ⟨hnone, hsent⟩ := asked_of_scan_error hscan (after events)
    rw [hnone] at hasked
    unfold missingChunks
    rw [hsent, hasked.symm.eq_nil]
    exact ⟨.refl _, .refl _⟩
  | ok files =>
    obtain rfl := r.files_of_scan hscan
    obtain ⟨hrequested, hsent⟩ := asked_of_not_endsEarly hscan h (after events)
    rw [hrequested] at hasked
    have hchunks :
      (requests ((r.requested (after events).memory).map r.indexer.embedder.jobOf)).Perm
        (r.missingChunks (after events).memory) := by
      unfold requests
      rw [List.flatMap_map]
      exact hasked.flatMap_right _
    have hbounds := Embedder.sent_bounds provider tokenize settings
      (r.requested (after events).memory) r.state
    rw [← hembedder] at hbounds
    rw [hsent]
    exact ⟨hchunks.symm.subperm.trans hbounds.1,
      hbounds.2.trans (hchunks.flatMap_right _).subperm⟩

/-- A run asks for what is missing, and for nothing else.  Whatever happened before, and whatever
happens to the run once its files are decomposed, the texts that it wants embedded are those of the
units of its files with content that memory does not know, each as often as it occurs.  The provider
is called with the chunks of these texts: with each of them, not more often than attempts are
allowed, and with nothing else.  Where memory knows the content of all files, whatever their paths
were, no provider is called. -/
theorem asks_for_missingTexts (events : List SessionEvent) (r : ProjectRun)
    (harranges : ∀ ds, (r.circumstances.arrange ds).Perm ds) :
    (¬ r.EndsEarly →
        ((r.outcome (after events)).asked).Perm (r.missingTexts (after events).memory) ∧
        ∀ provider tokenize settings, r.indexer.embedder = .ofProvider provider tokenize settings →
          (r.missingChunks (after events).memory).Subperm (r.outcome (after events)).sent ∧
            (r.outcome (after events)).sent.Subperm ((r.missingChunks (after events).memory).flatMap
              (List.replicate (max 1 settings.maxAttempts)))) ∧
      ((∀ f ∈ r.files, f.checksum ≠ Checksum.empty → r.Knows (after events).memory f) →
        (r.outcome (after events)).asked = [] ∧ (r.outcome (after events)).calls = 0) := by
  refine ⟨fun h => ⟨asked_perm_of_not_endsEarly _ harranges h,
    fun _ _ _ => sent_bounds_of_not_endsEarly harranges h⟩, fun hknown => ?_⟩
  -- a call is a text that was sent
  suffices hnone : (r.outcome (after events)).asked = [] ∧ (r.outcome (after events)).sent = [] from
    ⟨hnone.1, congrArg List.length hnone.2⟩
  by_cases hcut : r.EndsEarly
  · exact asked_of_endsEarly hcut _
  cases hscan : r.indexer.scan r.top r.root with
  | error e => exact asked_of_scan_error hscan _
  | ok files =>
    obtain rfl := r.files_of_scan hscan
    have hperm : ((r.outcome (after events)).asked).Perm (r.missingTexts (after events).memory) :=
      asked_perm_of_not_endsEarly _ harranges hcut
    rw [missingTexts_eq_nil hknown] at hperm
    obtain ⟨hasked, hsent⟩ := asked_of_not_endsEarly hscan hcut (after events)
    -- what was sent is sent for the texts that were asked for, and there are none
    rw [hsent, ← hasked, hperm.eq_nil]
    exact ⟨rfl, rfl⟩

end ProjectRun

namespace Sample

/-- The sample's run is not cut short. -/
theorem not_endsEarly : ¬ run.EndsEarly := by
  rintro (h | h | h)
  all_goals cases h

/-- The text of its only unit is missing. -/
theorem missingTexts_eq : run.missingTexts .empty = ["x = 1\n"] := by
  -- nothing is known yet, so the one file counts
  have hunknown : run.unknownFiles .empty = [file] := by
    unfold ProjectRun.unknownFiles
    rw [files_eq]
    refine List.filter_eq_self.2 fun f hf => ?_
    obtain rfl := List.mem_singleton.1 hf
    refine decide_eq_true ⟨checksum_ne_empty, ?_⟩
    rintro ⟨_, row, hrow, _⟩
    cases hrow
  have htexts : run.textsOf file = ["x = 1\n"] := by
    unfold ProjectRun.textsOf
    rw [show run.indexer.decomposeFile run.top run.root file = _ from decomposeFile_eq]
    rfl
  unfold ProjectRun.missingTexts
  rw [hunknown, List.flatMap_singleton, htexts]

/-- That text is one chunk. -/
theorem missingChunks_eq : run.missingChunks .empty = ["x = 1\n"] := by
  unfold ProjectRun.missingChunks
  rw [missingTexts_eq]
  decide

/-- The sample project after its file has been renamed. -/
def renamedTop : FileTree := .folder [(root, .folder [(Text.octets "b.py", .file content)])]

/-- The run over the project with the renamed file. -/
def renamed : ProjectRun := ⟨indexer, .calm, renamedTop, root, ()⟩

/-- The run after that finds the file under its new name. -/
theorem renamed_files_eq : renamed.files = [.bare "b.py" content.checksum] := by
  have hflat : renamed.IsFlat [("b.py", content)] := by
    refine ⟨⟨List.pairwise_singleton _ _, List.nodup_singleton _, ?_, ?_, by decide⟩,
      root_isEntryName, List.lookup_cons_self, rfl⟩
    · exact fun f hf => (names_eq _ (by simp_all)).1
    · exact fun f hf => (names_eq _ (by simp_all)).2.1
  exact hflat.files_eq

/-- After the first run memory has the whole of the file, under its old name. -/
theorem renamed_knows :
    renamed.Knows (after [.run run]).memory (.bare "b.py" content.checksum) := by
  refine ⟨?_, row, memory_rows, rfl, ?_⟩
  · rw [embeddedBy, memory_eq, show renamed.modelId = run.modelId from rfl, beq_self_eq_true,
      Bool.or_true]
  · rw [memory_eq]
    exact List.not_mem_nil

end Sample

/-- The sample's run calls the provider with its unit, as often as attempts are allowed at most, and
the run after the file has been renamed never. -/
theorem ProjectRun.asks_for_missingTexts_sample :
    (Sample.run.outcome fresh).asked.Perm ["x = 1\n"] ∧
      ["x = 1\n"].Subperm (Sample.run.outcome fresh).sent ∧
      (Sample.run.outcome fresh).sent.Subperm (List.replicate 3 "x = 1\n") ∧
      (Sample.renamed.outcome (after [.run Sample.run])).calls = 0 := by
  obtain ⟨hfirst, _⟩ := asks_for_missingTexts [] Sample.run Sample.orderly.arranges
  obtain ⟨_, hsecond⟩ :=
    asks_for_missingTexts [.run Sample.run] Sample.renamed (fun _ => .refl _)
  obtain ⟨hasked, hsent⟩ := hfirst Sample.not_endsEarly
  obtain ⟨hlower, hupper⟩ := hsent Sample.provider (fun text => [text.toUTF8]) {} rfl
  rw [show (after []).memory = .empty from rfl] at hasked hlower hupper
  rw [Sample.missingTexts_eq] at hasked
  rw [Sample.missingChunks_eq] at hlower hupper
  refine ⟨hasked, hlower, hupper, (hsecond fun f hf _ => ?_).2⟩
  rw [Sample.renamed_files_eq, List.mem_singleton] at hf
  rw [hf]
  exact Sample.renamed_knows

end CodeIndex
